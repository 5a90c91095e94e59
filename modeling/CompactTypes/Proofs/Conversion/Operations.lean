import CompactTypes.Conversion
import CompactTypes.Proofs.Conversion.Alike
import CompactTypes.Proofs.Dwarf.WellFormed
import CompactTypes.Proofs.Resolution.Records

/-!
# Operations on graphs

A graph comes from the empty one by `Operation`s in any order: new records, copies, decoding,
resolving and numbering.  As long as each of them is about records that are there, the graph is
well-formed after each of them and has only grown, `WellFormed.applyAll`.  In such a graph whatever
is looked up is a record of the graph, so that listing and encoding it do not depend on what there
is beyond its records, `Graph.followedBy`.
-/

namespace CompactTypes

/-- A change of a graph. -/
inductive Operation where
  | push (record : TypeRecord)
  | pushDetached (record : TypeRecord)
  | duplicate (id : TypeId)
  | withIndexType (id : TypeId)
  | decode (sections : Dwarf.Sections)
  | resolve (symbols : List Symbol)
  | assignIndices

namespace Graph

/-- The graph after an operation. -/
def apply (g : Graph) : Operation → Graph
  | .push record => g.push record
  | .pushDetached record => g.pushDetached record
  | .duplicate id => g.duplicate id
  | .withIndexType id => g.withIndexType id
  | .decode sections => (sections.decode g).graph
  | .resolve symbols => (CompactTypes.resolve g symbols).graph
  | .assignIndices => g.assignIndices

/-- The graph after some operations, one after the other. -/
def applyAll (g : Graph) (operations : List Operation) : Graph :=
  operations.foldl apply g

/-- An operation is about records that are there. -/
def Admits (g : Graph) : Operation → Prop
  | .push record | .pushDetached record => ∀ target ∈ record.referents, target < g.nextId
  | .duplicate id | .withIndexType id => id < g.nextId
  | .decode _ | .resolve _ | .assignIndices => True

/-- Each of some operations is about records that are there when it happens. -/
def AdmitsAll (g : Graph) : List Operation → Prop
  | [] => True
  | operation :: operations =>
    g.Admits operation ∧ (g.apply operation).AdmitsAll operations

instance (g : Graph) (operation : Operation) : Decidable (g.Admits operation) :=
  match operation with
  | .push record | .pushDetached record =>
    inferInstanceAs (Decidable (∀ target ∈ record.referents, target < g.nextId))
  | .duplicate id | .withIndexType id => inferInstanceAs (Decidable (id < g.nextId))
  | .decode _ | .resolve _ | .assignIndices => inferInstanceAs (Decidable True)

instance decidableAdmitsAll (g : Graph) : (operations : List Operation) →
    Decidable (g.AdmitsAll operations)
  | [] => inferInstanceAs (Decidable True)
  | operation :: operations =>
    have := (g.apply operation).decidableAdmitsAll operations
    inferInstanceAs (Decidable (_ ∧ _))

variable {g₀ g : Graph}

/-! ### Symbols -/

theorem GrowsTo.claim (h : g₀.GrowsTo g) (c : SymbolClass) {id : TypeId} (inside : id < g.nextId)
    (slot : Nat) :
  g₀.GrowsTo (g.claim c id slot)
  := by
  have claimed := h.update_same id (·.claimedBy slot) (fun _ => rfl) (fun _ => rfl) fun _ => rfl
  apply claimed.addTaken c
  rw [nextId_update]
  exact inside

/-- A symbol lets a graph grow, since what its name finds was there when the index was made. -/
theorem GrowsTo.resolveSymbol (h : g₀.GrowsTo g) (s : Symbol) (c : SymbolClass) :
  g₀.GrowsTo (g.resolveSymbol (NameIndex.ofGraph g₀) s c).1
  := by
  have new (r : TypeRecord) : g.nextId < (g.pushDetached r).nextId := by
    rw [nextId_pushDetached]
    exact Nat.lt_succ_self _
  rw [Graph.resolveSymbol]
  split
  next =>
    apply (h.pushDetached ?_).claim c (new _)
    -- A placeholder refers to itself.
    intro target mem
    exact Nat.le_of_eq (List.mem_singleton.mp mem)
  next id found =>
    have inside := Nat.lt_of_lt_of_le (sound_ofGraph g₀ c s.baseName id found).1 h.nextId_le
    split
    next => exact (h.duplicate id).claim c (new _) s.index
    next => exact h.claim c inside s.index

theorem GrowsTo.step {r : Resolution} (h : g₀.GrowsTo r.graph) (s : Symbol) :
  g₀.GrowsTo (r.step (NameIndex.ofGraph g₀) s).graph
  := by
  cases hclass : s.symbolClass? with
  | none =>
    rw [Resolution.step_of_none _ r hclass]
    exact h
  | some c =>
    rw [Resolution.step_of_some _ r hclass]
    exact h.resolveSymbol s c

theorem GrowsTo.foldl_step (symbols : List Symbol) {r : Resolution} (h : g₀.GrowsTo r.graph) :
  g₀.GrowsTo (symbols.foldl (Resolution.step (NameIndex.ofGraph g₀)) r).graph
  := by
  induction symbols generalizing r with
  | nil => exact h
  | cons s symbols ih => exact ih (h.step s)

theorem WellFormed.resolve (h : g.WellFormed) (symbols : List Symbol) :
  g.GrowsTo (CompactTypes.resolve g symbols).graph
  := GrowsTo.foldl_step (r := ⟨g, #[]⟩) symbols h.growsTo

/-! ### Operations in any order -/

/-- An operation lets a well-formed graph grow. -/
theorem WellFormed.apply (h : g.WellFormed) {operation : Operation}
    (admitted : g.Admits operation) :
  g.GrowsTo (g.apply operation)
  := by
  cases operation with
  | push => exact h.growsTo.push fun target mem => Nat.le_of_lt (admitted target mem)
  | pushDetached =>
    exact h.growsTo.pushDetached fun target mem => Nat.le_of_lt (admitted target mem)
  | duplicate id => exact h.growsTo.duplicate id
  | withIndexType => exact h.growsTo.withIndexType admitted
  | decode sections => exact h.decode sections
  | resolve symbols => exact h.resolve symbols
  | assignIndices => exact h.growsTo.assignIndices

/-- Any number of operations lets a well-formed graph grow. -/
theorem WellFormed.applyAll (h : g.WellFormed) {operations : List Operation}
    (admitted : g.AdmitsAll operations) :
  g.GrowsTo (g.applyAll operations)
  := by
  induction operations generalizing g with
  | nil => exact h.growsTo
  | cons operation operations ih =>
    obtain ⟨first, rest⟩ := admitted
    have applied := h.apply first
    exact applied.trans (ih applied.toWellFormed rest)

theorem applyAll_append (g : Graph) (before after : List Operation) :
  g.applyAll (before ++ after) = (g.applyAll before).applyAll after
  := List.foldl_append

theorem admitsAll_append (g : Graph) (before after : List Operation) :
  g.AdmitsAll (before ++ after) ↔ g.AdmitsAll before ∧ (g.applyAll before).AdmitsAll after
  := by
  induction before generalizing g with
  | nil => exact (iff_of_eq (true_and _)).symm
  | cons operation before ih =>
    rw [List.cons_append, AdmitsAll, AdmitsAll, ih, and_assoc]
    exact Iff.rfl

/-! ### What there is beyond the records -/

/-- The graph with further records that are in no list. -/
def followedBy (g : Graph) (more : List TypeRecord) : Graph :=
  { g with records := g.records ++ more.toArray }

theorem get_followedBy (g : Graph) (more : List TypeRecord) {id : TypeId} (inside : id < g.nextId) :
  (g.followedBy more).get id = g.get id
  := by
  rw [get, get, Array.getD_eq_getD_getElem?, Array.getD_eq_getD_getElem?, followedBy,
    Array.getElem?_append_left inside]

theorem WellFormed.referenced_followedBy (h : g.WellFormed) (more : List TypeRecord) {id : TypeId}
    (inside : id < g.nextId) :
  (g.followedBy more).referenced id = g.referenced id
  := by
  rw [referenced, referenced, get_followedBy g more inside]
  split
  next target reference =>
    have referent := TypeRecord.mem_referents.mpr (.inl reference)
    rw [get_followedBy g more (h.referent_lt id target referent)]
  next => rfl

theorem WellFormed.alike_followedBy (h : g.WellFormed) (more : List TypeRecord) {id : TypeId}
    (inside : id < g.nextId) :
  g.Alike (g.followedBy more) id id
  := by
  constructor
  · rw [get_followedBy g more inside]
  · intro target mem
    rw [get_followedBy g more (h.referent_lt id target mem)]
  · rw [indexTypeNumber, indexTypeNumber]
    have same : (g.followedBy more).indexType = g.indexType := rfl
    rw [same]
    split
    next indexType found => rw [get_followedBy g more (h.indexType_lt indexType found)]
    next => rfl

theorem WellFormed.emittedTypes_followedBy (h : g.WellFormed) (more : List TypeRecord) :
  (g.followedBy more).emittedTypes = g.emittedTypes
  := by
  have allTypes : (g.followedBy more).allTypes = g.allTypes := rfl
  apply emittedTypes_congr allTypes
  intro id mem
  rw [get_followedBy g more (h.allTypes_lt id mem)]

theorem WellFormed.emittedTypes_lt (h : g.WellFormed) {id : TypeId} (mem : id ∈ g.emittedTypes) :
  id < g.nextId
  := h.allTypes_lt id ((g.mem_emittedTypes id).mp mem).1

/-- Numbered lines are the same if the line of each record is. -/
theorem numberedLines_congr {line line' : TypeId → Nat → Except Error String} {ids : List TypeId}
    (same : ∀ id ∈ ids, line' id = line id) :
  numberedLines line' ids = numberedLines line ids
  := by
  apply List.map_congr_left
  intro entry mem
  rw [same entry.1 (List.fst_mem_of_mem_zipIdx mem)]

theorem WellFormed.listing_followedBy (h : g.WellFormed) (more : List TypeRecord) :
  (g.followedBy more).listing = g.listing
  := by
  have objects : numberedLines (g.followedBy more).objectLine g.objects.toList
      = numberedLines g.objectLine g.objects.toList := by
    apply numberedLines_congr
    intro id mem
    have inside := h.objects_lt id (Array.mem_toList_iff.mp mem)
    funext place
    simp only [objectLine, (h.alike_followedBy more inside).referencedNumber,
      get_followedBy g more inside]
  have functions : numberedLines (g.followedBy more).functionLine g.functions.toList
      = numberedLines g.functionLine g.functions.toList := by
    apply numberedLines_congr
    intro id mem
    have inside := h.functions_lt id (Array.mem_toList_iff.mp mem)
    have arguments := (h.alike_followedBy more inside).argumentText
    rw [get_followedBy g more inside] at arguments
    funext place
    simp only [functionLine, (h.alike_followedBy more inside).referencedNumber, arguments,
      get_followedBy g more inside]
  have types : g.emittedTypes.map (g.followedBy more).typeLines = g.emittedTypes.map g.typeLines :=
    List.map_congr_left fun id mem => (h.alike_followedBy more (h.emittedTypes_lt mem)).typeLines
  rw [listing, listing, listingItems, listingItems, h.emittedTypes_followedBy more, types,
    ← objects, ← functions]
  rfl

theorem WellFormed.encode_followedBy (h : g.WellFormed) (more : List TypeRecord) (label : String)
    (o : ByteOrder) (compressed : Bool) :
  (g.followedBy more).encode label o compressed = g.encode label o compressed
  := by
  have emitted := h.emittedTypes_followedBy more
  have get_eq {id : TypeId} (mem : id ∈ g.emittedTypes) : (g.followedBy more).get id = g.get id :=
    get_followedBy g more (h.emittedTypes_lt mem)
  have texts : (g.followedBy more).texts label = g.texts label := by
    rw [Graph.texts, Graph.texts, emitted]
    exact congrArg _ (List.flatMap_congr fun id mem => by rw [get_eq mem])
  have last : (g.followedBy more).lastNumber = g.lastNumber := by
    rw [lastNumber, lastNumber, emitted]
    apply List.foldl_ext
    intro number id mem
    rw [get_eq mem]
  have objects : g.objects.toList.mapM ((g.followedBy more).objectEntry o)
      = g.objects.toList.mapM (g.objectEntry o) :=
    mapM_congr fun id mem =>
      (h.alike_followedBy more (h.objects_lt id (Array.mem_toList_iff.mp mem))).objectEntry o
  have functions : g.functions.toList.mapM ((g.followedBy more).functionEntry o)
      = g.functions.toList.mapM (g.functionEntry o) :=
    mapM_congr fun id mem =>
      (h.alike_followedBy more (h.functions_lt id (Array.mem_toList_iff.mp mem))).functionEntry o
  have types (strings : Ctf.StringTable) :
      g.emittedTypes.mapM ((g.followedBy more).typeEntry o strings)
        = g.emittedTypes.mapM (g.typeEntry o strings) :=
    mapM_congr fun id mem => (h.alike_followedBy more (h.emittedTypes_lt mem)).typeEntry o strings
  have sections : (g.followedBy more).sections label o = g.sections label o := by
    simp only [Graph.sections, texts, last, emitted, types, ← objects, ← functions]
    rfl
  rw [encode, encode, sections]

/-- After any operations from the empty graph on, the graph is well-formed, and the records that
there were after some of them are still there, with their kinds and names.  What the record at a
position refers to, the listing and the encoding do not depend on anything beyond the records. -/
theorem wellFormed_of_operations (operations : List Operation)
    (admitted : Graph.empty.AdmitsAll operations) :
  let g := Graph.empty.applyAll operations
  g.WellFormed
  ∧ (∀ before after, operations = before ++ after → (Graph.empty.applyAll before).Keeps g)
  ∧ ∀ more, (∀ id < g.nextId, (g.followedBy more).referenced id = g.referenced id)
    ∧ (g.followedBy more).listing = g.listing
    ∧ ∀ label o compressed,
      (g.followedBy more).encode label o compressed = g.encode label o compressed
  := by
  intro g
  have grown := wellFormed_empty.applyAll admitted
  refine ⟨grown.toWellFormed, ?_, fun more => ⟨?_, ?_, ?_⟩⟩
  · rintro before after rfl
    obtain ⟨first, rest⟩ := (admitsAll_append .empty before after).mp admitted
    have early := wellFormed_empty.applyAll first
    have late := early.toWellFormed.applyAll rest
    rw [← applyAll_append] at late
    exact late.toKeeps
  · exact fun id inside => grown.referenced_followedBy more inside
  · exact grown.listing_followedBy more
  · exact grown.encode_followedBy more

/-- A unit with a pointer of which the name can be read, but not the type. -/
def unreadablePointer : Dwarf.Sections where
  order := .little
  abbreviations := ⟨#[1, 0x11, 1, 0, 0, 2, 0x0f, 0, 3, 8, 0x0b, 0x02, 0x49, 0x13, 0, 0, 0]⟩
  info := ⟨#[15, 0, 0, 0, 4, 0, 0, 0, 0, 0, 8, 1, 2, 112, 0, 8, 0, 0, 0]⟩
  strings := .empty
  stringOffsets := .empty
  lineStrings := .empty

/-- Of two decodings the first one is stopped by an error, which leaves a pointer behind. -/
theorem wellFormed_of_operations_unreadablePointer :
  let start : List Operation := [.push (.ofKind .integer (some "int")),
    .push ((TypeRecord.ofKind .pointer none).withReference 0), .duplicate 1, .withIndexType 0,
    .decode unreadablePointer]
  let operations := start ++ [.decode .sampleUnit, .resolve [⟨1, "f", .function, .defined⟩,
    ⟨2, "f.1", .function, .defined⟩, ⟨3, "w", .object, .defined⟩], .assignIndices, .duplicate 15]
  (unreadablePointer.decode .empty).error.isSome ∧ (Graph.empty.applyAll start).nextId = 6
    ∧ Graph.empty.AdmitsAll operations
    ∧ (Graph.empty.applyAll start).Keeps (Graph.empty.applyAll operations)
  := by
  intro start operations
  have admitted : Graph.empty.AdmitsAll operations := by decide +kernel
  exact ⟨by decide +kernel, by decide +kernel, admitted,
    (wellFormed_of_operations operations admitted).2.1 start _ rfl⟩

end Graph

end CompactTypes

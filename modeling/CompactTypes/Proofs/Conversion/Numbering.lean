import CompactTypes.Proofs.Conversion.Operations
import CompactTypes.Proofs.Resolution.Tables

/-!
# Numbers are stable

The numbers of types depend on the order of the list of all types and on which of its records
describe symbols.  No operation reorders this list or makes a plain type a symbol: a graph
`ProlongsTo` the one after any operations, whose first plain types are those of the graph.  Hence
`assignIndices_stable`: whatever happens to a numbered graph, its types get the same numbers again.
-/

namespace CompactTypes

namespace Graph

/-- The types of a graph are records of the graph, each listed once. -/
structure Listed (g : Graph) : Prop where
  inside : ∀ id ∈ g.allTypes, id < g.nextId
  distinct : g.allTypes.toList.Nodup

/-- In another graph further types are listed after those of a graph, and the records that were
there describe symbols or not as before. -/
structure ProlongsTo (g g' : Graph) : Prop extends Listed g' where
  nextId_le : g.nextId ≤ g'.nextId
  allTypes_prefix : g.allTypes.toList <+: g'.allTypes.toList
  isSymbol_eq : ∀ id < g.nextId, (g'.get id).isSymbol = (g.get id).isSymbol

variable {g₀ g g' : Graph}

/-! ### Listed types -/

theorem listed_empty :
  Graph.empty.Listed
  := ⟨nofun, .nil⟩

theorem Listed.nodup_emittedTypes (h : g.Listed) :
  g.emittedTypes.Nodup
  := h.distinct.filter _

/-- Each type gets the number of its place in the output. -/
theorem Listed.get_assignIndices_of_place (h : g.Listed) {place : Nat} {id : TypeId}
    (found : g.emittedTypes[place]? = some id) :
  g.assignIndices.get id = (g.get id).withIndex (UInt32.ofNat (place + 1))
  := by
  obtain ⟨inside, rfl⟩ := List.getElem?_eq_some_iff.mp found
  rw [get_assignIndices h.nodup_emittedTypes h.inside, if_pos (List.getElem_mem inside),
    h.nodup_emittedTypes.idxOf_getElem]

theorem Listed.emittedTypes_assignIndices (h : g.Listed) :
  g.assignIndices.emittedTypes = g.emittedTypes
  := Graph.emittedTypes_assignIndices h.nodup_emittedTypes h.inside

theorem Listed.assignIndices_assignIndices (h : g.Listed) :
  g.assignIndices.assignIndices = g.assignIndices
  := by
  apply numberFrom_eq_self
  intro place id found
  rw [h.emittedTypes_assignIndices] at found
  rw [h.get_assignIndices_of_place found, UInt32.add_comm, ← UInt32.ofNat_one,
    ← UInt32.ofNat_add]
  rfl

/-! ### Operations -/

theorem Listed.prolongsTo (h : g.Listed) :
  g.ProlongsTo g
  := ⟨h, Nat.le_refl _, List.prefix_rfl, fun _ _ => rfl⟩

theorem ProlongsTo.pushDetached (h : g₀.ProlongsTo g) (r : TypeRecord) :
  g₀.ProlongsTo (g.pushDetached r)
  := by
  refine ⟨⟨fun id mem => ?_, h.distinct⟩, ?_, h.allTypes_prefix, fun id inside => ?_⟩
  · rw [nextId_pushDetached]
    exact Nat.lt_succ_of_lt (h.inside id mem)
  · rw [nextId_pushDetached]
    exact Nat.le_succ_of_le h.nextId_le
  · rw [get_pushDetached, if_neg (Nat.ne_of_lt (Nat.lt_of_lt_of_le inside h.nextId_le))]
    exact h.isSymbol_eq id inside

theorem ProlongsTo.push (h : g₀.ProlongsTo g) (r : TypeRecord) :
  g₀.ProlongsTo (g.push r)
  := by
  have all : (g.push r).allTypes.toList = g.allTypes.toList ++ [g.nextId] := Array.toList_push
  have pushed := h.pushDetached r
  refine { pushed with inside := ?_, distinct := ?_, allTypes_prefix := ?_ }
  · intro id mem
    rcases Array.mem_push.mp mem with old | rfl
    · exact pushed.inside id old
    · rw [nextId_push]
      exact Nat.lt_succ_self _
  · rw [all]
    refine List.nodup_append.mpr ⟨h.distinct, List.nodup_singleton _, ?_⟩
    rintro id mem last new rfl
    have inside := h.inside id (Array.mem_toList_iff.mp mem)
    exact Nat.lt_irrefl _ (List.mem_singleton.mp new ▸ inside)
  · rw [all]
    exact h.allTypes_prefix.trans (List.prefix_append _ _)

/-- A record may change as long as it describes a symbol or not as before. -/
theorem ProlongsTo.update (h : g₀.ProlongsTo g) (id : TypeId) (f : TypeRecord → TypeRecord)
    (same : ∀ r, (f r).isSymbol = r.isSymbol) :
  g₀.ProlongsTo (g.update id f)
  := by
  have count : (g.update id f).nextId = g.nextId := g.nextId_update id f
  refine ⟨⟨?_, h.distinct⟩, ?_, h.allTypes_prefix, fun other inside => ?_⟩
  · exact count ▸ h.inside
  · exact count ▸ h.nextId_le
  · rw [field_get_update TypeRecord.isSymbol g id f same, h.isSymbol_eq other inside]

theorem ProlongsTo.withIndexType (h : g₀.ProlongsTo g) (id : TypeId) :
  g₀.ProlongsTo (g.withIndexType id)
  := ⟨⟨h.inside, h.distinct⟩, h.nextId_le, h.allTypes_prefix, h.isSymbol_eq⟩

theorem ProlongsTo.numberFrom (h : g₀.ProlongsTo g) (next : UInt32) (ids : List TypeId) :
  g₀.ProlongsTo (g.numberFrom next ids)
  := by
  induction ids generalizing next g with
  | nil => exact h
  | cons id ids ih => exact ih (h.update id (·.withIndex next) fun _ => rfl) (next + 1)

/-- A symbol that takes a record, a copy or a placeholder leaves the types alone. -/
theorem ProlongsTo.resolve (h : g₀.ProlongsTo g) (symbols : List Symbol) :
  g₀.ProlongsTo (CompactTypes.resolve g symbols).graph
  := by
  have kept := g.underlies_resolve symbols
  refine ⟨⟨?_, ?_⟩, Nat.le_trans h.nextId_le kept.nextId_le, ?_, fun id inside => ?_⟩
  · rw [kept.allTypes_eq]
    exact fun id mem => Nat.lt_of_lt_of_le (h.inside id mem) kept.nextId_le
  · exact kept.allTypes_eq ▸ h.distinct
  · exact kept.allTypes_eq ▸ h.allTypes_prefix
  · have same := kept.unclaimed_eq id (Nat.lt_of_lt_of_le inside h.nextId_le)
    rw [TypeRecord.field_of_unclaimed TypeRecord.isSymbol (fun _ => rfl) same,
      h.isSymbol_eq id inside]

end Graph

/-- A walk only adds types at the end of the list. -/
theorem Dwarf.Decoding.kept_prolongsTo (g₀ : Graph) :
  Kept fun d => g₀.ProlongsTo d.graph
  := by
  constructor
  · intro d d' h graph _ _
    rw [graph]
    exact h
  · intro d id f h same _
    refine h.update id f fun r => ?_
    rw [TypeRecord.isSymbol, TypeRecord.isSymbol, (same r).2.2]
  · exact fun h _ _ => h.push _
  · intro d entry c r parent h record _
    rw [graph_add_record record]
    exact h.push r
  · exact fun _ _ h => h
  · exact fun outer count h => (h.push _).update outer _ fun _ => rfl

namespace Graph

variable {g₀ g g' : Graph}

theorem ProlongsTo.decode (h : g₀.ProlongsTo g) (s : Dwarf.Sections) :
  g₀.ProlongsTo (s.decode g).graph
  := by
  rw [Dwarf.Sections.decode]
  split
  next => exact h
  next size _ =>
    have start : g₀.ProlongsTo (Dwarf.Decoding.start g size).graph :=
      ((h.push Dwarf.Decoding.voidRecord).push (Dwarf.Decoding.indexRecord size)).withIndexType _
    have walked : g₀.ProlongsTo (s.walk s.units g size).1.graph :=
      (Dwarf.Decoding.kept_prolongsTo g₀).walk start
    dsimp only
    split
    next stopped =>
      rw [stopped] at walked
      exact walked
    next done =>
      rw [done] at walked
      apply Dwarf.Decoding.finish_keeps (Q := g₀.ProlongsTo) ?_ walked
      intro g' id f h same _
      refine h.update id f fun r => ?_
      rw [TypeRecord.isSymbol, TypeRecord.isSymbol, (same r).2.2]

/-- An operation only adds types at the end of the list, whichever records it is about. -/
theorem ProlongsTo.apply (h : g₀.ProlongsTo g) (operation : Operation) :
  g₀.ProlongsTo (g.apply operation)
  := by
  cases operation with
  | push record => exact h.push record
  | pushDetached record => exact h.pushDetached record
  | duplicate id => exact h.pushDetached (g.copyAt id g.nextId)
  | withIndexType id => exact h.withIndexType id
  | decode sections => exact h.decode sections
  | resolve symbols => exact h.resolve symbols
  | assignIndices => exact h.numberFrom 1 g.emittedTypes

theorem ProlongsTo.applyAll (h : g₀.ProlongsTo g) (operations : List Operation) :
  g₀.ProlongsTo (g.applyAll operations)
  := by
  induction operations generalizing g with
  | nil => exact h
  | cons operation operations ih => exact ih (h.apply operation)

/-- Whatever operations a graph comes from, its types are records of it, each listed once. -/
theorem listed_applyAll (operations : List Operation) :
  (Graph.empty.applyAll operations).Listed
  := (listed_empty.prolongsTo.applyAll operations).toListed

/-- The plain types of a graph are the first ones of the graph that it prolongs to. -/
theorem ProlongsTo.emittedTypes_prefix (h : g.ProlongsTo g') (listed : g.Listed) :
  g.emittedTypes <+: g'.emittedTypes
  := by
  have same : g.allTypes.toList.filter (fun id => !(g'.get id).isSymbol) = g.emittedTypes := by
    apply List.filter_congr
    intro id mem
    rw [h.isSymbol_eq id (listed.inside id (Array.mem_toList_iff.mp mem))]
  have first := h.allTypes_prefix.filter fun id => !(g'.get id).isSymbol
  rw [same] at first
  exact first

/-- Numbering a graph counts the types that have a place in the output and gives each of them its
place among them, counted from one, as its index; it changes nothing else, and nothing at all when
done again.  After any further operations and another numbering these types are still the first
ones of the output, with the same indices. -/
theorem assignIndices_stable (listed : g.Listed) :
  let g' := g.assignIndices
  g.numberEach 0 g.allTypes.toList = (g', UInt32.ofNat g.typeCount)
  ∧ (∀ place id, g.emittedTypes[place]? = some id →
    g'.get id = (g.get id).withIndex (UInt32.ofNat (place + 1)))
  ∧ (∀ id, id ∉ g.allTypes ∨ (g.get id).isSymbol → g'.get id = g.get id)
  ∧ (g'.nextId = g.nextId ∧ g'.allTypes = g.allTypes ∧ g'.indexType = g.indexType
    ∧ (∀ c, g'.taken c = g.taken c) ∧ g'.emittedTypes = g.emittedTypes)
  ∧ g'.assignIndices = g'
  ∧ ∀ operations,
    let later := (g'.applyAll operations).assignIndices
    g'.emittedTypes <+: later.emittedTypes
    ∧ ∀ id ∈ g'.emittedTypes, (later.get id).index = (g'.get id).index
  := by
  intro g'
  have numbered : g'.Listed := (listed.prolongsTo.apply .assignIndices).toListed
  refine ⟨g.numberEach_allTypes, ?_, ?_, ⟨?_, ?_, ?_, ?_, ?_⟩, ?_, ?_⟩
  · exact fun place id found => listed.get_assignIndices_of_place found
  · intro id other
    rw [get_assignIndices listed.nodup_emittedTypes listed.inside, if_neg]
    intro mem
    obtain ⟨mem, plain⟩ := (g.mem_emittedTypes id).mp mem
    rcases other with outside | symbol
    · exact outside mem
    · exact Bool.false_ne_true (plain.symm.trans symbol)
  · exact nextId_numberFrom _ _ g
  · exact allTypes_numberFrom _ _ g
  · exact indexType_numberFrom _ _ g
  · exact taken_numberFrom _ _ g
  · exact listed.emittedTypes_assignIndices
  · exact listed.assignIndices_assignIndices
  · intro operations later
    have grown := numbered.prolongsTo.applyAll operations
    have all : later.emittedTypes = (g'.applyAll operations).emittedTypes :=
      grown.toListed.emittedTypes_assignIndices
    have first := grown.emittedTypes_prefix numbered
    refine ⟨all ▸ first, fun id mem => ?_⟩
    -- The place in the output is the same before and after the operations.
    obtain ⟨place, found⟩ := List.getElem?_of_mem mem
    have still : (g'.applyAll operations).emittedTypes[place]? = some id := by
      obtain ⟨rest, append⟩ := first
      rw [← append, List.getElem?_append_left (List.getElem?_eq_some_iff.mp found).1]
      exact found
    have later_eq : later.get id = _ := grown.toListed.get_assignIndices_of_place still
    rw [listed.emittedTypes_assignIndices] at found
    rw [later_eq, listed.get_assignIndices_of_place found]
    rfl

/-- Functions and a detached record stand between the types, and symbols take one of the functions
and copies of it after the numbering. -/
theorem assignIndices_stable_interleaved :
  let function : TypeRecord :=
    { TypeRecord.ofKind .function (some "f") with flags := .ofClass .function, reference := some 0 }
  let start : List Operation := [.push (.ofKind .integer (some "int")), .push function,
    .pushDetached (.ofKind .float (some "float")), .push (.ofKind .pointer none), .push function]
  let more : List Operation := [.resolve [⟨1, "f", .function, .defined⟩,
    ⟨2, "f.1", .function, .defined⟩], .duplicate 3, .push function, .push (.ofKind .typedef none)]
  let g := Graph.empty.applyAll start
  let later := (g.assignIndices.applyAll more).assignIndices
  g.Listed ∧ g.emittedTypes = [0, 3] ∧ g.numberEach 0 [0, 1, 3, 4] = (g.assignIndices, 2)
    ∧ g.assignIndices.get 3 = (g.get 3).withIndex 2
    ∧ later.emittedTypes = [0, 3, 8] ∧ (later.get 3).index = (g.assignIndices.get 3).index
  := by
  intro function start more g later
  have listed : g.Listed := listed_applyAll start
  obtain ⟨counted, placed, -, -, -, kept⟩ := assignIndices_stable listed
  refine ⟨listed, by decide +kernel, counted, placed 1 3 (by decide +kernel), by decide +kernel, ?_⟩
  exact (kept more).2 3 (by decide +kernel)

end Graph

end CompactTypes

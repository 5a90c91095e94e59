import CompactTypes.Proofs.Graph.Fresh
import CompactTypes.Proofs.Resolution.Slots

/-!
# The record that a symbol gets

Which record a symbol gets depends on its class and its base name only, although whether it takes
the record itself, a copy of it or a placeholder depends on the symbols before it.
`Graph.recordFor` says what it gets in a fresh graph, and `resolved_resolve` that it does so.  The
types that have a place in the output stay as they are.
-/

namespace CompactTypes

/-- Records that differ in the symbol that has taken them only agree in what does not depend on
it. -/
theorem TypeRecord.field_of_unclaimed {α : Type} (field : TypeRecord → α)
    (keeps : ∀ r, field r.unclaimed = field r) {r r' : TypeRecord}
    (h : r'.unclaimed = r.unclaimed) :
  field r' = field r
  := by
  rw [← keeps r', h, keeps]

namespace Graph

/-- The first of all types that is of a class of symbols and has a name. -/
def firstNamed? (g : Graph) (c : SymbolClass) (name : String) : Option TypeId :=
  g.allTypes.toList.find? fun id =>
    (g.get id).symbolClass? = some c ∧ (g.get id).name = some name

/-- The record for a symbol of a class, which stands at `id` if it is a placeholder. -/
def recordFor (g : Graph) (c : SymbolClass) (s : Symbol) (id : TypeId) : TypeRecord :=
  match g.firstNamed? c s.baseName with
  | some first => g.get first
  | none => placeholder s c id

theorem find?_ofGraph_eq_firstNamed? (g : Graph) (c : SymbolClass) (name : String) :
  (NameIndex.ofGraph g).find? c name = g.firstNamed? c name
  := by
  simp only [NameIndex.find?_ofGraph, firstNamed?, NameIndex.key?_eq_some_iff]

theorem of_firstNamed? {g : Graph} {c : SymbolClass} {name : String} {id : TypeId}
    (found : g.firstNamed? c name = some id) :
  id ∈ g.allTypes ∧ (g.get id).symbolClass? = some c ∧ (g.get id).name = some name
  := by
  rw [firstNamed?] at found
  have named := List.find?_some found
  exact ⟨Array.mem_toList_iff.mp (List.mem_of_find?_eq_some found), of_decide_eq_true named⟩

theorem isSymbol_of_firstNamed? {g : Graph} {c : SymbolClass} {name : String} {id : TypeId}
    (found : g.firstNamed? c name = some id) :
  (g.get id).isSymbol = true
  := by
  rw [TypeRecord.isSymbol_eq_isSome, (of_firstNamed? found).2.1]
  rfl

theorem isSymbol_recordFor (g : Graph) (c : SymbolClass) (s : Symbol) (id : TypeId) :
  (g.recordFor c s id).isSymbol = true
  := by
  rw [recordFor]
  split
  next found => exact isSymbol_of_firstNamed? found
  next => cases c <;> rfl

/-- The record at a position is the one for a symbol of a class, which has claimed it. -/
structure Gets (g₀ g : Graph) (c : SymbolClass) (id : TypeId) (s : Symbol) : Prop where
  inside : id < g.nextId
  record : g.get id = (g₀.recordFor c s id).claimedBy s.index

/-- A graph is what symbols leave of a fresh one: each has got its record, and the types that
have a place in the output are as before. -/
structure Resolved (g₀ : Graph) (symbols : List Symbol) (g : Graph) : Prop where
  nextId_le : g₀.nextId ≤ g.nextId
  allTypes_eq : g.allTypes = g₀.allTypes
  indexType_eq : g.indexType = g₀.indexType
  unclaimed_eq : ∀ id < g₀.nextId, (g.get id).unclaimed = (g₀.get id).unclaimed
  plain_eq : ∀ id < g₀.nextId, (g₀.get id).isSymbol = false → g.get id = g₀.get id
  gets : ∀ c, List.Forall₂ (g₀.Gets g c) (g.taken c).toList (eligible c symbols)

variable {g₀ g : Graph} {symbols : List Symbol}

/-! ### What a symbol does -/

/-- A record that a symbol can take does not refer to itself, so it is copied as it is. -/
theorem Resolved.copyAt_eq (h : Resolved g₀ symbols g) (fresh : g₀.Fresh) {id : TypeId}
    (inside : id < g₀.nextId) (symbol : (g₀.get id).isSymbol = true) (newId : TypeId) :
  g.copyAt id newId = (g.get id).unclaimed
  := by
  have same := TypeRecord.field_of_unclaimed TypeRecord.reference (fun _ => rfl)
    (h.unclaimed_eq id inside)
  rw [copyAt, if_neg]
  intro itself
  apply fresh.not_mem_referents symbol id
  exact TypeRecord.mem_referents.mpr (.inl (same.symm.trans itself))

/-- A symbol claims the record for it, which is new or has not been claimed. -/
theorem Resolved.resolveSymbol_eq_claim (h : Resolved g₀ symbols g) (fresh : g₀.Fresh)
    (s : Symbol) (c : SymbolClass) :
  ∃ base id, (g.resolveSymbol (NameIndex.ofGraph g₀) s c).1 = base.claim c id s.index
    ∧ g.Extends base ∧ base.allTypes = g.allTypes ∧ base.indexType = g.indexType
    ∧ id < base.nextId ∧ (base.get id).unclaimed = (g₀.recordFor c s id).unclaimed
    ∧ (g.nextId ≤ id ∨ (g.get id).flags.claimed = false ∧ (g.get id).isSymbol = true)
  := by
  have added (r : TypeRecord) : g.nextId < (g.pushDetached r).nextId
      ∧ (g.pushDetached r).get g.nextId = r := by
    rw [nextId_pushDetached, get_pushDetached, if_pos rfl]
    exact ⟨Nat.lt_succ_self _, rfl⟩
  rw [resolveSymbol, find?_ofGraph_eq_firstNamed?]
  cases found : g₀.firstNamed? c s.baseName with
  | none =>
    have wanted : g₀.recordFor c s g.nextId = placeholder s c g.nextId := by
      rw [recordFor, found]
    obtain ⟨inside, record⟩ := added (placeholder s c g.nextId)
    exact ⟨_, g.nextId, rfl, extends_pushDetached g _, rfl, rfl, inside, by rw [record, wanted],
      .inl (Nat.le_refl _)⟩
  | some first =>
    have wanted (id : TypeId) : g₀.recordFor c s id = g₀.get first := by rw [recordFor, found]
    have inside := fresh.inside first (of_firstNamed? found).1
    have symbol := isSymbol_of_firstNamed? found
    have same := h.unclaimed_eq first inside
    by_cases claimed : (g.get first).flags.claimed = true
    · simp only [if_pos claimed]
      obtain ⟨inside', record⟩ := added (g.copyAt first g.nextId)
      refine ⟨_, g.nextId, rfl, extends_pushDetached g _, rfl, rfl, inside', ?_,
        .inl (Nat.le_refl _)⟩
      change ((g.pushDetached (g.copyAt first g.nextId)).get g.nextId).unclaimed = _
      rw [record, h.copyAt_eq fresh inside symbol, wanted]
      exact same
    · simp only [if_neg claimed]
      refine ⟨g, first, rfl, .refl g, rfl, rfl, Nat.lt_of_lt_of_le inside h.nextId_le, ?_, .inr ?_⟩
      · rw [same, wanted]
      · rw [TypeRecord.field_of_unclaimed TypeRecord.isSymbol (fun _ => rfl) same]
        exact ⟨Bool.not_eq_true _ ▸ claimed, symbol⟩

theorem Gets.claim {c c' : SymbolClass} {id other : TypeId} {s : Symbol} {slot : Nat}
    (h : g₀.Gets g c' other s) {base : Graph} (extension : g.Extends base) (ne : other ≠ id) :
  g₀.Gets (base.claim c id slot) c' other s
  := by
  constructor
  · rw [nextId_claim]
    exact Nat.lt_of_lt_of_le h.inside extension.nextId_le
  · rw [get_claim_of_ne base c slot ne, extension.get_eq other h.inside]
    exact h.record

/-- When a symbol claims its record, the others keep theirs. -/
theorem Resolved.claim (h : Resolved g₀ symbols g) {base : Graph} (extension : g.Extends base)
    (allTypes : base.allTypes = g.allTypes) (indexType : base.indexType = g.indexType)
    {c : SymbolClass} {id : TypeId} {s : Symbol} (eligible_s : s.symbolClass? = some c)
    (inside : id < base.nextId) (record : (base.get id).unclaimed = (g₀.recordFor c s id).unclaimed)
    (unclaimed : g.nextId ≤ id ∨ (g.get id).flags.claimed = false ∧ (g.get id).isSymbol = true) :
  Resolved g₀ (symbols ++ [s]) (base.claim c id s.index)
  := by
  have old (other : TypeId) (hother : other < g.nextId) (ne : other ≠ id) :
      (base.claim c id s.index).get other = g.get other := by
    rw [get_claim_of_ne base c s.index ne, extension.get_eq other hother]
  have new : (base.claim c id s.index).get id = (base.get id).claimedBy s.index :=
    get_claim_self base c s.index inside
  constructor
  · rw [nextId_claim]
    exact Nat.le_trans h.nextId_le extension.nextId_le
  · rw [← h.allTypes_eq, ← allTypes]
    cases c <;> rfl
  · rw [← h.indexType_eq, ← indexType]
    cases c <;> rfl
  · intro other hother
    have present := Nat.lt_of_lt_of_le hother h.nextId_le
    rw [← h.unclaimed_eq other hother]
    by_cases same : other = id
    · subst same
      rw [new, extension.get_eq other present]
      rfl
    · rw [old other present same]
  · intro other hother plain
    have present := Nat.lt_of_lt_of_le hother h.nextId_le
    rw [← h.plain_eq other hother plain]
    apply old other present
    rintro rfl
    rcases unclaimed with missing | ⟨-, symbol⟩
    · exact Nat.not_le_of_lt present missing
    · rw [h.plain_eq other hother plain, plain] at symbol
      cases symbol
  · intro c'
    have kept : List.Forall₂ (g₀.Gets (base.claim c id s.index) c') (g.taken c').toList
        (eligible c' symbols) := by
      apply (h.gets c').imp
      intro other s' got
      apply got.claim extension
      rintro rfl
      rcases unclaimed with missing | ⟨free, -⟩
      · exact Nat.not_le_of_lt got.inside missing
      · rw [got.record] at free
        cases free
    apply forall₂_taken_claim extension eligible_s kept
    rintro rfl
    constructor
    · rw [nextId_claim]
      exact inside
    · rw [new]
      exact TypeRecord.field_of_unclaimed (·.claimedBy s.index) (fun _ => rfl) record

/-! ### Runs -/

theorem Resolved.skip (h : Resolved g₀ symbols g) {s : Symbol}
    (ineligible : s.symbolClass? = none) :
  Resolved g₀ (symbols ++ [s]) g
  := by
  refine { h with gets := fun c => ?_ }
  rw [eligible_append_of_ineligible c symbols ineligible]
  exact h.gets c

/-- One more symbol gets its record. -/
theorem Resolved.step {r : Resolution} (h : Resolved g₀ symbols r.graph) (fresh : g₀.Fresh)
    (s : Symbol) :
  Resolved g₀ (symbols ++ [s]) (r.step (NameIndex.ofGraph g₀) s).graph
  := by
  cases hclass : s.symbolClass? with
  | none =>
    rw [Resolution.step_of_none _ r hclass]
    exact h.skip hclass
  | some c =>
    obtain ⟨base, id, claimed, extension, allTypes, indexType, inside, record, unclaimed⟩ :=
      h.resolveSymbol_eq_claim fresh s c
    rw [Resolution.step_of_some _ r hclass]
    simp only [claimed]
    exact h.claim extension allTypes indexType hclass inside record unclaimed

theorem Resolved.foldl_step (more : List Symbol) {r : Resolution}
    (h : Resolved g₀ symbols r.graph) (fresh : g₀.Fresh) :
  Resolved g₀ (symbols ++ more) (more.foldl (Resolution.step (NameIndex.ofGraph g₀)) r).graph
  := by
  induction more generalizing symbols r with
  | nil =>
    rw [List.append_nil]
    exact h
  | cons s more ih =>
    have all := ih (h.step fresh s)
    rwa [List.append_assoc] at all

/-- Every symbol of a table that has a class gets the record for it. -/
theorem resolved_resolve (fresh : g₀.Fresh) (symbols : List Symbol) :
  Resolved g₀ symbols (CompactTypes.resolve g₀ symbols).graph
  := by
  have start : Resolved g₀ [] g₀ := by
    refine ⟨Nat.le_refl _, rfl, rfl, fun _ _ => rfl, fun _ _ _ => rfl, fun c => ?_⟩
    rw [fresh.untaken c]
    exact .nil
  exact Resolved.foldl_step (r := ⟨g₀, #[]⟩) symbols start fresh

/-- The types that have a place in the output are the same as before. -/
theorem Resolved.emittedTypes_eq (h : Resolved g₀ symbols g) (fresh : g₀.Fresh) :
  g.emittedTypes = g₀.emittedTypes
  := emittedTypes_congr h.allTypes_eq fun id mem =>
    TypeRecord.field_of_unclaimed TypeRecord.isSymbol (fun _ => rfl)
      (h.unclaimed_eq id (fresh.inside id mem))

end Graph

end CompactTypes

import CompactTypes.Proofs.Resolution.Records

/-!
# Numbered graphs

`Graph.withSymbols` is a graph in which the symbols of a table have got their records and the
types have got their numbers.  If the graph was complete, then it is `Numbered`: each type that
has a place in the output has got the number of this place, and nothing else has changed about it;
each symbol has got the record for it.
-/

namespace CompactTypes.Graph

/-- The graph after the symbols of a table have got their records and the types their numbers. -/
def withSymbols (g : Graph) (symbols : List Symbol) : Graph :=
  (resolve g symbols).graph.assignIndices

/-- The number of a type by its place in the output, counted from one. -/
def placeNumber (g : Graph) (id : TypeId) : UInt32 :=
  UInt32.ofNat (g.emittedTypes.idxOf id + 1)

/-- A graph is what symbols and numbers make of a complete one. -/
structure Numbered (g₀ : Graph) (symbols : List Symbol) (g : Graph) : Prop where
  allTypes_eq : g.allTypes = g₀.allTypes
  emittedTypes_eq : g.emittedTypes = g₀.emittedTypes
  indexType_eq : g.indexType = g₀.indexType
  emitted_eq : ∀ id ∈ g₀.emittedTypes, g.get id = (g₀.get id).withIndex (g₀.placeNumber id)
  symbol_eq : ∀ id ∈ g₀.allTypes, id ∉ g₀.emittedTypes →
    (g.get id).unclaimed = (g₀.get id).unclaimed
  gets : ∀ c, List.Forall₂ (fun id s => g.get id = (g₀.recordFor c s id).claimedBy s.index)
    (g.taken c).toList (eligible c symbols)

variable {g₀ g : Graph} {symbols : List Symbol}

theorem Resolved.numbered (h : Resolved g₀ symbols g) (complete : g₀.Complete) :
  Numbered g₀ symbols g.assignIndices
  := by
  have emitted := h.emittedTypes_eq complete.toFresh
  have distinct : g.emittedTypes.Nodup := emitted ▸ complete.nodup_emittedTypes
  have within (id : TypeId) (mem : id ∈ g₀.allTypes) : id < g₀.nextId :=
    complete.inside id mem
  have inside (id : TypeId) (mem : id ∈ g.allTypes) : id < g.nextId :=
    Nat.lt_of_lt_of_le (within id (h.allTypes_eq ▸ mem)) h.nextId_le
  have get_eq := get_assignIndices distinct inside
  constructor
  · exact (allTypes_numberFrom _ _ g).trans h.allTypes_eq
  · exact (emittedTypes_assignIndices distinct inside).trans emitted
  · exact (indexType_numberFrom _ _ g).trans h.indexType_eq
  · intro id mem
    have plain := (g₀.mem_emittedTypes id).mp mem
    rw [get_eq, if_pos (emitted ▸ mem), h.plain_eq id (within id plain.1) plain.2, emitted]
    rfl
  · intro id mem outside
    rw [get_eq, if_neg (emitted ▸ outside)]
    exact h.unclaimed_eq id (within id mem)
  · intro c
    have same : (g.assignIndices.taken c) = g.taken c := taken_numberFrom _ _ g c
    rw [same]
    apply (h.gets c).imp
    rintro id s ⟨-, record⟩
    -- The record of a symbol has no place in the output, so it gets no number.
    have outside : id ∉ g.emittedTypes := by
      apply not_mem_emittedTypes
      rw [record]
      exact isSymbol_recordFor g₀ c s id
    rw [get_eq, if_neg outside, record]

theorem Complete.numbered (complete : g₀.Complete) (symbols : List Symbol) :
  Numbered g₀ symbols (g₀.withSymbols symbols)
  := (resolved_resolve complete.toFresh symbols).numbered complete

/-! ### Types that have a place in the output -/

theorem Numbered.index_eq (h : Numbered g₀ symbols g) {id : TypeId} (mem : id ∈ g₀.emittedTypes) :
  (g.get id).index = g₀.placeNumber id
  := by
  rw [h.emitted_eq id mem]
  rfl

theorem Numbered.index_of_place (h : Numbered g₀ symbols g) (complete : g₀.Complete)
    {place : Nat} {id : TypeId} (found : g.emittedTypes[place]? = some id) :
  (g.get id).index = UInt32.ofNat (place + 1)
  := by
  rw [h.emittedTypes_eq] at found
  obtain ⟨inside, rfl⟩ := List.getElem?_eq_some_iff.mp found
  rw [h.index_eq (List.getElem_mem inside), placeNumber,
    complete.nodup_emittedTypes.idxOf_getElem]

theorem Numbered.kind_ne_unknown (h : Numbered g₀ symbols g) (complete : g₀.Complete) {id : TypeId}
    (mem : id ∈ g₀.emittedTypes) :
  (g.get id).kind ≠ .unknown
  := by
  obtain ⟨listed, plain⟩ := (g₀.mem_emittedTypes id).mp mem
  have regular := complete.regular id (complete.inside id listed)
  rw [TypeRecord.Regular, TypeRecord.symbolClass?_of_isSymbol_eq_false plain] at regular
  rw [h.emitted_eq id mem]
  exact regular

theorem Numbered.refers (h : Numbered g₀ symbols g) (complete : g₀.Complete) {id : TypeId}
    (mem : id ∈ g₀.emittedTypes) (needs : (g.get id).kind.needsReference) :
  ∃ target, (g.get id).reference = some target
  := by
  have inside := complete.inside id ((g₀.mem_emittedTypes id).mp mem).1
  rw [h.emitted_eq id mem] at needs ⊢
  exact complete.refers id inside (.inl needs)

theorem Numbered.referents_eq (h : Numbered g₀ symbols g) {id : TypeId} (mem : id ∈ g₀.allTypes) :
  (g.get id).referents = (g₀.get id).referents
  := by
  by_cases emitted : id ∈ g₀.emittedTypes
  · rw [h.emitted_eq id emitted]
    rfl
  · exact TypeRecord.field_of_unclaimed TypeRecord.referents (fun _ => rfl)
      (h.symbol_eq id mem emitted)

/-- The type of array indices has a place in the output. -/
theorem Numbered.exists_indexType (h : Numbered g₀ symbols g) (complete : g₀.Complete) :
  ∃ id ∈ g₀.emittedTypes, g.indexType = some id ∧ g.indexTypeNumber = g₀.placeNumber id
  := by
  obtain ⟨id, mem, indexType⟩ := complete.indexType
  have same := h.indexType_eq.trans indexType
  refine ⟨id, mem, same, ?_⟩
  rw [indexTypeNumber, same]
  exact h.index_eq mem

/-! ### Records of symbols -/

/-- A record of no kind refers to itself, as that of a symbol without type information does. -/
def IsPlaceholder (g : Graph) (id : TypeId) : Prop :=
  (g.get id).kind = .unknown ∧ (g.get id).reference = some id

instance (g : Graph) (id : TypeId) : Decidable (g.IsPlaceholder id) :=
  inferInstanceAs (Decidable (_ ∧ _))

theorem Numbered.exists_symbol (h : Numbered g₀ symbols g) {c : SymbolClass} {id : TypeId}
    (mem : id ∈ g.taken c) :
  ∃ s, g.get id = (g₀.recordFor c s id).claimedBy s.index
  := exists_of_forall₂ (h.gets c) (Array.mem_toList_iff.mpr mem)

/-- The record of a symbol is a placeholder without a number, or that of a function or variable,
which refers to a type that has a place in the output. -/
theorem Numbered.taken_cases (h : Numbered g₀ symbols g) (complete : g₀.Complete) {c : SymbolClass}
    {id : TypeId} (mem : id ∈ g.taken c) :
  (g.IsPlaceholder id ∧ (g.get id).index = 0)
    ∨ (¬g.IsPlaceholder id ∧ ∃ first ∈ g₀.allTypes, (g₀.get first).symbolClass? = some c
      ∧ (g.get id).unclaimed = (g₀.get first).unclaimed)
  := by
  obtain ⟨s, record⟩ := h.exists_symbol mem
  rw [recordFor] at record
  split at record
  next first found =>
    obtain ⟨listed, hclass, -⟩ := of_firstNamed? found
    refine .inr ⟨?_, first, listed, hclass, by rw [record]; rfl⟩
    rintro ⟨-, itself⟩
    rw [record] at itself
    have emitted := complete.referent first id (TypeRecord.mem_referents.mpr (.inl itself))
    rw [← h.emittedTypes_eq] at emitted
    apply not_mem_emittedTypes ?_ emitted
    rw [record]
    exact isSymbol_of_firstNamed? found
  next => exact .inl (by rw [IsPlaceholder, record]; exact ⟨⟨rfl, rfl⟩, rfl⟩)

/-- Every symbol has a record that refers to something. -/
theorem Numbered.taken_refers (h : Numbered g₀ symbols g) (complete : g₀.Complete)
    {c : SymbolClass} {id : TypeId} (mem : id ∈ g.taken c) :
  ∃ target, (g.get id).reference = some target
  := by
  rcases h.taken_cases complete mem with ⟨⟨-, itself⟩, -⟩ | ⟨-, first, listed, hclass, same⟩
  · exact ⟨id, itself⟩
  · have symbol : (g₀.get first).isSymbol := by
      rw [TypeRecord.isSymbol_eq_isSome, hclass]
      rfl
    obtain ⟨target, reference⟩ := complete.refers first (complete.inside first listed) (.inr symbol)
    rw [← TypeRecord.field_of_unclaimed TypeRecord.reference (fun _ => rfl) same] at reference
    exact ⟨target, reference⟩

end CompactTypes.Graph

import CompactTypes.Proofs.Graph.NameIndex
import CompactTypes.Proofs.Resolution.Records

/-!
# Tables one after the other

A symbol adds records that are in no list, and changes of the others only which symbol has taken
them: the graph before `Underlies` the one after.  Neither the types nor their classes and names
change, so the next table meets the same name index, and resolving two tables one after the other
is resolving both at once, `resolve_append`.
-/

namespace CompactTypes

namespace Graph

/-- The records of a graph are those of another one up to the symbols that have taken them, and
the types are the same. -/
structure Underlies (g g' : Graph) : Prop where
  nextId_le : g.nextId ≤ g'.nextId
  allTypes_eq : g'.allTypes = g.allTypes
  indexType_eq : g'.indexType = g.indexType
  unclaimed_eq : ∀ id < g.nextId, (g'.get id).unclaimed = (g.get id).unclaimed

variable {g g' g'' : Graph}

theorem Underlies.refl (g : Graph) :
  g.Underlies g
  := ⟨Nat.le_refl _, rfl, rfl, fun _ _ => rfl⟩

theorem Underlies.trans (h : g.Underlies g') (h' : g'.Underlies g'') :
  g.Underlies g''
  := by
  constructor
  · exact Nat.le_trans h.nextId_le h'.nextId_le
  · exact h'.allTypes_eq.trans h.allTypes_eq
  · exact h'.indexType_eq.trans h.indexType_eq
  · intro id inside
    rw [h'.unclaimed_eq id (Nat.lt_of_lt_of_le inside h.nextId_le), h.unclaimed_eq id inside]

/-! ### What a symbol does -/

theorem underlies_pushDetached (g : Graph) (r : TypeRecord) :
  g.Underlies (g.pushDetached r)
  := by
  have extension := extends_pushDetached g r
  exact ⟨extension.nextId_le, rfl, rfl, fun id inside => by rw [extension.get_eq id inside]⟩

theorem underlies_claim (g : Graph) (c : SymbolClass) (id : TypeId) (slot : Nat) :
  g.Underlies (g.claim c id slot)
  := by
  refine ⟨Nat.le_of_eq (nextId_claim g c id slot).symm, ?_, ?_, ?_⟩
  · cases c <;> rfl
  · cases c <;> rfl
  · intro other _
    rw [get_claim]
    exact field_get_update TypeRecord.unclaimed g id (·.claimedBy slot) (fun _ => rfl) other

theorem underlies_resolveSymbol (g : Graph) (index : NameIndex) (s : Symbol) (c : SymbolClass) :
  g.Underlies (g.resolveSymbol index s c).1
  := by
  rw [resolveSymbol]
  split
  next => exact (underlies_pushDetached g _).trans (underlies_claim _ c _ _)
  next =>
    split
    next => exact (underlies_pushDetached g _).trans (underlies_claim _ c _ _)
    next => exact underlies_claim g c _ _

/-! ### What a table does -/

theorem underlies_step (index : NameIndex) (r : Resolution) (s : Symbol) :
  r.graph.Underlies (r.step index s).graph
  := by
  cases hclass : s.symbolClass? with
  | none =>
    rw [Resolution.step_of_none index r hclass]
    exact .refl r.graph
  | some c =>
    rw [Resolution.step_of_some index r hclass]
    exact underlies_resolveSymbol r.graph index s c

theorem underlies_foldl_step (index : NameIndex) (symbols : List Symbol) (r : Resolution) :
  r.graph.Underlies (symbols.foldl (Resolution.step index) r).graph
  := by
  induction symbols generalizing r with
  | nil => exact .refl r.graph
  | cons s symbols ih => exact (underlies_step index r s).trans (ih (r.step index s))

theorem underlies_resolve (g : Graph) (symbols : List Symbol) :
  g.Underlies (resolve g symbols).graph
  := underlies_foldl_step (NameIndex.ofGraph g) symbols ⟨g, #[]⟩

/-- The same records can be found in both graphs. -/
theorem Underlies.ofGraph_eq (h : g.Underlies g') (inside : ∀ id ∈ g.allTypes, id < g.nextId) :
  NameIndex.ofGraph g' = NameIndex.ofGraph g
  := NameIndex.ofGraph_congr h.allTypes_eq fun id mem =>
    TypeRecord.field_of_unclaimed NameIndex.key? (fun _ => rfl) (h.unclaimed_eq id (inside id mem))

end Graph

/-! ### Two tables -/

namespace Resolution

/-- What a symbol does to the graph and how it gets its record does not depend on the outcomes
before it. -/
theorem step_start (index : NameIndex) (r : Resolution) (s : Symbol) :
  r.step index s = ⟨(step index ⟨r.graph, #[]⟩ s).graph,
    r.outcomes ++ (step index ⟨r.graph, #[]⟩ s).outcomes⟩
  := by
  cases hclass : s.symbolClass? with
  | none => simp [step_of_none index _ hclass]
  | some c => simp [step_of_some index _ hclass]

theorem foldl_step_start (index : NameIndex) (symbols : List Symbol) (r : Resolution) :
  symbols.foldl (step index) r = ⟨(symbols.foldl (step index) ⟨r.graph, #[]⟩).graph,
    r.outcomes ++ (symbols.foldl (step index) ⟨r.graph, #[]⟩).outcomes⟩
  := by
  induction symbols generalizing r with
  | nil => simp
  | cons s symbols ih =>
    have first := step_start index r s
    rw [List.foldl_cons, List.foldl_cons, ih (r.step index s), ih (step index ⟨r.graph, #[]⟩ s),
      first, Array.append_assoc]

theorem count_append (graph : Graph) (outcomes outcomes' : Array (Symbol × Outcome))
    (outcome : Outcome) :
  count ⟨graph, outcomes ++ outcomes'⟩ outcome
    = count ⟨graph, outcomes⟩ outcome + count ⟨graph, outcomes'⟩ outcome
  := by
  rw [count, Array.toList_append, List.countP_append]
  rfl

end Resolution

/-- Resolving a table and then another one is resolving them at once: the graph is the same, and
the outcomes follow each other. -/
theorem resolve_append_eq (g : Graph) (inside : ∀ id ∈ g.allTypes, id < g.nextId)
    (symbols more : List Symbol) :
  resolve g (symbols ++ more) = ⟨(resolve (resolve g symbols).graph more).graph,
    (resolve g symbols).outcomes ++ (resolve (resolve g symbols).graph more).outcomes⟩
  := by
  have same := (g.underlies_resolve symbols).ofGraph_eq inside
  rw [resolve.eq_def (resolve g symbols).graph, same, resolve, List.foldl_append]
  exact Resolution.foldl_step_start (NameIndex.ofGraph g) more (resolve g symbols)

theorem statistics_append (g : Graph) (inside : ∀ id ∈ g.allTypes, id < g.nextId)
    (symbols more : List Symbol) (outcome : Outcome) :
  (resolve g (symbols ++ more)).count outcome
    = (resolve g symbols).count outcome
      + (resolve (resolve g symbols).graph more).count outcome
  := by
  rw [resolve_append_eq g inside]
  exact Resolution.count_append _ _ _ outcome

/-- Resolving two tables one after the other leaves the graph that resolving both at once leaves,
and each outcome is as frequent in the one call as in the two calls together. -/
theorem resolve_append (g : Graph) (inside : ∀ id ∈ g.allTypes, id < g.nextId)
    (symbols more : List Symbol) :
  let first := resolve g symbols
  let second := resolve first.graph more
  let both := resolve g (symbols ++ more)
  both.graph = second.graph
    ∧ both.statistics = ⟨first.statistics.matched + second.statistics.matched,
      first.statistics.duplicated + second.statistics.duplicated,
      first.statistics.unknown + second.statistics.unknown⟩
  := by
  have count := statistics_append g inside symbols more
  refine ⟨?_, ?_⟩
  · rw [resolve_append_eq g inside]
  · rw [Resolution.statistics, count, count, count]
    rfl

/-- The second table asks again for the function that the first one has taken. -/
theorem resolve_append_function :
  let g := Graph.empty.push
    { TypeRecord.ofKind .function (some "f") with flags := .ofClass .function }
  let symbols : List Symbol := [⟨3, "f", .function, .defined⟩]
  let more : List Symbol :=
    [⟨4, "v", .object, .defined⟩, ⟨5, "f.1", .function, .defined⟩, ⟨6, "f", .object, .undefined⟩]
  (resolve g (symbols ++ more)).graph = (resolve (resolve g symbols).graph more).graph
    ∧ (resolve g (symbols ++ more)).statistics = ⟨1, 1, 1⟩
  := ⟨(resolve_append _ (by decide) _ _).left, by decide +kernel⟩

/-- Resolving any number of tables one after the other is resolving them all at once. -/
theorem resolveAll_eq_resolve_flatten (g : Graph) (inside : ∀ id ∈ g.allTypes, id < g.nextId)
    (tables : List (List Symbol)) :
  g.resolveAll tables = (resolve g tables.flatten).graph
  := by
  induction tables generalizing g with
  | nil => rfl
  | cons table tables ih =>
    have kept := g.underlies_resolve table
    have still (id : TypeId) (mem : id ∈ (resolve g table).graph.allTypes) :
        id < (resolve g table).graph.nextId :=
      Nat.lt_of_lt_of_le (inside id (kept.allTypes_eq ▸ mem)) kept.nextId_le
    rw [List.flatten_cons, resolve_append_eq g inside]
    exact ih (resolve g table).graph still

end CompactTypes

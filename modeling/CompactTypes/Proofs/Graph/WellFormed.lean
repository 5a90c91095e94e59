import CompactTypes.Proofs.Graph.Fresh

/-!
# Well-formed graphs

A graph is `WellFormed` if all that it lists and all that its records refer to are records that it
has, and its types are listed in the order in which they were added.  A graph `GrowsTo` another one
if that one is well-formed and the records that were there are still of the same kinds and names.
Every change of a graph lets it grow, as long as it refers to records that are there.
-/

namespace CompactTypes.Graph

/-- What a graph lists and what its records refer to are its records, and its types are listed in
the order of their positions. -/
structure WellFormed (g : Graph) : Prop where
  allTypes_lt : ∀ id ∈ g.allTypes, id < g.nextId
  functions_lt : ∀ id ∈ g.functions, id < g.nextId
  objects_lt : ∀ id ∈ g.objects, id < g.nextId
  indexType_lt : ∀ id, g.indexType = some id → id < g.nextId
  referent_lt : ∀ id, ∀ target ∈ (g.get id).referents, target < g.nextId
  increasing : g.allTypes.toList.Pairwise (· < ·)

/-- The records of a graph are still there in another one, with their kinds and names. -/
structure Keeps (g g' : Graph) : Prop where
  nextId_le : g.nextId ≤ g'.nextId
  kind_eq : ∀ id < g.nextId, (g'.get id).kind = (g.get id).kind
  name_eq : ∀ id < g.nextId, (g'.get id).name = (g.get id).name

/-- Another graph is well-formed and still has the records of a graph. -/
structure GrowsTo (g g' : Graph) : Prop extends WellFormed g', Keeps g g'

variable {g₀ g₁ g : Graph}

theorem wellFormed_empty :
  Graph.empty.WellFormed
  := ⟨nofun, nofun, nofun, nofun, nofun, .nil⟩

theorem WellFormed.growsTo (h : g.WellFormed) :
  g.GrowsTo g
  := ⟨h, Nat.le_refl _, fun _ _ => rfl, fun _ _ => rfl⟩

theorem Keeps.trans (h : g₀.Keeps g₁) (h' : g₁.Keeps g) :
  g₀.Keeps g
  := by
  refine ⟨Nat.le_trans h.nextId_le h'.nextId_le, fun id inside => ?_, fun id inside => ?_⟩
  · rw [h'.kind_eq id (Nat.lt_of_lt_of_le inside h.nextId_le), h.kind_eq id inside]
  · rw [h'.name_eq id (Nat.lt_of_lt_of_le inside h.nextId_le), h.name_eq id inside]

theorem GrowsTo.trans (h : g₀.GrowsTo g₁) (h' : g₁.GrowsTo g) :
  g₀.GrowsTo g
  := ⟨h'.toWellFormed, h.toKeeps.trans h'.toKeeps⟩

/-! ### New records -/

/-- A new record may refer to itself. -/
theorem GrowsTo.pushDetached (h : g₀.GrowsTo g) {r : TypeRecord}
    (referent : ∀ target ∈ r.referents, target ≤ g.nextId) :
  g₀.GrowsTo (g.pushDetached r)
  := by
  have more {id : TypeId} (inside : id < g.nextId) : id < (g.pushDetached r).nextId := by
    rw [nextId_pushDetached]
    exact Nat.lt_succ_of_lt inside
  have old (id : TypeId) (inside : id < g₀.nextId) : (g.pushDetached r).get id = g.get id := by
    rw [get_pushDetached, if_neg (Nat.ne_of_lt (Nat.lt_of_lt_of_le inside h.nextId_le))]
  refine ⟨⟨?_, ?_, ?_, ?_, ?_, h.increasing⟩, ?_, ?_, ?_⟩
  · exact fun id mem => more (h.allTypes_lt id mem)
  · exact fun id mem => more (h.functions_lt id mem)
  · exact fun id mem => more (h.objects_lt id mem)
  · exact fun id found => more (h.indexType_lt id found)
  · intro id target mem
    rw [get_pushDetached] at mem
    split at mem
    · rw [nextId_pushDetached]
      exact Nat.lt_succ_of_le (referent target mem)
    · exact more (h.referent_lt id target mem)
  · rw [nextId_pushDetached]
    exact Nat.le_succ_of_le h.nextId_le
  · intro id inside
    rw [old id inside, h.kind_eq id inside]
  · intro id inside
    rw [old id inside, h.name_eq id inside]

theorem GrowsTo.push (h : g₀.GrowsTo g) {r : TypeRecord}
    (referent : ∀ target ∈ r.referents, target ≤ g.nextId) :
  g₀.GrowsTo (g.push r)
  := by
  have pushed := h.pushDetached referent
  refine { pushed with allTypes_lt := fun id mem => ?_, increasing := ?_ }
  · rcases Array.mem_push.mp mem with old | rfl
    · exact pushed.allTypes_lt id old
    · rw [nextId_push]
      exact Nat.lt_succ_self _
  · have all : (g.push r).allTypes.toList = g.allTypes.toList ++ [g.nextId] := Array.toList_push
    rw [all, List.pairwise_append]
    refine ⟨h.increasing, List.pairwise_singleton _ _, fun id mem last new => ?_⟩
    rw [List.mem_singleton.mp new]
    exact h.allTypes_lt id (Array.mem_toList_iff.mp mem)

/-- A copy refers to what the record refers to, and to itself if the record refers to itself. -/
theorem GrowsTo.duplicate (h : g₀.GrowsTo g) (id : TypeId) :
  g₀.GrowsTo (g.duplicate id)
  := by
  have old (target : TypeId) (mem : target ∈ (g.get id).unclaimed.referents) : target ≤ g.nextId :=
    Nat.le_of_lt (h.referent_lt id target mem)
  apply h.pushDetached
  intro target mem
  simp only [copyAt] at mem
  split at mem
  · rcases TypeRecord.referent_withReference mem with copied | rfl
    · exact old target copied
    · exact Nat.le_refl _
  · exact old target mem

/-! ### Changes -/

theorem GrowsTo.update (h : g₀.GrowsTo g) (id : TypeId) (f : TypeRecord → TypeRecord)
    (kind : ∀ r, (f r).kind = r.kind) (name : ∀ r, (f r).name = r.name)
    (referent : ∀ r, ∀ target ∈ (f r).referents, target ∈ r.referents ∨ target < g.nextId) :
  g₀.GrowsTo (g.update id f)
  := by
  have same : (g.update id f).nextId = g.nextId := nextId_update g id f
  refine ⟨⟨?_, ?_, ?_, ?_, ?_, h.increasing⟩, ?_, ?_, ?_⟩
  · exact same ▸ h.allTypes_lt
  · exact same ▸ h.functions_lt
  · exact same ▸ h.objects_lt
  · exact same ▸ h.indexType_lt
  · intro other target mem
    rw [same]
    rw [get_update] at mem
    split at mem
    · exact (referent _ target mem).elim (h.referent_lt other target) fun inside => inside
    · exact h.referent_lt other target mem
  · exact same ▸ h.nextId_le
  · intro other inside
    rw [field_get_update TypeRecord.kind g id f kind, h.kind_eq other inside]
  · intro other inside
    rw [field_get_update TypeRecord.name g id f name, h.name_eq other inside]

/-- A change that keeps what a record refers to. -/
theorem GrowsTo.update_same (h : g₀.GrowsTo g) (id : TypeId) (f : TypeRecord → TypeRecord)
    (kind : ∀ r, (f r).kind = r.kind) (name : ∀ r, (f r).name = r.name)
    (referents : ∀ r, (f r).referents = r.referents) :
  g₀.GrowsTo (g.update id f)
  := h.update id f kind name fun r _ mem => .inl (referents r ▸ mem)

theorem GrowsTo.withIndexType (h : g₀.GrowsTo g) {id : TypeId} (inside : id < g.nextId) :
  g₀.GrowsTo (g.withIndexType id)
  := by
  refine { h with indexType_lt := fun other found => ?_ }
  cases found
  exact inside

theorem GrowsTo.addTaken (h : g₀.GrowsTo g) (c : SymbolClass) {id : TypeId}
    (inside : id < g.nextId) :
  g₀.GrowsTo (g.addTaken c id)
  := by
  cases c with
  | function =>
    refine { h with functions_lt := fun other mem => ?_ }
    rcases Array.mem_push.mp mem with old | rfl
    · exact h.functions_lt other old
    · exact inside
  | object =>
    refine { h with objects_lt := fun other mem => ?_ }
    rcases Array.mem_push.mp mem with old | rfl
    · exact h.objects_lt other old
    · exact inside

theorem GrowsTo.numberFrom (h : g₀.GrowsTo g) (next : UInt32) (ids : List TypeId) :
  g₀.GrowsTo (g.numberFrom next ids)
  := by
  induction ids generalizing next g with
  | nil => exact h
  | cons id ids ih =>
    apply ih
    exact h.update_same id _ (fun _ => rfl) (fun _ => rfl) fun _ => rfl

theorem GrowsTo.assignIndices (h : g₀.GrowsTo g) :
  g₀.GrowsTo g.assignIndices
  := h.numberFrom 1 g.emittedTypes

end CompactTypes.Graph

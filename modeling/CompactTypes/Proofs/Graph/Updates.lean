import CompactTypes.Graph.Basic

/-!
# Changing a record

`Graph.update` changes the record at its position and no other, and nothing at all if there is
no record.  A property of records that the change keeps is a property of all records as before.
-/

namespace CompactTypes.Graph

theorem get_of_nextId_le (g : Graph) {id : TypeId} (h : g.nextId ≤ id) :
  g.get id = default
  := by
  rw [get, Array.getD_eq_getD_getElem?, Array.getElem?_eq_none h]
  rfl

/-- A position with anything that an empty one lacks is that of a record. -/
theorem lt_nextId_of_field {α : Type} (field : TypeRecord → α) {g : Graph} {id : TypeId}
    (h : field (g.get id) ≠ field default) :
  id < g.nextId
  := by
  apply Classical.byContradiction
  intro outside
  exact h (congrArg field (g.get_of_nextId_le (Nat.le_of_not_lt outside)))

theorem get_update (g : Graph) (id other : TypeId) (f : TypeRecord → TypeRecord) :
  (g.update id f).get other
    = if other = id ∧ other < g.nextId then f (g.get other) else g.get other
  := by
  split
  next changed =>
    obtain ⟨rfl, inside⟩ := changed
    exact g.get_update_self f inside
  next kept =>
    by_cases same : other = id
    · have outside : g.nextId ≤ other := Nat.le_of_not_lt fun inside => kept ⟨same, inside⟩
      rw [get_of_nextId_le _ (by rw [nextId_update]; exact outside), get_of_nextId_le g outside]
    · exact g.get_update_of_ne f same

/-- A change that does not change a record does not change the graph. -/
theorem update_eq_self {g : Graph} {id : TypeId} {f : TypeRecord → TypeRecord}
    (same : f (g.get id) = g.get id) :
  g.update id f = g
  := by
  have records : g.records.modify id f = g.records := by
    apply Array.ext_getElem?
    intro place
    rw [Array.getElem?_modify]
    split
    next here =>
      subst here
      cases found : g.records[id]? with
      | none => rfl
      | some r =>
        have record : g.get id = r := by
          rw [get, Array.getD_eq_getD_getElem?, found]
          rfl
        rw [record] at same
        exact congrArg some same
    next => rfl
  rw [update, records]

/-- What a new record has in common with no record at all is as before at every position. -/
theorem field_get_push {α : Type} (field : TypeRecord → α) (g : Graph) {r : TypeRecord}
    (same : field r = field default) (id : TypeId) :
  field ((g.push r).get id) = field (g.get id)
  := by
  rw [get_push]
  split
  next new => rw [same, g.get_of_nextId_le (Nat.le_of_eq new.symm)]
  next => rfl

/-- What a change of records keeps, it keeps of every record of a graph. -/
theorem field_get_update {α : Type} (field : TypeRecord → α) (g : Graph) (id : TypeId)
    (f : TypeRecord → TypeRecord) (kept : ∀ r, field (f r) = field r) (other : TypeId) :
  field ((g.update id f).get other) = field (g.get other)
  := by
  rw [get_update]
  split
  · exact kept _
  · rfl

end CompactTypes.Graph

import CompactTypes.Proofs.Graph.Updates
import Mathlib.Data.List.Nodup

/-!
# Types that have a place in the output, and their numbers

`Graph.emittedTypes` depends on the list of all types and on which of their records describe
symbols.  Numbering changes only the indices of these types: each has its place in the list,
counted from one, as its index, `get_assignIndices`.  It takes one pass over the list of all types,
which counts them as well, `numberEach`.
-/

namespace CompactTypes.Graph

variable {g g' : Graph}

/-! ### The types that have a place in the output -/

theorem mem_emittedTypes (g : Graph) (id : TypeId) :
  id ∈ g.emittedTypes ↔ id ∈ g.allTypes ∧ (g.get id).isSymbol = false
  := by
  rw [emittedTypes, List.mem_filter, Array.mem_toList_iff, Bool.not_eq_true']

theorem not_mem_emittedTypes {id : TypeId} (symbol : (g.get id).isSymbol = true) :
  id ∉ g.emittedTypes
  := by
  intro mem
  have plain := ((g.mem_emittedTypes id).mp mem).2
  rw [symbol] at plain
  cases plain

/-- The types that have a place in the output are the same in a graph with the same types, as
long as these describe symbols or not as before. -/
theorem emittedTypes_congr (allTypes : g'.allTypes = g.allTypes)
    (same : ∀ id ∈ g.allTypes, (g'.get id).isSymbol = (g.get id).isSymbol) :
  g'.emittedTypes = g.emittedTypes
  := by
  rw [emittedTypes, emittedTypes, allTypes]
  apply List.filter_congr
  intro id mem
  rw [same id (Array.mem_toList_iff.mp mem)]

theorem emittedTypes_update (g : Graph) (id : TypeId) (f : TypeRecord → TypeRecord)
    (flags : ∀ r, (f r).flags = r.flags) :
  (g.update id f).emittedTypes = g.emittedTypes
  := by
  have allTypes : (g.update id f).allTypes = g.allTypes := rfl
  apply emittedTypes_congr allTypes
  intro other _
  rw [TypeRecord.isSymbol, TypeRecord.isSymbol, g.field_get_update TypeRecord.flags id f flags]

/-- A new type has a place in the output after the others, unless it is a symbol. -/
theorem emittedTypes_push (inside : ∀ id ∈ g.allTypes, id < g.nextId) (r : TypeRecord) :
  (g.push r).emittedTypes = g.emittedTypes ++ if r.isSymbol then [] else [g.nextId]
  := by
  have allTypes : (g.push r).allTypes.toList = g.allTypes.toList ++ [g.nextId] := Array.toList_push
  have old : g.allTypes.toList.filter (fun id => !((g.push r).get id).isSymbol)
      = g.emittedTypes := by
    apply List.filter_congr
    intro id mem
    rw [get_push, if_neg (Nat.ne_of_lt (inside id (Array.mem_toList_iff.mp mem)))]
  rw [emittedTypes, allTypes, List.filter_append, old, List.filter_singleton, get_push,
    if_pos rfl]
  cases r.isSymbol <;> rfl

theorem mem_emittedTypes_push (inside : ∀ id ∈ g.allTypes, id < g.nextId) {r : TypeRecord}
    {id : TypeId} :
  id ∈ (g.push r).emittedTypes ↔ id ∈ g.emittedTypes ∨ (r.isSymbol = false ∧ id = g.nextId)
  := by
  rw [emittedTypes_push inside, List.mem_append]
  cases r.isSymbol <;> simp

/-! ### Numbers -/

@[simp]
theorem nextId_numberFrom (ids : List TypeId) (next : UInt32) (g : Graph) :
  (g.numberFrom next ids).nextId = g.nextId
  := by
  induction ids generalizing next g with
  | nil => rfl
  | cons id ids ih => rw [numberFrom, ih, nextId_update]

@[simp]
theorem allTypes_numberFrom (ids : List TypeId) (next : UInt32) (g : Graph) :
  (g.numberFrom next ids).allTypes = g.allTypes
  := by
  induction ids generalizing next g with
  | nil => rfl
  | cons id ids ih => exact ih _ _

@[simp]
theorem taken_numberFrom (ids : List TypeId) (next : UInt32) (g : Graph) (c : SymbolClass) :
  (g.numberFrom next ids).taken c = g.taken c
  := by
  induction ids generalizing next g with
  | nil => rfl
  | cons id ids ih =>
    rw [numberFrom, ih]
    cases c <;> rfl

@[simp]
theorem indexType_numberFrom (ids : List TypeId) (next : UInt32) (g : Graph) :
  (g.numberFrom next ids).indexType = g.indexType
  := by
  induction ids generalizing next g with
  | nil => rfl
  | cons id ids ih => exact ih _ _

theorem add_one_add_ofNat (last : UInt32) (count : Nat) :
  last + 1 + UInt32.ofNat count = last + UInt32.ofNat (count + 1)
  := by
  rw [UInt32.ofNat_add, UInt32.add_assoc, UInt32.add_comm 1]
  rfl

/-- Each of the given types gets the number of its place among them. -/
theorem get_numberFrom {ids : List TypeId} (distinct : ids.Nodup) (next : UInt32)
    (inside : ∀ id ∈ ids, id < g.nextId) (id : TypeId) :
  (g.numberFrom next ids).get id
    = if id ∈ ids then (g.get id).withIndex (next + UInt32.ofNat (ids.idxOf id)) else g.get id
  := by
  induction ids generalizing next g with
  | nil => rfl
  | cons first ids ih =>
    obtain ⟨fresh, distinct⟩ := List.nodup_cons.mp distinct
    obtain ⟨here, inside⟩ := List.forall_mem_cons.mp inside
    rw [numberFrom, ih distinct (next + 1) fun id mem => by rw [nextId_update]; exact inside id mem]
    by_cases same : id = first
    · subst same
      rw [if_neg fresh, if_pos List.mem_cons_self, get_update_self g _ here, List.idxOf_cons_self,
        show UInt32.ofNat 0 = 0 from rfl, UInt32.add_zero]
    · rw [get_update_of_ne g _ same, List.idxOf_cons_ne ids (Ne.symm same), add_one_add_ofNat]
      simp only [List.mem_cons, same, false_or]

/-- Numbering gives every type that has a place in the output this place as its index, and
changes nothing else. -/
theorem get_assignIndices (distinct : g.emittedTypes.Nodup)
    (inside : ∀ id ∈ g.allTypes, id < g.nextId) (id : TypeId) :
  g.assignIndices.get id
    = if id ∈ g.emittedTypes then
        (g.get id).withIndex (UInt32.ofNat (g.emittedTypes.idxOf id + 1))
      else g.get id
  := by
  have within (id : TypeId) (mem : id ∈ g.emittedTypes) : id < g.nextId :=
    inside id ((g.mem_emittedTypes id).mp mem).1
  rw [assignIndices, get_numberFrom distinct 1 within, UInt32.ofNat_add, UInt32.ofNat_one,
    UInt32.add_comm]

theorem emittedTypes_assignIndices (distinct : g.emittedTypes.Nodup)
    (inside : ∀ id ∈ g.allTypes, id < g.nextId) :
  g.assignIndices.emittedTypes = g.emittedTypes
  := by
  have allTypes : g.assignIndices.allTypes = g.allTypes := allTypes_numberFrom _ _ g
  apply emittedTypes_congr allTypes
  intro id _
  rw [get_assignIndices distinct inside]
  split <;> rfl

/-- Numbers that are there already do not change. -/
theorem numberFrom_eq_self {ids : List TypeId} {next : UInt32}
    (numbered : ∀ place id, ids[place]? = some id →
      (g.get id).index = next + UInt32.ofNat place) :
  g.numberFrom next ids = g
  := by
  induction ids generalizing next with
  | nil => rfl
  | cons id ids ih =>
    have first : (g.get id).withIndex next = g.get id := by
      have here : (g.get id).index = next := (numbered 0 id rfl).trans (UInt32.add_zero next)
      rw [← here]
      rfl
    rw [numberFrom, update_eq_self first]
    apply ih
    intro place other found
    rw [numbered (place + 1) other found, add_one_add_ofNat]

/-! ### One pass over the list -/

/-- Numbers the records at the given positions in order, on from the number `last`, passing over
those that describe symbols, and says which number is the last one then. -/
def numberEach (g : Graph) (last : UInt32) : List TypeId → Graph × UInt32
  | [] => (g, last)
  | id :: ids =>
    if (g.get id).isSymbol then g.numberEach last ids
    else (g.update id (·.withIndex (last + 1))).numberEach (last + 1) ids

/-- The pass numbers the plain types and counts them. -/
theorem numberEach_eq (g : Graph) (last : UInt32) (ids : List TypeId) :
  let plain := ids.filter fun id => !(g.get id).isSymbol
  g.numberEach last ids = (g.numberFrom (last + 1) plain, last + UInt32.ofNat plain.length)
  := by
  induction ids generalizing g last with
  | nil => exact Prod.ext rfl (UInt32.add_zero last).symm
  | cons id ids ih =>
    rw [numberEach]
    split
    next symbol =>
      rw [ih, List.filter_cons_of_neg (by rw [symbol]; exact Bool.false_ne_true)]
    next plain =>
      have kept : ids.filter (fun other =>
            !((g.update id (·.withIndex (last + 1))).get other).isSymbol)
          = ids.filter fun other => !(g.get other).isSymbol := by
        apply List.filter_congr
        intro other _
        rw [g.field_get_update TypeRecord.isSymbol id (·.withIndex (last + 1)) fun _ => rfl]
      rw [ih, kept, List.filter_cons_of_pos (by rw [Bool.eq_false_iff.mpr plain]; rfl)]
      exact Prod.ext rfl (add_one_add_ofNat last _)

/-- The pass over all types gives them their numbers, and the last number is how many types have a
place in the output. -/
theorem numberEach_allTypes (g : Graph) :
  g.numberEach 0 g.allTypes.toList = (g.assignIndices, UInt32.ofNat g.typeCount)
  := by
  rw [numberEach_eq, UInt32.zero_add, UInt32.zero_add]
  rfl

end CompactTypes.Graph

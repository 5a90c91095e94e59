import CompactTypes.Dwarf.Decoding
import CompactTypes.Proofs.Graph.Updates

/-!
# Graphs that grow

During a walk a graph grows: it keeps its records, and these keep what they have been made with
and the references that they hold, `Grows`.  It does so in the following ways: what has been made
stays the same, `Agrees`; a record is pushed; an array gets an inner array, `Nests`; a record gets
a member, `Gains`.  A slot that waits for its reference goes on waiting as long as nothing is put
into it, `Slot.Waits.transfer`.
-/

namespace CompactTypes.Dwarf

/-- Whether a record has to refer to a type: so do types that are built on another one,
functions, and variables. -/
def refersToType (r : TypeRecord) : Bool :=
  r.kind.needsReference || r.flags.object

/-- What a record keeps from the time when it is made. -/
def core (r : TypeRecord) : TypeRecord :=
  { r with reference := none, members := #[], enumerators := #[], elementCount := 0 }

theorem kind_of_core {r r' : TypeRecord} (h : core r = core r') :
  r.kind = r'.kind
  := by
  have same : (core r).kind = (core r').kind := by rw [h]
  exact same

theorem refersToType_of_core {r r' : TypeRecord} (h : core r = core r') :
  refersToType r = refersToType r'
  := by
  have same : refersToType (core r) = refersToType (core r') := by rw [h]
  exact same

theorem lt_nextId_of_kind {g : Graph} {id : TypeId} (h : (g.get id).kind ≠ .unknown) :
  id < g.nextId
  := Graph.lt_nextId_of_field TypeRecord.kind h

theorem lt_nextId_of_array {g : Graph} {id : TypeId} (kind : (g.get id).kind = .array) :
  id < g.nextId
  := lt_nextId_of_kind (by rw [kind]; exact TypeKind.noConfusion)

theorem lt_nextId_of_reference {g : Graph} {id target : TypeId}
    (h : (g.get id).reference = some target) :
  id < g.nextId
  := by
  apply Graph.lt_nextId_of_field TypeRecord.reference
  rw [h]
  exact Option.some_ne_none target

/-- A slot is there and holds no reference yet, or that of a member, the provisional one. -/
def Slot.Waits (g : Graph) : Slot → Prop
  | .reference id => id < g.nextId ∧ (g.get id).reference = none
  | .member owner place => place < (g.get owner).members.size

/-- A slot goes on waiting if its record keeps its reference and no record loses members. -/
theorem Slot.Waits.transfer {g g' : Graph} {slot : Slot} (waits : slot.Waits g)
    (nextId_le : g.nextId ≤ g'.nextId)
    (reference : ∀ id < g.nextId, slot = .reference id →
      (g'.get id).reference = (g.get id).reference)
    (members : ∀ owner < g.nextId, (g.get owner).members.size ≤ (g'.get owner).members.size) :
  slot.Waits g'
  := by
  cases slot with
  | reference id =>
    obtain ⟨inside, missing⟩ := waits
    exact ⟨Nat.lt_of_lt_of_le inside nextId_le, (reference id inside rfl).trans missing⟩
  | member owner place =>
    have inside : owner < g.nextId :=
      Graph.lt_nextId_of_field (fun r => r.members.size) (Nat.ne_zero_of_lt waits)
    exact Nat.lt_of_lt_of_le waits (members owner inside)

/-- A graph has at least the records of another one, with what they have been made with and with
the references that were there. -/
structure Grows (g g' : Graph) : Prop where
  nextId_le : g.nextId ≤ g'.nextId
  core_eq : ∀ id < g.nextId, core (g'.get id) = core (g.get id)
  reference_eq : ∀ id target, (g.get id).reference = some target →
    (g'.get id).reference = some target

theorem Grows.kind_eq {g g' : Graph} (h : Grows g g') {id : TypeId} (inside : id < g.nextId) :
  (g'.get id).kind = (g.get id).kind
  := kind_of_core (h.core_eq id inside)

theorem grows_push (g : Graph) (r : TypeRecord) :
  Grows g (g.push r)
  := by
  constructor
  · rw [Graph.nextId_push]
    apply Nat.le_succ
  · intro id inside
    rw [Graph.get_push, if_neg (Nat.ne_of_lt inside)]
  · intro id target reference
    rw [Graph.get_push, if_neg (Nat.ne_of_lt (lt_nextId_of_reference reference)), reference]

theorem waits_push {g : Graph} (r : TypeRecord) {slot : Slot} (waits : slot.Waits g) :
  slot.Waits (g.push r)
  := by
  have kept (id : TypeId) (inside : id < g.nextId) : (g.push r).get id = g.get id := by
    rw [Graph.get_push, if_neg (Nat.ne_of_lt inside)]
  apply waits.transfer (grows_push g r).nextId_le
  · intro id inside _
    rw [kept id inside]
  · intro owner inside
    exact Nat.le_of_eq (congrArg (·.members.size) (kept owner inside).symm)

/-! ### Other changes of a record -/

/-- Two graphs agree in everything that is tracked. -/
structure Agrees (g g' : Graph) : Prop where
  nextId_eq : g'.nextId = g.nextId
  allTypes_eq : g'.allTypes = g.allTypes
  core_eq : ∀ id, core (g'.get id) = core (g.get id)
  reference_eq : ∀ id, (g'.get id).reference = (g.get id).reference
  members_eq : ∀ id, (g'.get id).members = (g.get id).members

theorem agrees_update (g : Graph) (id : TypeId) (f : TypeRecord → TypeRecord)
    (same : ∀ r, core (f r) = core r) (reference : ∀ r, (f r).reference = r.reference)
    (members : ∀ r, (f r).members = r.members) :
  Agrees g (g.update id f)
  := ⟨g.nextId_update id f, rfl, g.field_get_update core id f same,
    g.field_get_update _ id f reference, g.field_get_update _ id f members⟩

/-- What counts the elements of a record is not tracked. -/
theorem agrees_count (g : Graph) (id : TypeId) (count : TypeRecord → UInt32) :
  Agrees g (g.update id fun r => { r with elementCount := count r })
  := agrees_update g id _ (fun _ => rfl) (fun _ => rfl) fun _ => rfl

/-- Nor are enumerators. -/
theorem agrees_addEnumerator (g : Graph) (id : TypeId) (e : Enumerator) :
  Agrees g (g.update id (·.addEnumerator e))
  := agrees_update g id _ (fun _ => rfl) (fun _ => rfl) fun _ => rfl

theorem Agrees.refl (g : Graph) :
  Agrees g g
  := ⟨rfl, rfl, fun _ => rfl, fun _ => rfl, fun _ => rfl⟩

theorem Agrees.grows {g g' : Graph} (h : Agrees g g') :
  Grows g g'
  := ⟨Nat.le_of_eq h.nextId_eq.symm, fun id _ => h.core_eq id,
    fun id _ reference => (h.reference_eq id).trans reference⟩

theorem Agrees.waits {g g' : Graph} (h : Agrees g g') {slot : Slot} (waits : slot.Waits g) :
  slot.Waits g'
  := waits.transfer h.grows.nextId_le (fun id _ _ => h.reference_eq id)
    fun owner _ => Nat.le_of_eq (by rw [h.members_eq])

/-! ### Inner arrays -/

/-- A graph has one more array than another one, which is the element type of the array at
`outer`. -/
structure Nests (g g' : Graph) (outer : TypeId) : Prop where
  nextId_eq : g'.nextId = g.nextId + 1
  allTypes_eq : g'.allTypes = g.allTypes.push g.nextId
  inner_kind : (g'.get g.nextId).kind = .array
  inner_reference : (g'.get g.nextId).reference = none
  outer_reference : (g'.get outer).reference = some g.nextId
  core_eq : ∀ id < g.nextId, core (g'.get id) = core (g.get id)
  reference_eq : ∀ id < g.nextId, id ≠ outer → (g'.get id).reference = (g.get id).reference
  members_eq : ∀ id, (g'.get id).members = (g.get id).members

theorem nests_array (g : Graph) {outer : TypeId} (inside : outer < g.nextId) (count : UInt32) :
  Nests g ((g.push { TypeRecord.ofKind .array none with elementCount := count }).update outer
    (·.withReference g.nextId)) outer
  := by
  let r := { TypeRecord.ofKind .array none with elementCount := count }
  have pushed {α : Type} (field : TypeRecord → α)
      (kept : ∀ r : TypeRecord, field (r.withReference g.nextId) = field r) (id : TypeId) :
      field (((g.push r).update outer (·.withReference g.nextId)).get id)
        = field (if id = g.nextId then r else g.get id) := by
    rw [Graph.field_get_update field _ _ _ kept, Graph.get_push]
  constructor
  · rw [Graph.nextId_update, Graph.nextId_push]
  · rfl
  · rw [pushed (·.kind) fun _ => rfl, if_pos rfl]
    rfl
  · rw [Graph.get_update_of_ne _ _ (Nat.ne_of_gt inside), Graph.get_push, if_pos rfl]
    rfl
  · rw [Graph.get_update_self _ _ (by rw [Graph.nextId_push]; exact Nat.lt_succ_of_lt inside)]
    rfl
  · intro id hid
    rw [pushed core fun _ => rfl, if_neg (Nat.ne_of_lt hid)]
  · intro id hid other
    rw [Graph.get_update_of_ne _ _ other, Graph.get_push, if_neg (Nat.ne_of_lt hid)]
  · intro id
    rw [Graph.field_get_update TypeRecord.members _ outer (·.withReference g.nextId) fun _ => rfl]
    exact g.field_get_push (r := r) TypeRecord.members rfl id

theorem Nests.grows {g g' : Graph} {outer : TypeId} (h : Nests g g' outer)
    (missing : (g.get outer).reference = none) :
  Grows g g'
  := by
  constructor
  · rw [h.nextId_eq]
    apply Nat.le_succ
  · exact h.core_eq
  · intro id target reference
    have other : id ≠ outer := by
      rintro rfl
      rw [missing] at reference
      cases reference
    rw [h.reference_eq id (lt_nextId_of_reference reference) other, reference]

theorem Nests.waits {g g' : Graph} {outer : TypeId} (h : Nests g g' outer) {slot : Slot}
    (other : slot ≠ .reference outer) (waits : slot.Waits g) :
  slot.Waits g'
  := by
  apply waits.transfer (h.nextId_eq ▸ Nat.le_succ _)
  · intro id inside same
    exact h.reference_eq id inside fun hid => other (by rw [same, hid])
  · exact fun owner _ => Nat.le_of_eq (by rw [h.members_eq])

/-! ### Members -/

/-- A graph differs from another one by a member at the end of the record at `owner`. -/
structure Gains (g g' : Graph) (owner : TypeId) (m : Member) : Prop where
  nextId_eq : g'.nextId = g.nextId
  allTypes_eq : g'.allTypes = g.allTypes
  core_eq : ∀ id, core (g'.get id) = core (g.get id)
  reference_eq : ∀ id, (g'.get id).reference = (g.get id).reference
  members_eq : ∀ id, (g'.get id).members.toList
    = (g.get id).members.toList ++ if id = owner then [m] else []

theorem gains_update (g : Graph) {owner : TypeId} (inside : owner < g.nextId) (m : Member) :
  Gains g (g.update owner (·.addMember m)) owner m
  := by
  refine ⟨g.nextId_update owner _, rfl, g.field_get_update core owner _ fun _ => rfl,
    g.field_get_update _ owner _ fun _ => rfl, fun id => ?_⟩
  by_cases same : id = owner
  · subst same
    rw [g.get_update_self _ inside, if_pos rfl]
    exact Array.toList_push
  · rw [g.get_update_of_ne _ same, if_neg same, List.append_nil]

theorem Gains.grows {g g' : Graph} {owner : TypeId} {m : Member} (h : Gains g g' owner m) :
  Grows g g'
  := ⟨Nat.le_of_eq h.nextId_eq.symm, fun id _ => h.core_eq id,
    fun id target reference => by rw [h.reference_eq, reference]⟩

theorem Gains.waits {g g' : Graph} {owner : TypeId} {m : Member} (h : Gains g g' owner m)
    {slot : Slot} (waits : slot.Waits g) :
  slot.Waits g'
  := by
  apply waits.transfer h.grows.nextId_le (fun id _ _ => h.reference_eq id)
  intro owner' _
  rw [← Array.length_toList, ← Array.length_toList, h.members_eq, List.length_append]
  apply Nat.le_add_right

/-- The slot of the new member waits. -/
theorem Gains.waits_member {g g' : Graph} {owner : TypeId} {m : Member} (h : Gains g g' owner m) :
  (Slot.member owner (g.get owner).members.size).Waits g'
  := by
  have longer := congrArg List.length (h.members_eq owner)
  rw [if_pos rfl, List.length_append, Array.length_toList, Array.length_toList] at longer
  exact Nat.lt_of_lt_of_eq (Nat.lt_succ_self _) longer.symm

end CompactTypes.Dwarf

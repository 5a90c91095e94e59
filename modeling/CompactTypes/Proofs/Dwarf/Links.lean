import CompactTypes.Dwarf.Linking
import CompactTypes.Proofs.Dwarf.References
import CompactTypes.Proofs.Dwarf.Tracking

/-!
# Setting references

Once all units have been walked over, the references that have been collected are set.  A
reference `Denotes` the record of the entry at its offset, or that of another entry if the entry
is only another name.  If every reference denotes a record, then decoding ends without an error
and the graph is `Linked`: every slot holds the record that is denoted.  Otherwise the error is
about the first reference that denotes no record.
-/

namespace CompactTypes.Dwarf

/-! ### What references denote -/

/-- A reference to an offset denotes the record at a position: the entry at the offset has made
the record, or stands for no type at all, or is another name for an entry of which one of these
is true.  At most `hops` other names are passed. -/
inductive Denotes (visits : List Visit) (void : TypeId) : Nat → Nat → TypeId → Prop where
  | record {hops : Nat} {v : Visit} {id : TypeId} : v ∈ visits →
    v.meaning? = some (.record id) → Denotes visits void hops v.offset id
  | nothing {hops : Nat} {v : Visit} : v ∈ visits →
    v.meaning? = some (.synonym none) → Denotes visits void hops v.offset void
  | synonym {hops next : Nat} {v : Visit} {id : TypeId} : v ∈ visits →
    v.meaning? = some (.synonym (some next)) → Denotes visits void hops next id →
    Denotes visits void (hops + 1) v.offset id

/-- A reference to an offset, or to no type at all, leads to the record at a position. -/
def Leads (visits : List Visit) (void : TypeId) : Option Nat → TypeId → Prop
  | none, id => id = void
  | some offset, id => Denotes visits void 4 offset id

/-- A reference to the offset of an entry leads to the record that the entry has made. -/
theorem leads_record {visits : List Visit} {void id : TypeId} {v : Visit} {offset : Nat}
    (mem : v ∈ visits) (record : v.meaning? = some (.record id)) (here : v.offset = offset) :
  Leads visits void (some offset) id
  := here ▸ Denotes.record mem record

namespace Decoding

variable {visits : List Visit} {scopes : List Scope} {d : Decoding}

/-- A look-up is decided by the meaning of the entry, and if that is only another name, by the
next look-up. -/
theorem follow_succ_iff (d : Decoding) (steps offset : Nat) (id : TypeId) :
  d.follow (steps + 1) offset = some id ↔ ∃ m, d.meanings[offset]? = some m
    ∧ (m = .record id ∨ (m = .synonym none ∧ id = d.void)
      ∨ ∃ next, m = .synonym (some next) ∧ d.follow steps next = some id)
  := by
  rw [follow]
  cases d.meanings[offset]? with
  | none => simp
  | some m =>
    rcases m with id' | _ | next
    · simp
    · simp [eq_comm]
    · simp

theorem Tracks.follow_iff (h : Tracks visits scopes d) (hops offset : Nat) (id : TypeId) :
  d.follow (hops + 1) offset = some id ↔ Denotes visits d.void hops offset id
  := by
  constructor
  · intro found
    induction hops generalizing offset with
    | zero =>
      obtain ⟨m, meaning, looked⟩ := (d.follow_succ_iff 0 offset id).mp found
      obtain ⟨v, mem, rfl, hm⟩ := (h.meaning_iff offset m).mp meaning
      obtain rfl | ⟨rfl, rfl⟩ | ⟨next, -, none⟩ := looked
      · exact .record mem hm
      · exact .nothing mem hm
      · cases none
    | succ hops ih =>
      obtain ⟨m, meaning, looked⟩ := (d.follow_succ_iff (hops + 1) offset id).mp found
      obtain ⟨v, mem, rfl, hm⟩ := (h.meaning_iff offset m).mp meaning
      obtain rfl | ⟨rfl, rfl⟩ | ⟨next, rfl, found⟩ := looked
      · exact .record mem hm
      · exact .nothing mem hm
      · exact .synonym mem hm (ih next found)
  · intro denotes
    induction denotes with
    | @record hops v id mem hm =>
      have meaning := (h.meaning_iff v.offset _).mpr ⟨v, mem, rfl, hm⟩
      exact (d.follow_succ_iff hops v.offset id).mpr ⟨_, meaning, .inl rfl⟩
    | @nothing hops v mem hm =>
      have meaning := (h.meaning_iff v.offset _).mpr ⟨v, mem, rfl, hm⟩
      exact (d.follow_succ_iff hops v.offset d.void).mpr ⟨_, meaning, .inr (.inl ⟨rfl, rfl⟩)⟩
    | @synonym hops next v id mem hm _ found =>
      have meaning := (h.meaning_iff v.offset _).mpr ⟨v, mem, rfl, hm⟩
      exact (d.follow_succ_iff (hops + 1) v.offset id).mpr
        ⟨_, meaning, .inr (.inr ⟨next, rfl, found⟩)⟩

theorem Tracks.resolve?_iff (h : Tracks visits scopes d) (target : Option Nat) (id : TypeId) :
  d.resolve? target = some id ↔ Leads visits d.void target id
  := by
  cases target with
  | none => exact Option.some_inj.trans eq_comm
  | some offset => exact h.follow_iff maxSynonyms offset id

theorem Tracks.leads_unique (h : Tracks visits scopes d) {target : Option Nat} {id id' : TypeId}
    (leads : Leads visits d.void target id) (leads' : Leads visits d.void target id') :
  id = id'
  := by
  have found := (h.resolve?_iff target id).mpr leads
  rw [(h.resolve?_iff target id').mpr leads'] at found
  exact (Option.some.inj found).symm

end Decoding

/-! ### Slots -/

/-- A slot is there. -/
def Slot.Present (g : Graph) : Slot → Prop
  | reference id => id < g.nextId
  | member owner place => place < (g.get owner).members.size

/-- A slot holds the reference to the record at a position. -/
def Slot.Holds (g : Graph) (target : TypeId) : Slot → Prop
  | reference id => (g.get id).reference = some target
  | member owner place => (g.get owner).members[place]?.map Member.reference = some target

theorem Slot.Waits.present {g : Graph} {slot : Slot} (h : slot.Waits g) :
  slot.Present g
  := by
  cases slot with
  | reference id => exact h.1
  | member owner place => exact h

namespace Decoding

/-- The record whose member at a place refers to the record at a position. -/
def withMemberAt (place : Nat) (target : TypeId) (r : TypeRecord) : TypeRecord :=
  { r with members := r.members.modify place fun m => { m with reference := target } }

/-- What a member has besides its reference. -/
def nameAndOffset (m : Member) : Option String × UInt64 :=
  (m.name, m.offset)

theorem nameAndOffset_withMemberAt (place : Nat) (target : TypeId) (r : TypeRecord) :
  (withMemberAt place target r).members.toList.map nameAndOffset
    = r.members.toList.map nameAndOffset
  := by
  apply List.ext_getElem?
  intro i
  simp only [withMemberAt, List.getElem?_map, Array.getElem?_toList, Array.getElem?_modify]
  split
  · rw [Option.map_map]
    rfl
  · rfl

/-- Setting a slot keeps whatever does not depend on references. -/
theorem field_setSlot {α : Type} (field : TypeRecord → α)
    (reference : ∀ target r, field (r.withReference target) = field r)
    (members : ∀ place target r, field (withMemberAt place target r) = field r)
    (g : Graph) (target : TypeId) (slot : Slot) (id : TypeId) :
  field ((setSlot g target slot).get id) = field (g.get id)
  := by
  cases slot with
  | reference id' => exact g.field_get_update field id' _ (reference target) id
  | member owner place => exact g.field_get_update field owner _ (members place target) id

theorem nextId_setSlot (g : Graph) (target : TypeId) (slot : Slot) :
  (setSlot g target slot).nextId = g.nextId
  := by
  cases slot <;> apply g.nextId_update

theorem allTypes_setSlot (g : Graph) (target : TypeId) (slot : Slot) :
  (setSlot g target slot).allTypes = g.allTypes
  := by
  cases slot <;> rfl

theorem present_setSlot {g : Graph} {slot : Slot} (h : slot.Present g) (target : TypeId)
    (other : Slot) :
  slot.Present (setSlot g target other)
  := by
  cases slot with
  | reference id =>
    rw [Slot.Present, nextId_setSlot]
    exact h
  | member owner place =>
    have size := field_setSlot (fun r => r.members.size) (fun _ _ => rfl)
      (fun _ _ _ => Array.size_modify) g target other owner
    exact Nat.lt_of_lt_of_eq h size.symm

/-- A slot that is there holds what has been put into it. -/
theorem holds_setSlot {g : Graph} {slot : Slot} (h : slot.Present g) (target : TypeId) :
  slot.Holds (setSlot g target slot) target
  := by
  cases slot with
  | reference id =>
    rw [Slot.Holds, setSlot, Graph.get_update_self _ _ h]
    rfl
  | member owner place =>
    have inside : owner < g.nextId :=
      Graph.lt_nextId_of_field (fun r => r.members.size) (Nat.ne_zero_of_lt h)
    rw [Slot.Holds, setSlot, Graph.get_update_self _ _ inside]
    simp only [Array.getElem?_modify, if_true, Array.getElem?_eq_getElem h, Option.map_some]

/-- Setting a slot changes no other slot. -/
theorem holds_setSlot_of_ne {g : Graph} {slot other : Slot} {held : TypeId}
    (h : slot.Holds g held) (target : TypeId) (hne : slot ≠ other) :
  slot.Holds (setSlot g target other) held
  := by
  cases slot with
  | reference id =>
    cases other with
    | reference id' =>
      have different : id ≠ id' := fun same => hne (by rw [same])
      rw [Slot.Holds, setSlot, Graph.get_update_of_ne _ _ different]
      exact h
    | member owner place =>
      have kept := g.field_get_update TypeRecord.reference owner (withMemberAt place target)
        (fun _ => rfl) id
      exact kept.trans h
  | member owner place =>
    cases other with
    | reference id =>
      have kept := g.field_get_update TypeRecord.members id (·.withReference target)
        (fun _ => rfl) owner
      rw [Slot.Holds, setSlot, kept]
      exact h
    | member owner' place' =>
      rw [Slot.Holds, setSlot, Graph.get_update]
      split
      next changed =>
        obtain ⟨rfl, -⟩ := changed
        have different : place' ≠ place := fun same => hne (by rw [same])
        simp only [Array.getElem?_modify, if_neg different]
        exact h
      next => exact h

/-! ### Collected references -/

/-- References are set in order, up to the first that leads nowhere. -/
theorem linkAll_cases (d : Decoding) (links : List Link) (g : Graph) :
  ((d.linkAll links g).2 = none ∧ ∀ l ∈ links, ∃ id, d.resolve? l.target = some id)
    ∨ ∃ before l after, links = before ++ l :: after
      ∧ (∀ l' ∈ before, ∃ id, d.resolve? l'.target = some id) ∧ d.resolve? l.target = none
      ∧ (d.linkAll links g).2 = some (.danglingReference l.entry (l.target.getD 0))
  := by
  induction links generalizing g with
  | nil => exact .inl ⟨rfl, fun l mem => absurd mem List.not_mem_nil⟩
  | cons l links ih =>
    rw [linkAll]
    cases found : d.resolve? l.target with
    | none => exact .inr ⟨[], l, links, rfl, fun l mem => absurd mem List.not_mem_nil, found, rfl⟩
    | some target =>
      rcases ih (setSlot g target l.slot) with ⟨success, all⟩ | ⟨before, l', after, rfl, all, rest⟩
      · exact .inl ⟨success, List.forall_mem_cons.mpr ⟨⟨target, found⟩, all⟩⟩
      · exact .inr ⟨l :: before, l', after, rfl, List.forall_mem_cons.mpr ⟨⟨target, found⟩, all⟩,
          rest⟩

/-- What setting any slot to a record that a reference leads to keeps, setting references
keeps. -/
theorem linkAll_preserves {P : Graph → Prop} (d : Decoding)
    (step : ∀ g source target slot, d.resolve? source = some target → P g →
      P (setSlot g target slot)) (links : List Link) {g : Graph} (h : P g) :
  P (d.linkAll links g).1
  := by
  induction links generalizing g with
  | nil => exact h
  | cons l links ih =>
    rw [linkAll]
    cases found : d.resolve? l.target with
    | none => exact h
    | some target => exact ih (step g l.target target l.slot found h)

theorem nextId_linkAll (d : Decoding) (links : List Link) (g : Graph) :
  (d.linkAll links g).1.nextId = g.nextId
  := d.linkAll_preserves (P := fun g' => g'.nextId = g.nextId)
    (fun g' _ target slot _ h => (nextId_setSlot g' target slot).trans h) links rfl

theorem allTypes_linkAll (d : Decoding) (links : List Link) (g : Graph) :
  (d.linkAll links g).1.allTypes = g.allTypes
  := d.linkAll_preserves (P := fun g' => g'.allTypes = g.allTypes)
    (fun g' _ target slot _ h => (allTypes_setSlot g' target slot).trans h) links rfl

/-- Setting references keeps whatever does not depend on them. -/
theorem field_linkAll {α : Type} (field : TypeRecord → α)
    (reference : ∀ target r, field (r.withReference target) = field r)
    (members : ∀ place target r, field (withMemberAt place target r) = field r)
    (d : Decoding) (links : List Link) (g : Graph) (id : TypeId) :
  field ((d.linkAll links g).1.get id) = field (g.get id)
  := d.linkAll_preserves (P := fun g' => field (g'.get id) = field (g.get id))
    (fun g' _ target slot _ h => (field_setSlot field reference members g' target slot id).trans h)
    links rfl

/-- A slot that no collected reference is for is left as it is. -/
theorem holds_linkAll_of_not_mem (d : Decoding) {slot : Slot} {links : List Link}
    (others : slot ∉ links.map Link.slot) {g : Graph} {held : TypeId} (h : slot.Holds g held) :
  slot.Holds (d.linkAll links g).1 held
  := by
  induction links generalizing g with
  | nil => exact h
  | cons l links ih =>
    rw [List.map_cons, List.mem_cons, not_or] at others
    rw [linkAll]
    cases d.resolve? l.target with
    | none => exact h
    | some target => exact ih others.2 (holds_setSlot_of_ne h target others.1)

/-- If every reference leads to a record, then every slot holds that record in the end. -/
theorem holds_linkAll (d : Decoding) {links : List Link}
    (distinct : (links.map Link.slot).Nodup) {g : Graph}
    (present : ∀ l ∈ links, l.slot.Present g) (success : (d.linkAll links g).2 = none) :
  ∀ l ∈ links, ∃ id, d.resolve? l.target = some id ∧ l.slot.Holds (d.linkAll links g).1 id
  := by
  induction links generalizing g with
  | nil => exact fun l mem => absurd mem List.not_mem_nil
  | cons l links ih =>
    obtain ⟨fresh, distinct⟩ := List.nodup_cons.mp distinct
    obtain ⟨here, present⟩ := List.forall_mem_cons.mp present
    rw [linkAll] at success ⊢
    cases found : d.resolve? l.target with
    | none =>
      rw [found] at success
      cases success
    | some target =>
      rw [found] at success
      intro l' mem
      rcases List.mem_cons.mp mem with rfl | mem
      · exact ⟨target, found, d.holds_linkAll_of_not_mem fresh (holds_setSlot here target)⟩
      · exact ih distinct (fun l' mem => present_setSlot (present l' mem) target l.slot) success
          l' mem

end Decoding

/-! ### The order of members -/

/-- The members of a record of a kind in the order in which the record has them: in a struct or
union they are ordered by their offsets, and those with one offset are left in order. -/
def inOrder (kind : TypeKind) (members : List Member) : List Member :=
  match kind with
  | .struct | .union => members.mergeSort fun m m' => m.offset ≤ m'.offset
  | _ => members

theorem members_sortMembers (r : TypeRecord) :
  (sortMembers r).members.toList = inOrder r.kind r.members.toList
  := by
  unfold sortMembers inOrder
  cases r.kind <;> rfl

theorem field_sortMembers {α : Type} (field : TypeRecord → α)
    (members : ∀ (r : TypeRecord) ms, field { r with members := ms } = field r) (r : TypeRecord) :
  field (sortMembers r) = field r
  := by
  rw [sortMembers]
  split
  · exact members r _
  · exact members r _
  · rfl

theorem get_sortAll {ids : List TypeId} (distinct : ids.Nodup) (g : Graph) (id : TypeId) :
  (sortAll ids g).get id = if id ∈ ids then sortMembers (g.get id) else g.get id
  := by
  induction ids generalizing g with
  | nil => rfl
  | cons first ids ih =>
    obtain ⟨fresh, distinct⟩ := List.nodup_cons.mp distinct
    change (sortAll ids (g.update first sortMembers)).get id = _
    rw [ih distinct]
    by_cases here : id = first
    · subst here
      rw [if_neg fresh, if_pos List.mem_cons_self, Graph.get_update]
      split
      next => rfl
      next outside =>
        rw [g.get_of_nextId_le (Nat.le_of_not_lt fun inside => outside ⟨rfl, inside⟩)]
        rfl
    · rw [g.get_update_of_ne _ here]
      simp [here]

theorem nextId_sortAll (ids : List TypeId) (g : Graph) :
  (sortAll ids g).nextId = g.nextId
  := by
  induction ids generalizing g with
  | nil => rfl
  | cons id ids ih => exact (ih _).trans (g.nextId_update id _)

/-- If every record is in the list of all types, then the members of all records are sorted. -/
theorem get_sortAll_of_range {g : Graph} (all : g.allTypes.toList = List.range g.nextId)
    (id : TypeId) :
  (sortAll g.allTypes.toList g).get id = sortMembers (g.get id)
  := by
  rw [all, get_sortAll List.nodup_range]
  split
  next => rfl
  next outside =>
    rw [List.mem_range] at outside
    rw [g.get_of_nextId_le (Nat.le_of_not_lt outside)]
    rfl

theorem unresolved?_eq_none {g : Graph} (h : ∀ id ∈ g.allTypes.toList,
    (g.get id).kind.needsReference → (g.get id).reference ≠ none) :
  unresolved? g = none
  := by
  rw [unresolved?, List.findSome?_eq_none_iff]
  intro r mem
  obtain ⟨id, listed, rfl⟩ := List.mem_map.mp mem
  rw [if_neg]
  rintro ⟨needs, missing⟩
  exact h id listed needs missing

/-! ### Linked graphs -/

/-- What refers to a type at once is a record other than an array. -/
theorem Visit.of_immediate? (v : Visit) {target : Option Nat}
    (h : v.contribution.immediate? = some target) :
  v.made? = some v.id ∧ v.reference = some target ∧ ∀ r, v.contribution ≠ .array r target
  := by
  rw [Visit.made?, Visit.reference]
  cases hc : v.contribution <;> rw [hc] at h <;> cases h <;>
    exact ⟨rfl, rfl, fun r => Contribution.noConfusion⟩

/-- A graph in which every reference of a visited entry has been set to the record to which it
leads. -/
structure Linked (visits : List Visit) (void : TypeId) (g : Graph) : Prop where
  /-- The record that an entry has made stands at its position. -/
  made : ∀ v ∈ visits, ∀ r, v.contribution.record? = some r → core (g.get v.id) = core r
  reference : ∀ v ∈ visits, ∀ target, v.contribution.immediate? = some target →
    ∃ id, Leads visits void target id ∧ (g.get v.id).reference = some id
  /-- Of nested arrays the innermost one has the elements. -/
  array : ∀ v ∈ visits, ∀ record target, v.contribution = .array record target →
    ∃ last id, Nested visits g v.id last ∧ Leads visits void target id
      ∧ (g.get last).reference = some id
  members : ∀ owner, ∃ members,
    List.Forall₂ (fun v m => ∃ target, v.contribution = .member owner m.name m.offset target
      ∧ Leads visits void target m.reference) (membersOf owner visits) members
    ∧ (g.get owner).members.toList = inOrder (g.get owner).kind members

namespace Decoding

variable {visits : List Visit} {d : Decoding}

theorem waiting_nil (d : Decoding) :
  d.waiting [] = d.links.toList.map Link.slot
  := List.append_nil _

/-- What has been put into the slot of a collected reference. -/
theorem Tracks.holds (h : Tracks visits [] d)
    (success : (d.linkAll d.links.toList d.graph).2 = none) {l : Link} (mem : l ∈ d.links) :
  ∃ id, Leads visits d.void l.target id
    ∧ l.slot.Holds (d.linkAll d.links.toList d.graph).1 id
  := by
  have distinct : (d.links.toList.map Link.slot).Nodup := d.waiting_nil ▸ h.nodup
  have present (l : Link) (mem : l ∈ d.links.toList) : l.slot.Present d.graph := by
    apply (h.waits l.slot _).present
    rw [waiting_nil]
    exact List.mem_map_of_mem mem
  obtain ⟨id, found, holds⟩ := d.holds_linkAll distinct present success l (Array.mem_def.mp mem)
  exact ⟨id, (h.resolve?_iff l.target id).mp found, holds⟩

/-- References that were there before references are set stay as they are. -/
theorem Tracks.reference_linkAll (h : Tracks visits [] d) {id target : TypeId}
    (reference : (d.graph.get id).reference = some target) :
  ((d.linkAll d.links.toList d.graph).1.get id).reference = some target
  := by
  have others : Slot.reference id ∉ d.links.toList.map Link.slot := by
    intro mem
    obtain ⟨-, missing⟩ := h.waits (.reference id) (d.waiting_nil ▸ mem)
    rw [missing] at reference
    cases reference
  have holds : (Slot.reference id).Holds d.graph target := reference
  exact d.holds_linkAll_of_not_mem others holds

/-- Setting all references leaves no record without one that it has to have. -/
theorem Tracks.refers_linkAll (h : Tracks visits [] d)
    (success : (d.linkAll d.links.toList d.graph).2 = none) {id : TypeId}
    (inside : id < d.graph.nextId)
    (refers : refersToType ((d.linkAll d.links.toList d.graph).1.get id)) :
  ∃ target, ((d.linkAll d.links.toList d.graph).1.get id).reference = some target
  := by
  rw [field_linkAll refersToType (fun _ _ => rfl) fun _ _ _ => rfl] at refers
  cases before : (d.graph.get id).reference with
  | some target => exact ⟨target, h.reference_linkAll before⟩
  | none =>
    have waits := h.covered id inside refers before
    rw [waiting_nil] at waits
    obtain ⟨l, mem, same⟩ := List.mem_map.mp waits
    obtain ⟨target, -, holds⟩ := h.holds success (Array.mem_def.mpr mem)
    rw [same] at holds
    exact ⟨target, holds⟩

theorem Tracks.unresolved?_linkAll (h : Tracks visits [] d)
    (success : (d.linkAll d.links.toList d.graph).2 = none) :
  unresolved? (d.linkAll d.links.toList d.graph).1 = none
  := by
  apply unresolved?_eq_none
  intro id listed needs missing
  rw [allTypes_linkAll, h.allTypes_eq, List.mem_range] at listed
  have refers : refersToType ((d.linkAll d.links.toList d.graph).1.get id) := by
    rw [refersToType, needs, Bool.true_or]
  obtain ⟨target, reference⟩ := h.refers_linkAll success listed refers
  rw [missing] at reference
  cases reference

/-- The members of a record in the order in which they were found. -/
theorem Tracks.members_linkAll (h : Tracks visits [] d)
    (success : (d.linkAll d.links.toList d.graph).2 = none) (owner : TypeId) :
  List.Forall₂ (fun v m => ∃ target, v.contribution = .member owner m.name m.offset target
      ∧ Leads visits d.void target m.reference)
    (membersOf owner visits) ((d.linkAll d.links.toList d.graph).1.get owner).members.toList
  := by
  have shape := field_linkAll (fun r => r.members.toList.map nameAndOffset) (fun _ _ => rfl)
    nameAndOffset_withMemberAt d d.links.toList d.graph owner
  have named : List.Forall₂
      (fun v p => ∃ target, v.contribution = .member owner p.1 p.2 target) (membersOf owner visits)
      (((d.linkAll d.links.toList d.graph).1.get owner).members.toList.map nameAndOffset) := by
    rw [shape]
    exact List.forall₂_map_right_iff.mpr (h.members owner)
  obtain ⟨length_eq, named⟩ := List.forall₂_iff_get.mp (List.forall₂_map_right_iff.mp named)
  apply List.forall₂_iff_get.mpr
  refine ⟨length_eq, fun place visited inside => ?_⟩
  obtain ⟨target, member⟩ := named place visited inside
  have refers : ((membersOf owner visits).get ⟨place, visited⟩).reference = some target := by
    rw [Visit.reference, member]
    rfl
  have mem := h.link_of_member owner place _ (List.getElem?_eq_getElem visited) target refers
  obtain ⟨id, leads, holds⟩ := h.holds success mem
  rw [Slot.Holds, Array.getElem?_eq_getElem inside, Option.map_some] at holds
  exact ⟨target, member, Option.some.inj holds ▸ leads⟩

theorem finish_of_success (success : (d.linkAll d.links.toList d.graph).2 = none)
    (resolved : unresolved? (d.linkAll d.links.toList d.graph).1 = none) :
  d.finish = (sortAll (d.linkAll d.links.toList d.graph).1.allTypes.toList
    (d.linkAll d.links.toList d.graph).1, none)
  := by
  rw [finish]
  split
  next hlink =>
    rw [hlink] at success
    cases success
  next g hlink =>
    rw [hlink] at resolved
    rw [resolved, hlink]

/-- The records of a finished graph are those with references, with their members sorted. -/
theorem Tracks.get_finish (h : Tracks visits [] d)
    (success : (d.linkAll d.links.toList d.graph).2 = none) (id : TypeId) :
  d.finish.1.get id = sortMembers ((d.linkAll d.links.toList d.graph).1.get id)
  := by
  rw [finish_of_success success (h.unresolved?_linkAll success)]
  apply get_sortAll_of_range
  rw [allTypes_linkAll, nextId_linkAll, h.allTypes_eq]

/-- Finishing keeps whatever of a record depends neither on its reference nor on its members. -/
theorem Tracks.field_finish {α : Type} (h : Tracks visits [] d)
    (success : (d.linkAll d.links.toList d.graph).2 = none) (field : TypeRecord → α)
    (reference : ∀ target r, field (r.withReference target) = field r)
    (members : ∀ (r : TypeRecord) ms, field { r with members := ms } = field r) (id : TypeId) :
  field (d.finish.1.get id) = field (d.graph.get id)
  := by
  rw [h.get_finish success, field_sortMembers field members]
  exact field_linkAll field reference (fun _ _ r => members r _) d _ _ id

theorem Tracks.nextId_finish (h : Tracks visits [] d)
    (success : (d.linkAll d.links.toList d.graph).2 = none) :
  d.finish.1.nextId = d.graph.nextId
  := by
  rw [finish_of_success success (h.unresolved?_linkAll success), nextId_sortAll, nextId_linkAll]

theorem Tracks.grows_finish (h : Tracks visits [] d)
    (success : (d.linkAll d.links.toList d.graph).2 = none) :
  Grows d.graph d.finish.1
  := by
  constructor
  · exact Nat.le_of_eq (h.nextId_finish success).symm
  · exact fun id _ => h.field_finish success core (fun _ _ => rfl) (fun _ _ => rfl) id
  · intro id target reference
    rw [h.get_finish success, field_sortMembers TypeRecord.reference fun _ _ => rfl]
    exact h.reference_linkAll reference

/-- If every reference leads to a record, then finishing sets them all. -/
theorem Tracks.linked (h : Tracks visits [] d)
    (success : (d.linkAll d.links.toList d.graph).2 = none) :
  Linked visits d.void d.finish.1
  := by
  have reference (id : TypeId) : (d.finish.1.get id).reference
      = ((d.linkAll d.links.toList d.graph).1.get id).reference := by
    rw [h.get_finish success, field_sortMembers TypeRecord.reference fun _ _ => rfl]
  constructor
  · intro v mem r record
    exact ((h.grows_finish success).made (h.made v mem r record)).2
  · intro v mem target immediate
    obtain ⟨made, refers, not_array⟩ := v.of_immediate? immediate
    rcases h.link_of_record v mem v.id target made refers with ⟨r, array⟩ | linked
    · exact absurd array (not_array r)
    · obtain ⟨id, leads, holds⟩ := h.holds success linked
      exact ⟨id, leads, (reference v.id).trans holds⟩
  · intro v mem record target array
    obtain ⟨last, nested, linked | ⟨counts, opened⟩⟩ := h.link_of_array v mem record target array
    · obtain ⟨id, leads, holds⟩ := h.holds success linked
      have nested := (h.grows_finish success).nested (fun w hw => .inl hw) nested
      exact ⟨last, id, nested, leads, (reference last).trans holds⟩
    · cases opened
  · intro owner
    refine ⟨_, h.members_linkAll success owner, ?_⟩
    rw [h.get_finish success, members_sortMembers, field_sortMembers TypeRecord.kind fun _ _ => rfl]

/-- Every reference of a visit has been collected. -/
theorem Tracks.link_of_reference (h : Tracks visits [] d) {v : Visit} (mem : v ∈ visits)
    {target : Option Nat} (refers : v.reference = some target) :
  ∃ l ∈ d.links, l.entry = v.offset ∧ l.target = target
  := by
  cases hc : v.contribution with
  | derived | subroutine | subprogram | object =>
    have made : v.made? = some v.id := by rw [Visit.made?, hc]; rfl
    rcases h.link_of_record v mem v.id target made refers with ⟨r, array⟩ | linked
    · rw [hc] at array
      cases array
    · exact ⟨_, linked, rfl, rfl⟩
  | array record target' =>
    rw [Visit.reference, hc] at refers
    cases refers
    obtain ⟨last, -, linked | ⟨counts, opened⟩⟩ := h.link_of_array v mem record target hc
    · exact ⟨_, linked, rfl, rfl⟩
    · cases opened
  | member owner name offset target' =>
    have member : v ∈ membersOf owner visits := by
      rw [membersOf, List.mem_filter, hc]
      exact ⟨mem, decide_eq_true rfl⟩
    obtain ⟨place, found⟩ := List.mem_iff_getElem?.mp member
    exact ⟨_, h.link_of_member owner place v found target refers, rfl, rfl⟩
  | nothing | plain | aggregate | enumeration | dimension | enumerator | synonym =>
    rw [Visit.reference, hc] at refers
    cases refers

/-- Finishing succeeds exactly if every reference of a visit leads to a record. -/
theorem Tracks.finish_cases (h : Tracks visits [] d) :
  ((∀ v ∈ visits, ∀ target, v.reference = some target → ∃ id, Leads visits d.void target id)
      ∧ d.finish.2 = none ∧ Linked visits d.void d.finish.1)
    ∨ ∃ before l after target, d.links.toList = before ++ l :: after
      ∧ (∀ l' ∈ before, ∃ id, Leads visits d.void l'.target id)
      ∧ (∃ v ∈ visits, v.offset = l.entry ∧ v.reference = some l.target)
      ∧ l.target = some target ∧ (¬∃ id, Leads visits d.void l.target id)
      ∧ d.finish.2 = some (.danglingReference l.entry target)
  := by
  rcases d.linkAll_cases d.links.toList d.graph with
    ⟨success, all⟩ | ⟨before, l, after, links, all, undefined, failure⟩
  · refine .inl ⟨fun v mem target refers => ?_, ?_, h.linked success⟩
    · obtain ⟨l, collected, -, rfl⟩ := h.link_of_reference mem refers
      obtain ⟨id, found⟩ := all l (Array.mem_def.mp collected)
      exact ⟨id, (h.resolve?_iff l.target id).mp found⟩
    · rw [finish_of_success success (h.unresolved?_linkAll success)]
  · have collected : l ∈ d.links := by
      rw [Array.mem_def, links]
      exact List.mem_append_right _ List.mem_cons_self
    have nowhere : ¬∃ id, Leads visits d.void l.target id := by
      rintro ⟨id, leads⟩
      rw [(h.resolve?_iff l.target id).mpr leads] at undefined
      cases undefined
    cases htarget : l.target with
    | none =>
      rw [htarget] at undefined
      cases undefined
    | some target =>
      refine .inr ⟨before, l, after, target, links, fun l' mem => ?_,
        h.visit_of_link l collected, htarget, nowhere, ?_⟩
      · obtain ⟨id, found⟩ := all l' mem
        exact ⟨id, (h.resolve?_iff l'.target id).mp found⟩
      · rw [htarget] at failure
        rw [finish]
        split
        next hlink =>
          rw [hlink] at failure
          exact failure
        next hlink =>
          rw [hlink] at failure
          cases failure

end Decoding

namespace Sections

theorem decode_of_walk {s : Sections} {size : Nat} {d : Decoding}
    (width : s.addressSize = .ok size) (walked : s.walk s.units .empty size = (d, none)) :
  (s.decode .empty).graph = d.finish.1 ∧ (s.decode .empty).error = d.finish.2
  := by
  simp only [decode, width, walked, and_self]

/-- Decoding after a walk without a fault.  There is a visit for every entry, with what has been
read from it.  What it refers to and what references to it mean follow from its tag and from the
values of its attributes, and a reference leads to at most one record.  If each reference leads to a
record, the decoding succeeds and all of them are set.  Otherwise it fails at the first one, in the
order in which they have been collected, that leads nowhere. -/
theorem linked_decode {s : Sections} {size : Nat} (width : s.addressSize = .ok size)
    (walked : (s.walk s.units .empty size).2 = none) :
  let d := (s.walk s.units .empty size).1
  let void := (Decoding.start .empty size).void
  let visits := s.visits s.units.items .empty size
  visits.map Visit.place = s.entries
  ∧ (∀ v ∈ visits, v.Faithful s
    ∧ (∀ target, v.reference = some target ↔
      v.Refers ∧ v.unit.PointsTo (v.unit.typeValue? v.entry) target)
    ∧ ∀ m, v.meaning? = some m ↔ v.Means m)
  ∧ (∀ target id id', Leads visits void target id → Leads visits void target id' → id = id')
  ∧ ((s.decode .empty).error = none ↔
    ∀ v ∈ visits, ∀ target, v.reference = some target → ∃ id, Leads visits void target id)
  ∧ ((s.decode .empty).error = none → Linked visits void (s.decode .empty).graph)
  ∧ ∀ error, (s.decode .empty).error = some error →
    ∃ before l after target, d.links.toList = before ++ l :: after
    ∧ (∀ l' ∈ before, ∃ id, Leads visits void l'.target id)
    ∧ (∃ v ∈ visits, v.offset = l.entry ∧ v.reference = some (some target))
    ∧ l.target = some target ∧ (¬∃ id, Leads visits void l.target id)
    ∧ error = .danglingReference l.entry target
  := by
  intro d void visits
  have walk_eq : s.walk s.units .empty size = (d, none) := Prod.ext rfl walked
  have tracked : Decoding.Tracks visits [] d := Decoding.tracks_walk walk_eq
  have void_eq : d.void = void := tracked.void_eq
  obtain ⟨places, faithful⟩ := s.visits_of_walk walk_eq
  obtain ⟨graph_eq, error_eq⟩ := decode_of_walk width walk_eq
  rw [graph_eq, error_eq, ← void_eq]
  refine ⟨places, fun v mem => ⟨faithful v mem, Visit.reference_iff (faithful v mem),
    Visit.meaning?_iff (faithful v mem)⟩,
    fun target id id' leads leads' => tracked.leads_unique leads leads', ?_⟩
  rcases tracked.finish_cases with
    ⟨all, success, linked⟩
      | ⟨before, l, after, target, links, all, visited, htarget, nowhere, failure⟩
  · rw [success]
    refine ⟨⟨fun _ => all, fun _ => rfl⟩, fun _ => linked, fun error h => ?_⟩
    cases h
  · rw [failure]
    refine ⟨⟨fun h => ?_, fun h => ?_⟩, fun h => ?_, fun error h => ?_⟩
    · cases h
    · obtain ⟨v, mem, -, refers⟩ := visited
      exact absurd (h v mem l.target refers) nowhere
    · cases h
    · cases h
      rw [htarget] at visited
      exact ⟨before, l, after, target, links, all, visited, htarget, nowhere, rfl⟩

/-- A unit with a base type, and after it a unit with a pointer to an atomic type.  The atomic type
is another name for the constant type between them, which is built on the base type. -/
def twoUnits : Sections where
  order := .little
  abbreviations := ⟨#[
    1, 0x11, 1, 0, 0,
    2, 0x0f, 0, 0x49, 0x13, 0, 0,
    3, 0x24, 0, 0, 0,
    4, 0x26, 0, 0x49, 0x10, 0, 0,
    5, 0x47, 0, 0x49, 0x13, 0, 0,
    0]⟩
  info := ⟨#[
    10, 0, 0, 0, 4, 0, 0, 0, 0, 0, 8,
    1,
    3,
    0,
    24, 0, 0, 0, 4, 0, 0, 0, 0, 0, 8,
    1,
    2, 22, 0, 0, 0,
    4, 12, 0, 0, 0,
    5, 17, 0, 0, 0,
    0]⟩
  strings := .empty
  stringOffsets := .empty
  lineStrings := .empty

/-- The pointer is in the second unit, and its target is counted from the start of this unit. -/
theorem linked_decode_twoUnits :
  let void := (Decoding.start .empty 8).void
  let visits := twoUnits.visits twoUnits.units.items .empty 8
  let g := (twoUnits.decode .empty).graph
  twoUnits.addressSize = .ok 8
  ∧ (twoUnits.walk twoUnits.units .empty 8).2 = none
  ∧ (∀ v ∈ visits, ∀ target, v.reference = some target → ∃ id, Leads visits void target id)
  ∧ Linked visits void g
  ∧ ∃ pointer ∈ visits, ∃ const ∈ visits, ∃ base ∈ visits,
    pointer.entry.tag = .pointerType ∧ const.entry.tag = .constType
    ∧ base.entry.tag = .baseType ∧ base.unit.offset < pointer.unit.offset
    ∧ (g.get pointer.id).reference = some const.id ∧ (g.get const.id).reference = some base.id
  := by
  intro void visits g
  have width : twoUnits.addressSize = .ok 8 := by decide +kernel
  have walked : (twoUnits.walk twoUnits.units .empty 8).2 = none := by decide +kernel
  have success : (twoUnits.decode .empty).error = none := by decide +kernel
  obtain ⟨-, -, -, leads, linked, -⟩ := linked_decode width walked
  refine ⟨width, walked, leads.mp success, linked success, ?_⟩
  let base := visits.get ⟨1, by decide +kernel⟩
  let pointer := visits.get ⟨3, by decide +kernel⟩
  let const := visits.get ⟨4, by decide +kernel⟩
  exact ⟨pointer, List.get_mem _ _, const, List.get_mem _ _, base, List.get_mem _ _,
    by decide +kernel⟩

end Sections

end CompactTypes.Dwarf

import CompactTypes.Proofs.Dwarf.Decoded
import CompactTypes.Proofs.Dwarf.Dimensions

/-!
# References that are still to be set

When a walk is over, the collected references are for exactly the slots that have to get one: each
record that refers to a type, apart from the arrays that have got an inner array as their elements,
and each member.  What is missing for this besides the tracked state is that no other slot waits and
that every array is one of those that some entry has made; this is the invariant
`Decoding.Formed`.  The result is `Sections.pending_walk`.
-/

namespace CompactTypes.Dwarf

/-- A record is of a kind that has members: fields, or the arguments of a function. -/
def OwnsMembers (r : TypeRecord) : Prop :=
  r.kind = .struct ∨ r.kind = .union ∨ r.kind = .function

/-- A visit has made the array at a position, or the array is the element type of another one. -/
def Rooted (visits : List Visit) (g : Graph) (id : TypeId) : Prop :=
  (∃ v ∈ visits, ∃ record target, v.contribution = .array record target ∧ v.id = id)
    ∨ ∃ outer, (g.get outer).reference = some id

/-- A variable is no array itself. -/
theorem kind_ne_array_of_object {r : TypeRecord} (regular : r.Regular) (object : r.flags.object) :
  r.kind ≠ .array
  := by
  rw [TypeRecord.Regular, TypeRecord.symbolClass?, object] at regular
  intro array
  rw [array] at regular
  cases hfunction : r.flags.function <;> rw [hfunction] at regular <;> cases regular

namespace Decoding

/-- Only records that refer to a type wait for a reference, only records of some kinds have members,
and only arrays have got a reference, to an array that belongs to them. -/
structure Formed (visits : List Visit) (d : Decoding) : Prop where
  refers : ∀ l ∈ d.links, ∀ id, l.slot = .reference id → refersToType (d.graph.get id)
  owner : ∀ id, (d.graph.get id).members ≠ #[] → OwnsMembers (d.graph.get id)
  array : ∀ id, (d.graph.get id).reference ≠ none → (d.graph.get id).kind = .array
  rooted : ∀ id, (d.graph.get id).kind = .array → Rooted visits d.graph id

variable {visits visits' : List Visit} {scopes : List Scope} {d d' : Decoding} {v : Visit}

theorem lt_nextId_of_refersToType {g : Graph} {id : TypeId} (refers : refersToType (g.get id)) :
  id < g.nextId
  := by
  apply Graph.lt_nextId_of_field refersToType
  rw [refers]
  exact Bool.false_ne_true.symm

/-- The invariant is kept by a graph that grows if what is new has the property. -/
theorem Formed.grow (h : Formed visits d) (grows : Grows d.graph d'.graph)
    (more : ∀ v ∈ visits, v ∈ visits')
    (links : ∀ l ∈ d'.links, l ∈ d.links ∨
      ∀ id, l.slot = .reference id → refersToType (d'.graph.get id))
    (members : ∀ id, (d'.graph.get id).members ≠ #[] →
      (d.graph.get id).members ≠ #[] ∨ OwnsMembers (d'.graph.get id))
    (references : ∀ id, (d'.graph.get id).reference ≠ none →
      (d.graph.get id).reference ≠ none ∨ (d'.graph.get id).kind = .array)
    (arrays : ∀ id, (d'.graph.get id).kind = .array →
      id < d.graph.nextId ∨ Rooted visits' d'.graph id) :
  Formed visits' d'
  := by
  constructor
  · intro l mem id slot
    rcases links l mem with old | new
    · have refers := h.refers l old id slot
      rw [refersToType_of_core (grows.core_eq id (lt_nextId_of_refersToType refers))]
      exact refers
    · exact new id slot
  · intro id owned
    rcases members id owned with old | new
    · have inside : id < d.graph.nextId := Graph.lt_nextId_of_field TypeRecord.members old
      rw [OwnsMembers, grows.kind_eq inside]
      exact h.owner id old
    · exact new
  · intro id refers
    rcases references id refers with old | new
    · have inside : id < d.graph.nextId := Graph.lt_nextId_of_field TypeRecord.reference old
      rw [grows.kind_eq inside]
      exact h.array id old
    · exact new
  · intro id kind
    rcases arrays id kind with inside | new
    · rw [grows.kind_eq inside] at kind
      rcases h.rooted id kind with ⟨v, mem, made⟩ | ⟨outer, reference⟩
      · exact .inl ⟨v, more v mem, made⟩
      · exact .inr ⟨outer, grows.reference_eq outer id reference⟩
    · exact new

theorem Formed.transport (h : Formed visits d) (graph : Agrees d.graph d'.graph)
    (links : d'.links = d.links) (more : ∀ v ∈ visits, v ∈ visits') :
  Formed visits' d'
  := by
  apply h.grow graph.grows more
  · exact fun l mem => .inl (links ▸ mem)
  · exact fun id owned => .inl (graph.members_eq id ▸ owned)
  · exact fun id refers => .inl (graph.reference_eq id ▸ refers)
  · exact fun id kind => .inl (graph.nextId_eq ▸ lt_nextId_of_array kind)

/-! ### Closing scopes -/

/-- The array that ends waits for its elements. -/
theorem Formed.linkArray (h : Formed visits d) {id : TypeId} (kind : (d.graph.get id).kind = .array)
    (entry : Nat) (target : Option Nat) :
  Formed visits (d.link (.reference id) entry target)
  := by
  have grows : Grows d.graph (d.link (.reference id) entry target).graph :=
    (Agrees.refl d.graph).grows
  apply h.grow grows fun _ mem => mem
  · intro l mem
    rcases Array.mem_push.mp mem with old | rfl
    · exact .inl old
    · refine .inr fun other same => ?_
      cases same
      rw [refersToType]
      exact Bool.or_eq_true_iff.mpr (.inl (kind ▸ rfl))
  · exact fun _ owned => .inl owned
  · exact fun _ refers => .inl refers
  · exact fun _ kind => .inl (lt_nextId_of_array kind)

theorem Formed.nest (h : Formed visits d) {outer : TypeId}
    (graph : Nests d.graph d'.graph outer) (inside : outer < d.graph.nextId)
    (kind : (d.graph.get outer).kind = .array) (missing : (d.graph.get outer).reference = none)
    (links : d'.links = d.links) :
  Formed visits d'
  := by
  have grows := graph.grows missing
  apply h.grow grows (fun _ mem => mem)
  · exact fun l mem => .inl (links ▸ mem)
  · exact fun id owned => .inl (graph.members_eq id ▸ owned)
  · intro id refers
    by_cases here : id = outer
    · exact .inr (here ▸ (grows.kind_eq inside).trans kind)
    · by_cases old : id < d.graph.nextId
      · exact .inl (graph.reference_eq id old here ▸ refers)
      · -- The new array has no reference yet.
        have last : id < d'.graph.nextId := Graph.lt_nextId_of_field TypeRecord.reference refers
        rw [graph.nextId_eq] at last
        obtain rfl : id = d.graph.nextId :=
          Nat.le_antisymm (Nat.le_of_lt_succ last) (Nat.le_of_not_lt old)
        exact absurd graph.inner_reference refers
  · intro id kind
    have last : id < d'.graph.nextId := lt_nextId_of_array kind
    rw [graph.nextId_eq] at last
    rcases Nat.lt_succ_iff_lt_or_eq.mp last with old | rfl
    · exact .inl old
    · exact .inr (.inr ⟨outer, graph.outer_reference⟩)

theorem Formed.nestArrays (entry : Nat) (target : Option Nat) (counts : List UInt32)
    {outer : TypeId} (h : Formed visits d) (inside : outer < d.graph.nextId)
    (kind : (d.graph.get outer).kind = .array) (missing : (d.graph.get outer).reference = none) :
  Formed visits (nestArrays entry target outer counts d)
  := by
  induction counts generalizing outer d with
  | nil => exact h.linkArray kind entry target
  | cons count counts ih =>
    let r := { TypeRecord.ofKind .array none with elementCount := count }
    have graph := nests_array d.graph inside count
    have nested : Formed visits ((d.push r).update outer (·.withReference d.graph.nextId)) :=
      h.nest graph inside kind missing rfl
    rw [Decoding.nestArrays]
    apply ih nested
    · exact graph.nextId_eq ▸ Nat.lt_succ_self _
    · exact graph.inner_kind
    · exact graph.inner_reference

theorem Formed.close {scope : Scope} (h : Formed visits d)
    (tracked : Tracks visits (scope :: scopes) d) :
  Formed visits (d.close scope)
  := by
  cases scope with
  | other | aggregate | enumeration => exact h
  | function id =>
    have graph := agrees_count d.graph id fun r => UInt32.ofNat r.members.size
    exact h.transport graph rfl fun _ mem => mem
  | array id entry target counts =>
    obtain ⟨inside, kind, -⟩ := tracked.belongs _ List.mem_cons_self
    have graph := agrees_count d.graph id fun _ => counts.reverse.headD 0
    have counted : Formed visits
        (d.update id fun r => { r with elementCount := counts.reverse.headD 0 }) :=
      h.transport graph rfl fun _ mem => mem
    apply counted.nestArrays entry target counts.reverse.tail
    · exact graph.nextId_eq ▸ inside
    · exact (graph.grows.kind_eq inside).trans kind
    · exact (graph.reference_eq id).trans tracked.toAwaits.array.1.2

theorem Formed.closeFrom (depth : Int) {open' : List (Int × Scope)} (h : Formed visits d)
    (tracked : Tracks visits (open'.map Prod.snd) d) :
  Formed visits (closeFrom depth open' d)
  := by
  induction open' generalizing d with
  | nil => exact h.transport (.refl _) rfl fun _ mem => mem
  | cons first others ih =>
    rw [Decoding.closeFrom]
    split
    · exact h.transport (.refl _) rfl fun _ mem => mem
    · exact ih (h.close tracked) tracked.close

theorem Formed.closeAll {open' : List (Int × Scope)} (h : Formed visits d)
    (tracked : Tracks visits (open'.map Prod.snd) d) :
  Formed visits (closeAll open' d)
  := by
  induction open' generalizing d with
  | nil => exact h.transport (.refl _) rfl fun _ mem => mem
  | cons first others ih => exact ih (h.close tracked) tracked.close

/-! ### Visits -/

/-- A new record waits if it has to refer to a type, and an array is that of the visit. -/
theorem Formed.record {r : TypeRecord} {parent : Option Scope} (h : Formed visits d)
    (hid : v.id = d.graph.nextId) (record : v.contribution.record? = some r)
    (fits : v.contribution.Fits parent) :
  Formed (visits ++ [v]) (d.add v.offset v.contribution)
  := by
  have bare := bare_of_fits record fits
  have graph := graph_add_record (d := d) record v.offset
  apply h.grow (graph ▸ grows_push d.graph r) fun _ mem => List.mem_append_left _ mem
  · intro l mem
    refine ((mem_links_add_record record hid l).mp mem).imp_right fun new id slot => ?_
    have waits : l.slot ∈ (immediateLinks v).map Link.slot
        ++ (opened v.id v.offset v.contribution).toList.filterMap Scope.slot? :=
      List.mem_append_left _ (List.mem_map_of_mem new)
    rw [slots_of_record record fits, slot] at waits
    split at waits
    next refers =>
      cases List.mem_singleton.mp waits
      rw [graph, Graph.get_push, if_pos hid]
      exact refers
    next => cases waits
  · intro id owned
    rw [graph, d.graph.field_get_push TypeRecord.members bare.members] at owned
    exact .inl owned
  · intro id refers
    rw [graph, d.graph.field_get_push TypeRecord.reference bare.reference] at refers
    exact .inl refers
  · intro id kind
    rw [graph, Graph.get_push] at kind
    split at kind
    next new =>
      refine .inr (.inl ⟨v, List.mem_append_right _ List.mem_cons_self, ?_⟩)
      have array : ∃ record target, v.contribution = .array record target := by
        cases hc : v.contribution with
        | array record target => exact ⟨record, target, rfl⟩
        | nothing | dimension | member | enumerator | synonym =>
          rw [hc] at record
          cases record
        | plain | derived | aggregate | enumeration | subroutine | subprogram | object =>
          rw [hc] at record fits
          cases record
          have other := fits.2.2
          rw [kind] at other
          exact absurd other (by decide)
      obtain ⟨record', target, array⟩ := array
      exact ⟨record', target, array, hid.trans new.symm⟩
    next => exact .inl (lt_nextId_of_array kind)

/-- A contribution that fits the scope of the parent keeps the invariant. -/
theorem Formed.add {parent : Option Scope} (h : Formed visits d)
    (tracked : Tracks visits (d.scopes.map Prod.snd) d) (hid : v.id = d.graph.nextId)
    (fits : v.contribution.Fits parent)
    (hparent : ∀ scope, parent = some scope → scope ∈ d.scopes.map Prod.snd) :
  Formed (visits ++ [v]) (d.add v.offset v.contribution)
  := by
  have more (w : Visit) (mem : w ∈ visits) : w ∈ visits ++ [v] := List.mem_append_left _ mem
  cases hc : v.contribution with
  | plain | derived | array | aggregate | enumeration | subroutine | subprogram | object =>
    rw [← hc]
    exact h.record hid (r := _) (by rw [hc]; rfl) fits
  | nothing | synonym => exact h.transport (.refl d.graph) rfl more
  | enumerator owner e =>
    have graph := agrees_addEnumerator d.graph owner e
    exact h.transport graph rfl more
  | dimension count =>
    change Formed (visits ++ [v]) (d.addDimension count)
    unfold addDimension
    split <;> exact h.transport (.refl d.graph) rfl more
  | member owner name offset target =>
    rw [hc] at fits
    have owns : owner < d.graph.nextId ∧ OwnsMembers (d.graph.get owner) := by
      rcases fits with hscope | hscope
      · obtain ⟨inside, kind⟩ := tracked.belongs _ (hparent _ hscope)
        exact ⟨inside, kind.imp_right .inl⟩
      · obtain ⟨inside, kind⟩ := tracked.belongs _ (hparent _ hscope)
        exact ⟨inside, .inr (.inr kind)⟩
    obtain ⟨inside, kinds⟩ := owns
    have gains := gains_update d.graph inside ⟨name, d.void, offset⟩
    apply h.grow gains.grows more
    · intro l mem
      rcases Array.mem_push.mp mem with old | rfl
      · exact .inl old
      · exact .inr fun id slot => Slot.noConfusion slot
    · intro id owned
      by_cases here : id = owner
      · have same := gains.grows.kind_eq inside
        refine .inr ?_
        rw [here, OwnsMembers]
        exact same.symm ▸ kinds
      · have kept := gains.members_eq id
        rw [if_neg here, List.append_nil] at kept
        exact .inl (Array.toList_inj.mp kept ▸ owned)
    · exact fun id refers => .inl (gains.reference_eq id ▸ refers)
    · intro id kind
      have inside' := lt_nextId_of_array kind
      exact .inl (gains.nextId_eq ▸ inside')

theorem Formed.enterEntry {scope : Option Scope} (h : Formed visits d)
    (tracked : Tracks visits (scope.toList ++ d.scopes.map Prod.snd) d) (depth : Int)
    (hasChildren : Bool) :
  Formed visits (d.enter depth hasChildren scope)
  := by
  unfold Decoding.enter
  split
  · exact h.transport (.refl d.graph) rfl fun _ mem => mem
  · cases scope with
    | none => exact h
    | some scope => exact h.close tracked

theorem followed_formed (s : Sections) :
  Followed s fun visits d => Tracks visits (d.scopes.map Prod.snd) d ∧ Formed visits d
  := by
  constructor
  · rintro visits d u depth e v ⟨tracked, h⟩ hv fresh
    refine ⟨tracked.visit hv fresh, ?_⟩
    obtain ⟨-, rfl, -, faithful, hparent, hid, notices, result⟩ := visit_of_ok hv
    rw [result]
    have fits := Contribution.fits_read faithful
    have opened (scope : Scope) (found : v.parent = some scope) :
        scope ∈ (d.arrive v.depth).scopes.map Prod.snd := parentScope_mem (hparent ▸ found)
    have arrived : Tracks visits (((d.arrive v.depth).note notices).scopes.map Prod.snd)
        ((d.arrive v.depth).note notices) :=
      (tracked.closeFrom v.depth).transport (.refl _) rfl rfl rfl
    have formed : Formed visits ((d.arrive v.depth).note notices) :=
      (h.closeFrom v.depth tracked).transport (.refl _) rfl fun _ mem => mem
    exact (formed.add arrived hid fits opened).enterEntry (arrived.add hid fresh fits opened)
      v.depth v.entry.hasChildren
  · rintro visits d ⟨tracked, h⟩
    exact ⟨(followed_tracks s).close tracked, h.closeAll tracked⟩

theorem formed_start (size : Nat) :
  Formed [] (start .empty size)
  := by
  have bare (id : TypeId) : ((start .empty size).graph.get id).reference = none
      ∧ ((start .empty size).graph.get id).members = #[]
      ∧ ((start .empty size).graph.get id).kind ≠ .array := by
    rw [get_start]
    split
    · exact ⟨rfl, rfl, TypeKind.noConfusion⟩
    · split <;> exact ⟨rfl, rfl, TypeKind.noConfusion⟩
  constructor
  · exact fun l mem => absurd mem (Array.not_mem_empty l)
  · exact fun id owned => absurd (bare id).2.1 owned
  · exact fun id refers => absurd (bare id).1 refers
  · exact fun id kind => absurd kind (bare id).2.2

/-! ### After the walk -/

/-- Every array is one of those that some entry has made. -/
theorem Formed.exists_array (h : Formed visits d) (stacked : Stacked visits d.graph) {id : TypeId}
    (kind : (d.graph.get id).kind = .array) :
  ∃ v ∈ visits, (∃ record target, v.contribution = .array record target)
    ∧ Nested visits d.graph v.id id
  := by
  induction id using Nat.strongRecOn with
  | ind id ih =>
    rcases h.rooted id kind with ⟨v, mem, record, target, array, rfl⟩ | ⟨outer, reference⟩
    · exact ⟨v, mem, ⟨record, target, array⟩, .self⟩
    · have inner := stacked.inner outer id reference
      have outer_kind := h.array outer (by rw [reference]; exact Option.some_ne_none id)
      obtain ⟨v, mem, array, nested⟩ := ih outer inner.outer_lt outer_kind
      exact ⟨v, mem, array, nested.inner reference kind inner.unmade⟩

/-- The members for which a reference has been collected are those that there are. -/
theorem Tracks.mem_member_iff (h : Tracks visits [] d) (owner : TypeId) (place : Nat) :
  .member owner place ∈ d.links.toList.map Link.slot ↔ place < (d.graph.get owner).members.size
  := by
  constructor
  · intro mem
    exact h.waits (.member owner place) (d.waiting_nil.symm ▸ mem)
  · intro inside
    have added := h.members owner
    have found : place < (membersOf owner visits).length := by
      rw [added.length_eq, Array.length_toList]
      exact inside
    obtain ⟨-, adds⟩ := List.forall₂_iff_get.mp added
    obtain ⟨target, contribution⟩ := adds place found inside
    have refers : ((membersOf owner visits).get ⟨place, found⟩).reference = some target := by
      rw [Visit.reference, contribution]
      rfl
    have linked := h.link_of_member owner place _ (List.getElem?_eq_getElem found) target refers
    exact List.mem_map.mpr ⟨_, Array.mem_def.mp linked, rfl⟩

/-- After a walk the collected references are for different slots, each of which waits. -/
theorem Awaits.slots (h : Awaits [] d) :
  (d.links.toList.map Link.slot).Nodup
    ∧ ∀ slot ∈ d.links.toList.map Link.slot, slot.Waits d.graph
  := by
  rw [← d.waiting_nil]
  exact ⟨h.nodup, h.waits⟩

/-- One collected reference is for each record that has to refer to a type and does not yet. -/
theorem Awaits.count_reference (h : Awaits [] d) {id : TypeId}
    (refers : refersToType (d.graph.get id)) (missing : (d.graph.get id).reference = none) :
  (d.links.toList.map Link.slot).count (.reference id) = 1
  := by
  apply List.count_eq_one_of_mem h.slots.1
  rw [← d.waiting_nil]
  exact h.covered id (lt_nextId_of_refersToType refers) refers missing

/-- None is for a record that refers to a type. -/
theorem Awaits.count_of_reference (h : Awaits [] d) {id inner : TypeId}
    (reference : (d.graph.get id).reference = some inner) :
  (d.links.toList.map Link.slot).count (.reference id) = 0
  := by
  apply List.count_eq_zero_of_not_mem
  intro mem
  have missing := (h.slots.2 _ mem).2
  rw [reference] at missing
  cases missing

/-- One collected reference is for each member. -/
theorem Tracks.count_member (h : Tracks visits [] d) (owner : TypeId) (place : Nat) :
  (d.links.toList.map Link.slot).count (.member owner place)
    = if place < (d.graph.get owner).members.size then 1 else 0
  := by
  have iff := h.mem_member_iff owner place
  split
  next inside => exact List.count_eq_one_of_mem h.toAwaits.slots.1 (iff.mpr inside)
  next outside => exact List.count_eq_zero_of_not_mem fun mem => outside (iff.mp mem)

/-- An array refers to the next one of the arrays of its entry, or waits. -/
theorem Formed.array_cases (h : Formed visits d) (awaits : Awaits [] d)
    (stacked : Stacked visits d.graph) {id : TypeId} (kind : (d.graph.get id).kind = .array) :
  ∃ v ∈ visits, (∃ record target, v.contribution = .array record target)
    ∧ Nested visits d.graph v.id id
    ∧ ((∃ inner, (d.graph.get id).reference = some inner ∧ inner ≠ id
        ∧ (d.graph.get inner).kind = .array ∧ Nested visits d.graph v.id inner
        ∧ (d.links.toList.map Link.slot).count (.reference id) = 0)
      ∨ ((d.graph.get id).reference = none
        ∧ (d.links.toList.map Link.slot).count (.reference id) = 1))
  := by
  obtain ⟨v, mem, array, nested⟩ := h.exists_array stacked kind
  refine ⟨v, mem, array, nested, ?_⟩
  cases reference : (d.graph.get id).reference with
  | none =>
    refine .inr ⟨rfl, awaits.count_reference ?_ reference⟩
    rw [refersToType, kind]
    rfl
  | some inner =>
    have next := stacked.inner id inner reference
    exact .inl ⟨inner, rfl, Nat.ne_of_gt next.outer_lt, next.kind,
      nested.inner reference next.kind next.unmade, awaits.count_of_reference reference⟩

/-- Nothing else waits than what has to refer to a type, and members. -/
theorem Formed.slot_cases (h : Formed visits d) (awaits : Awaits [] d) {slot : Slot}
    (mem : slot ∈ d.links.toList.map Link.slot) :
  (∃ id < d.graph.nextId, slot = .reference id ∧ refersToType (d.graph.get id)
      ∧ (d.graph.get id).reference = none)
    ∨ ∃ owner place, slot = .member owner place ∧ OwnsMembers (d.graph.get owner)
      ∧ place < (d.graph.get owner).members.size
  := by
  have waiting := awaits.slots.2 slot mem
  obtain ⟨l, linked, rfl⟩ := List.mem_map.mp mem
  cases slot : l.slot with
  | reference id =>
    rw [slot] at waiting
    exact .inl ⟨id, waiting.1, rfl, h.refers l (Array.mem_def.mpr linked) id slot, waiting.2⟩
  | member owner place =>
    rw [slot] at waiting
    refine .inr ⟨owner, place, rfl, h.owner owner ?_, waiting⟩
    intro none
    have empty : (d.graph.get owner).members.size = 0 := by rw [none]; rfl
    exact Nat.not_lt_zero place (empty ▸ waiting)

/-! ### Setting the references -/

/-- Setting references takes no slot away. -/
theorem present_linkAll (links : List Link) {g : Graph} {slot : Slot} (h : slot.Present g) :
  slot.Present (d.linkAll links g).1
  := d.linkAll_preserves (P := slot.Present)
    (fun _ _ target other _ present => present_setSlot present target other) links h

/-- A reference is put into a slot that is there, and into which no other one is put. -/
theorem Awaits.put_once (h : Awaits [] d) {before after : List Link} {l : Link}
    (split : d.links.toList = before ++ l :: after) :
  l.slot.Present (d.linkAll before d.graph).1
    ∧ l.slot ∉ before.map Link.slot ∧ l.slot ∉ after.map Link.slot
  := by
  obtain ⟨distinct, waits⟩ := h.slots
  rw [split, List.map_append, List.map_cons] at distinct waits
  obtain ⟨-, later, others⟩ := List.nodup_append.mp distinct
  have waiting := waits l.slot (List.mem_append_right _ List.mem_cons_self)
  refine ⟨present_linkAll before waiting.present, fun earlier => ?_, (List.nodup_cons.mp later).1⟩
  exact others _ earlier _ List.mem_cons_self rfl

/-- When the references are set, each member refers to what its own one leads to. -/
theorem Tracks.member_put (h : Tracks visits [] d)
    (success : (d.linkAll d.links.toList d.graph).2 = none) {owner : TypeId} {place : Nat}
    {m : Member}
    (found : ((d.linkAll d.links.toList d.graph).1.get owner).members[place]? = some m) :
  ∃ l ∈ d.links, l.slot = .member owner place ∧ d.resolve? l.target = some m.reference
  := by
  have size_eq : ((d.linkAll d.links.toList d.graph).1.get owner).members.size
      = (d.graph.get owner).members.size :=
    field_linkAll (fun r => r.members.size) (fun _ _ => rfl) (fun _ _ _ => Array.size_modify) d
      d.links.toList d.graph owner
  have inside : place < (d.graph.get owner).members.size :=
    size_eq ▸ (Array.getElem?_eq_some_iff.mp found).1
  obtain ⟨l, mem, slot⟩ := List.mem_map.mp ((h.mem_member_iff owner place).mpr inside)
  obtain ⟨id, leads, holds⟩ := h.holds success (Array.mem_def.mpr mem)
  rw [slot, Slot.Holds, found] at holds
  refine ⟨l, Array.mem_def.mpr mem, slot, ?_⟩
  obtain rfl : m.reference = id := Option.some.inj holds
  exact (h.resolve?_iff l.target m.reference).mpr leads

end Decoding

namespace Sections

variable {s : Sections} {size : Nat} {d : Decoding}

/-- After a walk without a fault every type that is built on another one, every function and every
variable waits for one collected reference, except for an array that refers to the next one of the
arrays that the same entry has made.  Every member of a record waits for one as well, only structs,
unions and functions have members, and nothing else waits.  So a reference is put into a slot that
is there and that no other one is put into, and afterwards each member refers to what its own
reference leads to. -/
theorem pending_walk (walked : s.walk s.units .empty size = (d, none)) :
  let visits := s.visits s.units.items .empty size
  let slots := d.links.toList.map Link.slot
  let linked := d.linkAll d.links.toList d.graph
  (∀ id, (d.graph.get id).kind ∈ [.pointer, .typedef, .volatile, .const, .restrict, .function]
      ∨ (d.graph.get id).flags.object →
    slots.count (.reference id) = 1)
  ∧ (∀ id, (d.graph.get id).kind = .array →
    ∃ v ∈ visits, (∃ record target, v.contribution = .array record target)
      ∧ Nested visits d.graph v.id id
      ∧ ((∃ inner, (d.graph.get id).reference = some inner ∧ inner ≠ id
          ∧ (d.graph.get inner).kind = .array ∧ Nested visits d.graph v.id inner
          ∧ slots.count (.reference id) = 0)
        ∨ ((d.graph.get id).reference = none ∧ slots.count (.reference id) = 1)))
  ∧ (∀ owner place, slots.count (.member owner place)
    = if place < (d.graph.get owner).members.size then 1 else 0)
  ∧ (∀ slot ∈ slots, (∃ id < d.graph.nextId, slot = .reference id
      ∧ refersToType (d.graph.get id) ∧ (d.graph.get id).reference = none)
    ∨ ∃ owner place, slot = .member owner place ∧ OwnsMembers (d.graph.get owner)
      ∧ place < (d.graph.get owner).members.size)
  ∧ (∀ before l after, d.links.toList = before ++ l :: after →
    l.slot.Present (d.linkAll before d.graph).1
      ∧ l.slot ∉ before.map Link.slot ∧ l.slot ∉ after.map Link.slot)
  ∧ (linked.2 = none → ∀ owner place m, (linked.1.get owner).members[place]? = some m →
    ∃ l ∈ d.links, l.slot = .member owner place ∧ d.resolve? l.target = some m.reference)
  := by
  intro visits slots linked
  have spread : Decoding.Spread visits [] d := Decoding.spread_walk walked
  obtain ⟨⟨-, formed⟩, -⟩ := followed_walk (Decoding.followed_formed s)
    ⟨Decoding.tracks_start size, Decoding.formed_start size⟩ walked
  refine ⟨fun id kinds => ?_, fun id kind => formed.array_cases spread.toAwaits spread.stacked kind,
    spread.count_member, fun slot mem => formed.slot_cases spread.toAwaits mem,
    fun before l after split => spread.put_once split,
    fun success owner place m found => spread.member_put success found⟩
  have refers : refersToType (d.graph.get id) := by
    rw [refersToType, Bool.or_eq_true]
    have needs : ∀ kind ∈ [TypeKind.pointer, .typedef, .volatile, .const, .restrict, .function],
        kind.needsReference := by decide
    exact kinds.imp_left (needs _)
  apply spread.count_reference refers
  -- Only arrays have got a reference, and the record is none.
  apply Classical.byContradiction
  intro reference
  have array := formed.array id reference
  rcases kinds with kind | object
  · rw [array] at kind
    exact absurd kind (by decide)
  · have inside := Decoding.lt_nextId_of_refersToType refers
    exact kind_ne_array_of_object ((emits_walk walked).fresh.regular id inside) object array

/-- A pointer, a field, an array, a function with an argument, and a variable wait for their
types. -/
theorem pending_walk_sampleUnit :
  let d := (sampleUnit.walk sampleUnit.units .empty 8).1
  let slots := d.links.toList.map Link.slot
  sampleUnit.walk sampleUnit.units .empty 8 = (d, none)
    ∧ slots = [.reference 3, .member 4 0, .reference 5, .reference 6, .member 6 0, .reference 7]
    ∧ (d.graph.get 5).kind = .array ∧ (d.graph.get 5).reference = none
    ∧ slots.count (.reference 3) = 1 ∧ slots.count (.member 4 0) = 1
    ∧ slots.count (.member 4 1) = 0
  := by
  intro d slots
  have walked : sampleUnit.walk sampleUnit.units .empty 8 = (d, none) :=
    Prod.ext rfl (by decide +kernel)
  obtain ⟨built, -, members, -⟩ := pending_walk walked
  have size : (d.graph.get 4).members.size = 1 := by decide +kernel
  refine ⟨walked, by decide +kernel, by decide +kernel, by decide +kernel, ?_, ?_, ?_⟩
  · exact built 3 (.inl (by decide +kernel))
  · rw [members, size]
    rfl
  · rw [members, size]
    rfl

end Sections

end CompactTypes.Dwarf

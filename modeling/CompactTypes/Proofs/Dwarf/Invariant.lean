import CompactTypes.Proofs.Dwarf.Growth
import CompactTypes.Proofs.Dwarf.Visits
import Mathlib.Data.List.Forall2

/-!
# The invariant of a walk

`Decoding.Tracks visits scopes d` says how the state `d` of a walk follows from the visits so
far, while `scopes` are open.  It has two parts that can be looked at on their own:
`Decoding.Awaits scopes d` says that every slot that needs a reference waits for just one, and
`Decoding.Recalls visits d` what the visits have left behind: records, members, meanings of
entries, and collected references.  The invariant is kept when a scope ends, `Tracks.close`.
-/

namespace CompactTypes.Dwarf

/-- The position of the record that a visit has made. -/
def Visit.made? (v : Visit) : Option TypeId :=
  v.contribution.record?.map fun _ => v.id

/-- The slot that waits for the reference of an open array. -/
def Scope.slot? : Scope → Option Slot
  | .array id _ _ _ => some (.reference id)
  | .other | .aggregate _ | .enumeration _ | .function _ => none

/-- A scope belongs to a record of its kind, and an array to a visit. -/
def Scope.Belongs (visits : List Visit) (g : Graph) : Scope → Prop
  | .other => True
  | .aggregate id => id < g.nextId ∧ ((g.get id).kind = .struct ∨ (g.get id).kind = .union)
  | .enumeration id => id < g.nextId ∧ (g.get id).kind = .enum
  | .function id => id < g.nextId ∧ (g.get id).kind = .function
  | .array id entry target _ => id < g.nextId ∧ (g.get id).kind = .array
    ∧ ∃ v ∈ visits, v.offset = entry ∧ v.reference = some target

/-- The visits that have added a member to the record at a position. -/
def membersOf (owner : TypeId) (visits : List Visit) : List Visit :=
  visits.filter fun v => v.contribution.isMemberOf owner

/-- A visit adds a member to the record at a position. -/
def Visit.Adds (owner : TypeId) (v : Visit) (m : Member) : Prop :=
  ∃ target, v.contribution = .member owner m.name m.offset target

/-- The array at `last` is an inner array of the one at `outer`, or `outer` itself.  Inner
arrays are made for further dimensions, by no visit of their own. -/
inductive Nested (visits : List Visit) (g : Graph) (outer : TypeId) : TypeId → Prop where
  | self : Nested visits g outer outer
  | inner {middle last : TypeId} : Nested visits g outer middle →
    (g.get middle).reference = some last → (g.get last).kind = .array →
    (∀ v ∈ visits, v.made? ≠ some last) → Nested visits g outer last

variable {visits : List Visit}

/-- Inner arrays stay so in a graph that grows, as long as no visit makes them. -/
theorem Grows.nested {g g' : Graph} (h : Grows g g') {visits' : List Visit}
    (new : ∀ v ∈ visits', v ∈ visits ∨ ∀ id, v.made? = some id → g.nextId ≤ id)
    {outer last : TypeId} (nested : Nested visits g outer last) :
  Nested visits' g' outer last
  := by
  induction nested with
  | self => exact .self
  | @inner middle last _ reference kind unvisited ih =>
    have inside : last < g.nextId := lt_nextId_of_array kind
    apply Nested.inner ih (h.reference_eq middle last reference)
    · rw [h.kind_eq inside, kind]
    · intro v mem made
      rcases new v mem with old | new
      · exact unvisited v old made
      · exact Nat.not_le_of_lt inside (new last made)

theorem Grows.belongs {g g' : Graph} (h : Grows g g') {visits' : List Visit}
    (more : ∀ v ∈ visits, v ∈ visits') {scope : Scope} (belongs : scope.Belongs visits g) :
  scope.Belongs visits' g'
  := by
  have kept (id : TypeId) (inside : id < g.nextId) :
      id < g'.nextId ∧ (g'.get id).kind = (g.get id).kind :=
    ⟨Nat.lt_of_lt_of_le inside h.nextId_le, h.kind_eq inside⟩
  cases scope with
  | other => exact trivial
  | aggregate id | enumeration id | function id =>
    obtain ⟨inside, kind⟩ := belongs
    obtain ⟨inside, same⟩ := kept id inside
    exact ⟨inside, same ▸ kind⟩
  | array id entry target counts =>
    obtain ⟨inside, kind, v, mem, visited⟩ := belongs
    obtain ⟨inside, same⟩ := kept id inside
    exact ⟨inside, same ▸ kind, v, more v mem, visited⟩

/-- The record of a visit stays so in a graph that grows. -/
theorem Grows.made {g g' : Graph} (h : Grows g g') {v : Visit} {r : TypeRecord}
    (made : v.id < g.nextId ∧ core (g.get v.id) = core r) :
  v.id < g'.nextId ∧ core (g'.get v.id) = core r
  := ⟨Nat.lt_of_lt_of_le made.1 h.nextId_le, (h.core_eq v.id made.1).trans made.2⟩

namespace Decoding

/-- The slots that wait for a reference: those of the references that have been collected, and
those of open arrays. -/
def waiting (scopes : List Scope) (d : Decoding) : List Slot :=
  d.links.toList.map Link.slot ++ scopes.filterMap Scope.slot?

/-- Every slot that needs a reference waits for one, and for no more than one. -/
structure Awaits (scopes : List Scope) (d : Decoding) : Prop where
  allTypes_eq : d.graph.allTypes.toList = List.range d.graph.nextId
  nodup : (d.waiting scopes).Nodup
  waits : ∀ slot ∈ d.waiting scopes, slot.Waits d.graph
  covered : ∀ id < d.graph.nextId, refersToType (d.graph.get id) →
    (d.graph.get id).reference = none → .reference id ∈ d.waiting scopes

/-- What visits have left behind in the state of a walk. -/
structure Recalls (visits : List Visit) (d : Decoding) : Prop where
  void_eq : d.void = 0
  made : ∀ v ∈ visits, ∀ r, v.contribution.record? = some r →
    v.id < d.graph.nextId ∧ core (d.graph.get v.id) = core r
  meaning_iff : ∀ offset m, d.meanings[offset]? = some m ↔
    ∃ v ∈ visits, v.offset = offset ∧ v.meaning? = some m
  members : ∀ owner, List.Forall₂ (Visit.Adds owner) (membersOf owner visits)
    (d.graph.get owner).members.toList
  visit_of_link : ∀ l ∈ d.links, ∃ v ∈ visits, v.offset = l.entry ∧ v.reference = some l.target
  link_of_record : ∀ v ∈ visits, ∀ id target, v.made? = some id → v.reference = some target →
    (∃ record, v.contribution = .array record target)
      ∨ ⟨.reference id, v.offset, target⟩ ∈ d.links
  link_of_member : ∀ owner place v, (membersOf owner visits)[place]? = some v →
    ∀ target, v.reference = some target → ⟨.member owner place, v.offset, target⟩ ∈ d.links

/-- The state of a walk follows from the visits so far, while some scopes are open. -/
structure Tracks (visits : List Visit) (scopes : List Scope) (d : Decoding) : Prop
    extends Awaits scopes d, Recalls visits d where
  belongs : ∀ scope ∈ scopes, scope.Belongs visits d.graph
  link_of_array : ∀ v ∈ visits, ∀ record target, v.contribution = .array record target →
    ∃ last, Nested visits d.graph v.id last
      ∧ (⟨.reference last, v.offset, target⟩ ∈ d.links
        ∨ ∃ counts, .array last v.offset target counts ∈ scopes)

variable {scopes scopes' : List Scope} {d d' : Decoding}

theorem Recalls.made_lt (h : Recalls visits d) {v : Visit} (mem : v ∈ visits) {id : TypeId}
    (made : v.made? = some id) :
  id < d.graph.nextId
  := by
  obtain ⟨r, record, rfl⟩ := Option.map_eq_some_iff.mp made
  exact (h.made v mem r record).1

/-! ### Changes that keep what is tracked -/

theorem Awaits.transport (h : Awaits scopes d) (graph : Agrees d.graph d'.graph)
    (waiting_eq : d'.waiting scopes' = d.waiting scopes) :
  Awaits scopes' d'
  := by
  constructor
  · rw [graph.allTypes_eq, graph.nextId_eq]
    exact h.allTypes_eq
  · rw [waiting_eq]
    exact h.nodup
  · rw [waiting_eq]
    exact fun slot mem => graph.waits (h.waits slot mem)
  · intro id inside refers missing
    rw [graph.nextId_eq] at inside
    rw [refersToType_of_core (graph.core_eq id)] at refers
    rw [graph.reference_eq] at missing
    rw [waiting_eq]
    exact h.covered id inside refers missing

/-- A graph that grows without getting members recalls the same visits. -/
theorem Recalls.transport (h : Recalls visits d) (grows : Grows d.graph d'.graph)
    (members : ∀ id, (d'.graph.get id).members = (d.graph.get id).members)
    (void : d'.void = d.void) (meanings : d'.meanings = d.meanings) (links : d'.links = d.links) :
  Recalls visits d'
  := by
  constructor
  · exact void.trans h.void_eq
  · exact fun v mem r record => grows.made (h.made v mem r record)
  · rw [meanings]
    exact h.meaning_iff
  · intro owner
    rw [members]
    exact h.members owner
  · rw [links]
    exact h.visit_of_link
  · rw [links]
    exact h.link_of_record
  · rw [links]
    exact h.link_of_member

/-- What is tracked stays so if only other things change. -/
theorem Tracks.transport (h : Tracks visits scopes d) (graph : Agrees d.graph d'.graph)
    (void : d'.void = d.void) (meanings : d'.meanings = d.meanings) (links : d'.links = d.links) :
  Tracks visits scopes d'
  := by
  have waiting_eq : d'.waiting scopes = d.waiting scopes := by
    rw [waiting, waiting, links]
  refine ⟨h.toAwaits.transport graph waiting_eq,
    h.toRecalls.transport graph.grows graph.members_eq void meanings links, ?_, ?_⟩
  · exact fun scope mem => graph.grows.belongs (fun _ mem => mem) (h.belongs scope mem)
  · rw [links]
    intro v mem record target array
    obtain ⟨last, nested, linked⟩ := h.link_of_array v mem record target array
    exact ⟨last, graph.grows.nested (fun w hw => .inl hw) nested, linked⟩

/-- Other scopes can be open if the same slots wait for their references. -/
theorem Tracks.rescope (h : Tracks visits scopes d)
    (waiting_eq : d.waiting scopes' = d.waiting scopes)
    (belongs : ∀ scope ∈ scopes', scope.Belongs visits d.graph)
    (arrays : ∀ last entry target counts, .array last entry target counts ∈ scopes →
      ∃ counts', .array last entry target counts' ∈ scopes') :
  Tracks visits scopes' d
  := by
  refine ⟨h.toAwaits.transport (.refl d.graph) waiting_eq, h.toRecalls, belongs, ?_⟩
  intro v mem record target array
  obtain ⟨last, nested, linked | ⟨counts, opened⟩⟩ := h.link_of_array v mem record target array
  · exact ⟨last, nested, .inl linked⟩
  · exact ⟨last, nested, .inr (arrays last v.offset target counts opened)⟩

theorem waiting_cons_of_plain {scope : Scope} (plain : scope.slot? = none) (scopes : List Scope)
    (d : Decoding) :
  d.waiting (scope :: scopes) = d.waiting scopes
  := by
  rw [waiting, waiting, List.filterMap_cons_none plain]

/-- A scope that no slot waits for can be left out. -/
theorem Tracks.leave {scope : Scope} (h : Tracks visits (scope :: scopes) d)
    (plain : scope.slot? = none) :
  Tracks visits scopes d
  := by
  apply h.rescope (waiting_cons_of_plain plain scopes d).symm
  · exact fun scope mem => h.belongs scope (List.mem_cons_of_mem _ mem)
  · intro last entry target counts opened
    rcases List.mem_cons.mp opened with rfl | opened
    · cases plain
    · exact ⟨counts, opened⟩

/-- The scope of a record of its kind can be opened if no slot waits for it. -/
theorem Tracks.enter {scope : Scope} (h : Tracks visits scopes d) (plain : scope.slot? = none)
    (belongs : scope.Belongs visits d.graph) :
  Tracks visits (scope :: scopes) d
  := by
  apply h.rescope (waiting_cons_of_plain plain scopes d)
  · exact List.forall_mem_cons.mpr ⟨belongs, h.belongs⟩
  · exact fun _ _ _ counts opened => ⟨counts, List.mem_cons_of_mem _ opened⟩

/-- How many dimensions an open array has does not matter. -/
theorem Tracks.recount {id : TypeId} {entry : Nat} {target : Option Nat}
    {counts : List UInt32} (counts' : List UInt32)
    (h : Tracks visits (.array id entry target counts :: scopes) d) :
  Tracks visits (.array id entry target counts' :: scopes) d
  := by
  have waiting_eq : d.waiting (.array id entry target counts' :: scopes)
      = d.waiting (.array id entry target counts :: scopes) := rfl
  obtain ⟨here, others⟩ := List.forall_mem_cons.mp h.belongs
  apply h.rescope waiting_eq
  · exact List.forall_mem_cons.mpr ⟨here, others⟩
  · intro last entry' target' counts'' opened
    rcases List.mem_cons.mp opened with same | opened
    · cases same
      exact ⟨counts', List.mem_cons_self⟩
    · exact ⟨counts'', List.mem_cons_of_mem _ opened⟩

/-! ### Closing scopes -/

theorem Recalls.link (h : Recalls visits d) {entry : Nat} {target : Option Nat}
    (visited : ∃ v ∈ visits, v.offset = entry ∧ v.reference = some target) (slot : Slot) :
  Recalls visits (d.link slot entry target)
  := by
  have old (l : Link) (mem : l ∈ d.links) : l ∈ (d.link slot entry target).links :=
    Array.mem_push_of_mem _ mem
  constructor
  · exact h.void_eq
  · exact h.made
  · exact h.meaning_iff
  · exact h.members
  · intro l mem
    rcases Array.mem_push.mp mem with mem | rfl
    · exact h.visit_of_link l mem
    · exact visited
  · intro v mem id target made refers
    exact (h.link_of_record v mem id target made refers).imp_right (old _)
  · intro owner place v found target refers
    exact old _ (h.link_of_member owner place v found target refers)

/-- The type that an array refers to is collected for its innermost array. -/
theorem Tracks.link_array {id : TypeId} {entry : Nat} {target : Option Nat}
    {counts : List UInt32} (h : Tracks visits (.array id entry target counts :: scopes) d) :
  Tracks visits scopes (d.link (.reference id) entry target)
  := by
  have waiting_eq : (d.link (.reference id) entry target).waiting scopes
      = d.waiting (.array id entry target counts :: scopes) := by
    simp [waiting, Decoding.link, Scope.slot?]
  obtain ⟨⟨-, -, visited⟩, others⟩ := List.forall_mem_cons.mp h.belongs
  refine ⟨h.toAwaits.transport (.refl d.graph) waiting_eq, h.toRecalls.link visited _, others, ?_⟩
  intro v mem record target' array
  obtain ⟨last, nested, linked | ⟨counts', opened⟩⟩ := h.link_of_array v mem record target' array
  · exact ⟨last, nested, .inl (Array.mem_push_of_mem _ linked)⟩
  · rcases List.mem_cons.mp opened with same | opened
    · cases same
      exact ⟨_, nested, .inl Array.mem_push_self⟩
    · exact ⟨last, nested, .inr ⟨counts', opened⟩⟩

theorem waiting_perm (id : TypeId) (entry : Nat) (target : Option Nat) (counts : List UInt32)
    (scopes : List Scope) (d : Decoding) :
  (d.waiting (.array id entry target counts :: scopes)).Perm
    (.reference id :: (d.waiting scopes))
  := by
  simp only [waiting, List.filterMap_cons, Scope.slot?]
  exact List.perm_middle

/-- The slot of an open array waits, and no other reference does so for it. -/
theorem Awaits.array {id : TypeId} {entry : Nat} {target : Option Nat} {counts : List UInt32}
    (h : Awaits (.array id entry target counts :: scopes) d) :
  (Slot.reference id).Waits d.graph ∧ .reference id ∉ d.waiting scopes
    ∧ (d.waiting scopes).Nodup ∧ ∀ slot ∈ d.waiting scopes, slot.Waits d.graph
  := by
  have perm := waiting_perm id entry target counts scopes d
  obtain ⟨fresh, nodup⟩ := List.nodup_cons.mp (perm.nodup_iff.mp h.nodup)
  refine ⟨h.waits _ (perm.mem_iff.mpr List.mem_cons_self), fresh, nodup, fun slot mem => ?_⟩
  exact h.waits slot (perm.mem_iff.mpr (List.mem_cons_of_mem _ mem))

/-- One more dimension moves the slot that waits to a new inner array. -/
theorem Awaits.nest {outer : TypeId} {entry : Nat} {target : Option Nat}
    {counts : List UInt32} (counts' : List UInt32)
    (h : Awaits (.array outer entry target counts :: scopes) d)
    (graph : Nests d.graph d'.graph outer) (links : d'.links = d.links) :
  Awaits (.array d.graph.nextId entry target counts' :: scopes) d'
  := by
  obtain ⟨-, outer_fresh, others_nodup, others_wait⟩ := h.array
  have before := waiting_perm outer entry target counts scopes d
  have after := waiting_perm d.graph.nextId entry target counts' scopes d'
  have same_waiting : d'.waiting scopes = d.waiting scopes := by
    rw [waiting, waiting, links]
  rw [same_waiting] at after
  constructor
  · rw [graph.allTypes_eq, graph.nextId_eq, Array.toList_push, h.allTypes_eq, List.range_succ]
  · rw [after.nodup_iff, List.nodup_cons]
    exact ⟨fun mem => Nat.lt_irrefl _ (others_wait _ mem).1, others_nodup⟩
  · intro slot mem
    rcases List.mem_cons.mp (after.mem_iff.mp mem) with rfl | mem
    · exact ⟨graph.nextId_eq ▸ Nat.lt_succ_self _, graph.inner_reference⟩
    · have other : slot ≠ .reference outer := by
        rintro rfl
        exact outer_fresh mem
      exact graph.waits other (others_wait slot mem)
  · intro id hid refers missing
    rw [graph.nextId_eq] at hid
    apply after.mem_iff.mpr
    by_cases new : id = d.graph.nextId
    · rw [new]
      exact List.mem_cons_self
    · have old : id < d.graph.nextId := Nat.lt_of_le_of_ne (Nat.le_of_lt_succ hid) new
      have other : id ≠ outer := by
        rintro rfl
        rw [graph.outer_reference] at missing
        cases missing
      rw [refersToType_of_core (graph.core_eq id old)] at refers
      rw [graph.reference_eq id old other] at missing
      have waited := before.mem_iff.mp (h.covered id old refers missing)
      rcases List.mem_cons.mp waited with same | waited
      · cases same
        exact absurd rfl other
      · exact List.mem_cons_of_mem _ waited

theorem Tracks.nest {outer : TypeId} {entry : Nat} {target : Option Nat}
    {counts : List UInt32} (counts' : List UInt32)
    (h : Tracks visits (.array outer entry target counts :: scopes) d)
    (graph : Nests d.graph d'.graph outer) (void : d'.void = d.void)
    (meanings : d'.meanings = d.meanings) (links : d'.links = d.links) :
  Tracks visits (.array d.graph.nextId entry target counts' :: scopes) d'
  := by
  obtain ⟨⟨-, -, visited⟩, others⟩ := List.forall_mem_cons.mp h.belongs
  have grows := graph.grows h.toAwaits.array.1.2
  have inner_lt : d.graph.nextId < d'.graph.nextId := graph.nextId_eq ▸ Nat.lt_succ_self _
  refine ⟨h.toAwaits.nest counts' graph links,
    h.toRecalls.transport grows graph.members_eq void meanings links, ?_, ?_⟩
  · intro scope mem
    rcases List.mem_cons.mp mem with rfl | mem
    · exact ⟨inner_lt, graph.inner_kind, visited⟩
    · exact grows.belongs (fun _ mem => mem) (others scope mem)
  · rw [links]
    intro v mem record target' array
    obtain ⟨last, nested, linked⟩ := h.link_of_array v mem record target' array
    have kept := grows.nested (fun w hw => .inl hw) nested
    rcases linked with linked | ⟨counts'', opened⟩
    · exact ⟨last, kept, .inl linked⟩
    · rcases List.mem_cons.mp opened with same | opened
      · cases same
        refine ⟨_, .inner kept graph.outer_reference graph.inner_kind ?_,
          .inr ⟨counts', List.mem_cons_self⟩⟩
        exact fun w hw made => Nat.lt_irrefl _ (h.made_lt hw made)
      · exact ⟨last, kept, .inr ⟨counts'', List.mem_cons_of_mem _ opened⟩⟩

/-- The remaining dimensions of an array that ends become inner arrays. -/
theorem Tracks.nestArrays {outer : TypeId} {entry : Nat} {target : Option Nat}
    (counts : List UInt32) {met : List UInt32}
    (h : Tracks visits (.array outer entry target met :: scopes) d) :
  Tracks visits scopes (nestArrays entry target outer counts d)
  := by
  induction counts generalizing outer d with
  | nil => exact h.link_array
  | cons count counts ih =>
    obtain ⟨inside, -⟩ := h.belongs _ List.mem_cons_self
    have graph := nests_array d.graph inside count
    rw [Decoding.nestArrays]
    apply ih
    exact h.nest met graph rfl rfl rfl

/-- What is tracked stays so when the innermost scope ends. -/
theorem Tracks.close {scope : Scope} (h : Tracks visits (scope :: scopes) d) :
  Tracks visits scopes (d.close scope)
  := by
  cases scope with
  | other | aggregate | enumeration => exact h.leave rfl
  | function id =>
    have graph := agrees_count d.graph id fun r => UInt32.ofNat r.members.size
    exact (h.leave rfl).transport graph rfl rfl rfl
  | array id entry target counts =>
    have graph := agrees_count d.graph id fun _ => counts.reverse.headD 0
    have counted : Tracks visits (.array id entry target counts :: scopes)
        (d.update id fun r => { r with elementCount := counts.reverse.headD 0 }) :=
      h.transport graph rfl rfl rfl
    exact counted.nestArrays counts.reverse.tail

theorem Tracks.closeFrom (depth : Int) {open' : List (Int × Scope)}
    (h : Tracks visits (open'.map Prod.snd) d) :
  Tracks visits ((closeFrom depth open' d).scopes.map Prod.snd) (closeFrom depth open' d)
  := by
  induction open' generalizing d with
  | nil => exact h.transport (.refl _) rfl rfl rfl
  | cons first others ih =>
    obtain ⟨scopeDepth, scope⟩ := first
    rw [Decoding.closeFrom]
    split
    · exact h.transport (.refl _) rfl rfl rfl
    · exact ih h.close

theorem Tracks.closeAll {open' : List (Int × Scope)}
    (h : Tracks visits (open'.map Prod.snd) d) :
  Tracks visits [] (closeAll open' d)
  := by
  induction open' generalizing d with
  | nil => exact h.transport (.refl _) rfl rfl rfl
  | cons first others ih => exact ih h.close

end Decoding

end CompactTypes.Dwarf

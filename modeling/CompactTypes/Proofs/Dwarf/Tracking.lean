import CompactTypes.Proofs.Dwarf.Invariant

/-!
# The invariant at an entry

`Decoding.Leaves d d' v` says what a visit leaves behind, and `Tracks.append` that the invariant
is kept by a visit that leaves this behind.  It is shown for contributions without a record,
with one, and for members, and so for all contributions in `Tracks.add`.  Hence a visit keeps the
invariant, `Tracks.visit`, and so does the walk over all units, `tracks_walk`.
-/

namespace CompactTypes.Dwarf

namespace Contribution

variable {id : TypeId} {entry : Nat} {c : Contribution}

/-- The type that the record of a contribution refers to, unless it is an array. -/
def immediate? : Contribution → Option (Option Nat)
  | derived _ target | subroutine _ target | subprogram _ target | object _ target => some target
  | nothing | plain _ | array .. | aggregate _ | enumeration _ | dimension _ | member ..
  | enumerator .. | synonym _ => none

/-- The type that the record of a contribution refers to is known at once, unless the record is
an array. -/
theorem array_or_immediate {r : TypeRecord} {target : Option Nat} (record : c.record? = some r)
    (refers : c.reference = some target) :
  (∃ record, c = .array record target) ∨ c.immediate? = some target
  := by
  cases c with
  | nothing | dimension | member | enumerator | synonym => cases record
  | plain | aggregate | enumeration => cases refers
  | array record' =>
    cases refers
    exact .inl ⟨record', rfl⟩
  | derived | subroutine | subprogram | object => exact .inr refers

theorem reference_of_immediate? {target : Option Nat} (h : c.immediate? = some target) :
  c.reference = some target
  := by
  cases c <;> cases h <;> rfl

theorem isMemberOf_of_record? {r : TypeRecord} (h : c.record? = some r) (owner : TypeId) :
  c.isMemberOf owner = false
  := by
  cases c <;> first | rfl | cases h

end Contribution

theorem membersOf_append (owner : TypeId) (visits : List Visit) (v : Visit) :
  membersOf owner (visits ++ [v]) = membersOf owner visits
    ++ if v.contribution.isMemberOf owner then [v] else []
  := by
  rw [membersOf, List.filter_append]
  cases h : v.contribution.isMemberOf owner <;> simp [membersOf, h]

namespace Decoding

variable {visits : List Visit} {scopes : List Scope} {d d' : Decoding} {v : Visit}

/-! ### Meanings -/

/-- Of two states, the second knows in addition what references to a visited entry mean. -/
def Learns (d d' : Decoding) (v : Visit) : Prop :=
  ∀ offset m, d'.meanings[offset]? = some m ↔
    d.meanings[offset]? = some m ∨ (v.offset = offset ∧ v.meaning? = some m)

theorem learns_of_eq (same : d'.meanings = d.meanings) (h : v.meaning? = none) :
  Learns d d' v
  := by
  intro offset m
  simp [same, h]

theorem learns_of_insert {m : Meaning} (inserted : d'.meanings = d.meanings.insert v.offset m)
    (h : v.meaning? = some m) (fresh : d.meanings[v.offset]? = none) :
  Learns d d' v
  := by
  intro offset m'
  have entry :
      d'.meanings[offset]? = if v.offset = offset then some m else d.meanings[offset]? := by
    simp only [inserted, Std.TreeMap.getElem?_insert, Std.LawfulEqOrd.compare_eq_iff_eq]
  rw [entry]
  by_cases here : v.offset = offset
  · subst here
    simp [h, fresh]
  · simp [here]

theorem Recalls.meanings_eq_none (h : Recalls visits d)
    (fresh : ∀ w ∈ visits, w.offset ≠ v.offset) :
  d.meanings[v.offset]? = none
  := by
  cases found : d.meanings[v.offset]? with
  | none => rfl
  | some m =>
    obtain ⟨w, mem, same, -⟩ := (h.meaning_iff v.offset m).mp found
    exact absurd same (fresh w mem)

theorem learns_add (hid : v.id = d.graph.nextId) (unknown : d.meanings[v.offset]? = none) :
  Learns d (d.add v.offset v.contribution) v
  := by
  cases hc : v.contribution with
  | plain | derived | array | aggregate | enumeration | subroutine =>
    apply learns_of_insert (m := .record v.id) _ (by rw [Visit.meaning?, hc]; rfl) unknown
    rw [hid]
    rfl
  | synonym target =>
    exact learns_of_insert rfl (by rw [Visit.meaning?, hc]; rfl) unknown
  | nothing | subprogram | object | member | enumerator =>
    exact learns_of_eq rfl (by rw [Visit.meaning?, hc]; rfl)
  | dimension count =>
    apply learns_of_eq _ (by rw [Visit.meaning?, hc]; rfl)
    simp only [add, addDimension]
    split <;> rfl

/-! ### One more visit -/

/-- Of two states, the second has in addition what a visit leaves behind. -/
structure Leaves (d d' : Decoding) (v : Visit) : Prop where
  grows : Grows d.graph d'.graph
  void_eq : d'.void = d.void
  learns : Learns d d' v
  id_eq : v.id = d.graph.nextId
  made : ∀ r, v.contribution.record? = some r →
    v.id < d'.graph.nextId ∧ core (d'.graph.get v.id) = core r
  members : ∀ owner, ∃ added,
    (d'.graph.get owner).members.toList = (d.graph.get owner).members.toList ++ added
      ∧ List.Forall₂ (Visit.Adds owner) (if v.contribution.isMemberOf owner then [v] else []) added
  old_link : ∀ l ∈ d.links, l ∈ d'.links
  new_link : ∀ l ∈ d'.links, l ∈ d.links ∨ (v.offset = l.entry ∧ v.reference = some l.target)
  link_of_record : ∀ target, v.contribution.immediate? = some target →
    ⟨.reference v.id, v.offset, target⟩ ∈ d'.links
  link_of_member : ∀ owner target, v.contribution.isMemberOf owner → v.reference = some target →
    ⟨.member owner (d.graph.get owner).members.size, v.offset, target⟩ ∈ d'.links

theorem Leaves.made_le (h : Leaves d d' v) {id : TypeId} (made : v.made? = some id) :
  d.graph.nextId ≤ id
  := by
  obtain ⟨r, -, rfl⟩ := Option.map_eq_some_iff.mp made
  exact Nat.le_of_eq h.id_eq.symm

/-- What a visit leaves behind is recalled with what is there already. -/
theorem Recalls.append (h : Recalls visits d) (leaves : Leaves d d' v) :
  Recalls (visits ++ [v]) d'
  := by
  have old (w : Visit) (mem : w ∈ visits ++ [v]) : w ∈ visits ∨ w = v := by
    simpa using mem
  constructor
  · exact leaves.void_eq.trans h.void_eq
  · intro w mem r record
    rcases old w mem with mem | rfl
    · exact leaves.grows.made (h.made w mem r record)
    · exact leaves.made r record
  · intro offset m
    rw [leaves.learns, h.meaning_iff]
    simp only [List.mem_append, List.mem_singleton, or_and_right, exists_or, exists_eq_left]
  · intro owner
    obtain ⟨added, members, gained⟩ := leaves.members owner
    rw [membersOf_append, members]
    exact List.rel_append (h.members owner) gained
  · intro l mem
    rcases leaves.new_link l mem with mem | visited
    · obtain ⟨w, mem, visited⟩ := h.visit_of_link l mem
      exact ⟨w, List.mem_append_left _ mem, visited⟩
    · exact ⟨v, List.mem_append_right _ List.mem_cons_self, visited⟩
  · intro w mem id target made refers
    rcases old w mem with mem | rfl
    · exact (h.link_of_record w mem id target made refers).imp_right (leaves.old_link _)
    · obtain ⟨r, record, rfl⟩ := Option.map_eq_some_iff.mp made
      rcases Contribution.array_or_immediate record refers with array | immediate
      · exact .inl array
      · exact .inr (leaves.link_of_record target immediate)
  · intro owner place w found target refers
    have length_eq : (membersOf owner visits).length = (d.graph.get owner).members.size := by
      rw [(h.members owner).length_eq, Array.length_toList]
    rw [membersOf_append] at found
    by_cases earlier : place < (membersOf owner visits).length
    · rw [List.getElem?_append_left earlier] at found
      exact leaves.old_link _ (h.link_of_member owner place w found target refers)
    · rw [List.getElem?_append_right (Nat.le_of_not_lt earlier)] at found
      obtain ⟨member, first, rfl⟩ : v.contribution.isMemberOf owner
          ∧ place - (membersOf owner visits).length = 0 ∧ v = w := by
        split at found
        next member =>
          rw [List.getElem?_singleton] at found
          split at found
          next first => exact ⟨member, first, Option.some.inj found⟩
          next => cases found
        next => cases found
      have last : place = (d.graph.get owner).members.size := by omega
      rw [last]
      exact leaves.link_of_member owner target member refers

/-- What is tracked stays so with what a visit leaves behind, together with scopes that belong
to it. -/
theorem Tracks.append {new : List Scope} (h : Tracks visits scopes d) (leaves : Leaves d d' v)
    (awaits : Awaits (new ++ scopes) d')
    (belongs : ∀ scope ∈ new, scope.Belongs (visits ++ [v]) d'.graph)
    (opened : ∀ record target, v.contribution = .array record target →
      ∃ counts, .array v.id v.offset target counts ∈ new) :
  Tracks (visits ++ [v]) (new ++ scopes) d'
  := by
  have old (w : Visit) (mem : w ∈ visits ++ [v]) : w ∈ visits ∨ w = v := by
    simpa using mem
  refine ⟨awaits, h.toRecalls.append leaves, ?_, ?_⟩
  · intro scope mem
    rcases List.mem_append.mp mem with mem | mem
    · exact belongs scope mem
    · exact leaves.grows.belongs (fun w mem => List.mem_append_left _ mem) (h.belongs scope mem)
  · intro w mem record target array
    rcases old w mem with mem | rfl
    · obtain ⟨last, nested, linked⟩ := h.link_of_array w mem record target array
      have kept : Nested (visits ++ [v]) d'.graph w.id last := by
        refine leaves.grows.nested (fun w' mem' => ?_) nested
        rcases old w' mem' with mem' | rfl
        · exact .inl mem'
        · exact .inr fun id made => leaves.made_le made
      rcases linked with linked | ⟨counts, opened⟩
      · exact ⟨last, kept, .inl (leaves.old_link _ linked)⟩
      · exact ⟨last, kept, .inr ⟨counts, List.mem_append_right _ opened⟩⟩
    · obtain ⟨counts, opened⟩ := opened record target array
      exact ⟨w.id, .self, .inr ⟨counts, List.mem_append_left _ opened⟩⟩

/-- An entry that makes no record and refers to no type keeps what is tracked. -/
theorem Tracks.observe (h : Tracks visits scopes d) (hid : v.id = d.graph.nextId)
    (record : v.contribution.record? = none) (reference : v.reference = none)
    (graph : d'.graph = d.graph) (void : d'.void = d.void) (links : d'.links = d.links)
    (learns : Learns d d' v) :
  Tracks (visits ++ [v]) scopes d'
  := by
  have other (owner : TypeId) : v.contribution.isMemberOf owner = false := by
    cases hc : v.contribution with
    | member =>
      rw [Visit.reference, hc] at reference
      cases reference
    | _ => rfl
  have agrees : Agrees d.graph d'.graph := graph ▸ .refl d.graph
  have waiting_eq : d'.waiting scopes = d.waiting scopes := by
    rw [waiting, waiting, links]
  have leaves : Leaves d d' v := by
    refine ⟨agrees.grows, void, learns, hid, ?_, ?_, ?_, ?_, ?_, ?_⟩
    · intro r made
      rw [record] at made
      cases made
    · intro owner
      rw [graph, other]
      exact ⟨[], (List.append_nil _).symm, .nil⟩
    · exact fun l mem => links ▸ mem
    · exact fun l mem => .inl (links ▸ mem)
    · intro target immediate
      rw [Visit.reference, Contribution.reference_of_immediate? immediate] at reference
      cases reference
    · intro owner target member
      rw [other] at member
      cases member
  have awaits : Awaits ([] ++ scopes) d' := h.toAwaits.transport agrees waiting_eq
  apply h.append leaves awaits
  · exact fun scope mem => absurd mem List.not_mem_nil
  · intro record' target array
    rw [array] at record
    cases record

/-! ### Records -/

/-- The references that are collected at once for the record of a contribution. -/
def immediateLinks (v : Visit) : List Link :=
  v.contribution.immediate?.toList.map fun target => ⟨.reference v.id, v.offset, target⟩

theorem graph_add_record {c : Contribution} {r : TypeRecord} (record : c.record? = some r)
    (entry : Nat) :
  (d.add entry c).graph = d.graph.push r
  := by
  cases c <;> cases record <;> rfl

theorem links_add_record {r : TypeRecord} (record : v.contribution.record? = some r)
    (hid : v.id = d.graph.nextId) :
  (d.add v.offset v.contribution).links.toList = d.links.toList ++ immediateLinks v
  := by
  rw [immediateLinks, hid]
  cases hc : v.contribution <;> rw [hc] at record <;> cases record <;>
    simp [add, register, push, define, link, Contribution.immediate?]

theorem void_add (d : Decoding) (entry : Nat) (c : Contribution) :
  (d.add entry c).void = d.void
  := by
  cases c <;> simp only [add, addDimension] <;> first | rfl | (split <;> rfl)

theorem object_of_symbolClass? {r : TypeRecord} (h : r.symbolClass? = none) :
  r.flags.object = false
  := by
  rw [TypeRecord.symbolClass?] at h
  cases function : r.flags.function <;> cases object : r.flags.object <;>
    simp_all

theorem object_of_symbolClass?_object {r : TypeRecord} (h : r.symbolClass? = some .object) :
  r.flags.object = true
  := by
  rw [TypeRecord.symbolClass?] at h
  cases function : r.flags.function <;> cases object : r.flags.object <;>
    simp_all

/-- A new record waits for a reference exactly if it has to refer to a type. -/
theorem slots_of_record {r : TypeRecord} {parent : Option Scope}
    (record : v.contribution.record? = some r) (fits : v.contribution.Fits parent) :
  (immediateLinks v).map Link.slot
      ++ (opened v.id v.offset v.contribution).toList.filterMap Scope.slot?
    = if refersToType r then [.reference v.id] else []
  := by
  rw [immediateLinks, refersToType]
  cases hc : v.contribution with
  | nothing | dimension | member | enumerator | synonym =>
    rw [hc] at record
    cases record
  | plain =>
    rw [hc] at record fits
    cases record
    obtain ⟨-, hclass, kind | kind⟩ := fits <;> rw [kind, object_of_symbolClass? hclass] <;> rfl
  | aggregate =>
    rw [hc] at record fits
    cases record
    obtain ⟨-, hclass, kind | kind⟩ := fits <;> rw [kind, object_of_symbolClass? hclass] <;> rfl
  | enumeration =>
    rw [hc] at record fits
    cases record
    obtain ⟨-, hclass, kind⟩ := fits
    rw [kind, object_of_symbolClass? hclass]
    rfl
  | derived =>
    rw [hc] at record fits
    cases record
    obtain ⟨-, -, kind⟩ := fits
    simp only [Contribution.derivedKinds, List.mem_cons, List.not_mem_nil, or_false] at kind
    rcases kind with kind | kind | kind | kind | kind <;> rw [kind] <;> rfl
  | array =>
    rw [hc] at record fits
    cases record
    obtain ⟨-, -, kind⟩ := fits
    rw [kind]
    rfl
  | subroutine | subprogram =>
    rw [hc] at record fits
    cases record
    obtain ⟨-, -, kind⟩ := fits
    rw [kind]
    rfl
  | object =>
    rw [hc] at record fits
    cases record
    obtain ⟨-, hclass, -⟩ := fits
    rw [object_of_symbolClass?_object hclass, Bool.or_true]
    rfl

theorem bare_of_fits {c : Contribution} {r : TypeRecord} {parent : Option Scope}
    (record : c.record? = some r) (fits : c.Fits parent) :
  Bare r
  := by
  cases c <;> cases record <;> exact fits.1

/-- The scope that the record of a contribution opens belongs to it. -/
theorem belongs_opened {r : TypeRecord} {parent : Option Scope} {g : Graph}
    (record : v.contribution.record? = some r) (fits : v.contribution.Fits parent)
    (inside : v.id < g.nextId) (hget : g.get v.id = r) (mem : v ∈ visits) {scope : Scope}
    (hopened : opened v.id v.offset v.contribution = some scope) :
  scope.Belongs visits g
  := by
  cases hc : v.contribution with
  | nothing | dimension | member | enumerator | synonym | plain | derived | object =>
    rw [hc] at hopened
    cases hopened
  | aggregate =>
    rw [hc] at record fits hopened
    cases record
    cases hopened
    exact ⟨inside, hget ▸ fits.2.2⟩
  | enumeration | subroutine | subprogram =>
    rw [hc] at record fits hopened
    cases record
    cases hopened
    exact ⟨inside, hget ▸ fits.2.2⟩
  | array _ target =>
    have reference : v.reference = some target := by rw [Visit.reference, hc]; rfl
    rw [hc] at record fits hopened
    cases record
    cases hopened
    exact ⟨inside, hget ▸ fits.2.2, v, mem, rfl, reference⟩

theorem mem_links_add_record {r : TypeRecord} (record : v.contribution.record? = some r)
    (hid : v.id = d.graph.nextId) (l : Link) :
  l ∈ (d.add v.offset v.contribution).links ↔ l ∈ d.links ∨ l ∈ immediateLinks v
  := by
  rw [Array.mem_def, links_add_record record hid, List.mem_append, Array.mem_def]

/-- A record leaves itself behind, and the reference that is known at once. -/
theorem leaves_record {r : TypeRecord} (record : v.contribution.record? = some r) (bare : Bare r)
    (hid : v.id = d.graph.nextId) (learns : Learns d (d.add v.offset v.contribution) v) :
  Leaves d (d.add v.offset v.contribution) v
  := by
  have graph := graph_add_record (d := d) record v.offset
  have links := mem_links_add_record (d := d) record hid
  refine ⟨?_, void_add d v.offset v.contribution, learns, hid, ?_, ?_, ?_, ?_, ?_, ?_⟩
  · exact graph ▸ grows_push d.graph r
  · intro r' made
    rw [record] at made
    cases made
    rw [graph, Graph.nextId_push, Graph.get_push, if_pos hid, hid]
    exact ⟨Nat.lt_succ_self _, rfl⟩
  · intro owner
    rw [Contribution.isMemberOf_of_record? record, graph,
      d.graph.field_get_push TypeRecord.members bare.members]
    exact ⟨[], (List.append_nil _).symm, .nil⟩
  · exact fun l mem => (links l).mpr (.inl mem)
  · intro l mem
    apply ((links l).mp mem).imp_right
    intro mem
    obtain ⟨target, immediate, rfl⟩ := List.mem_map.mp mem
    exact ⟨rfl, Contribution.reference_of_immediate? (Option.mem_toList.mp immediate)⟩
  · intro target immediate
    exact (links _).mpr (.inr (List.mem_map_of_mem (Option.mem_toList.mpr immediate)))
  · intro owner target member
    rw [Contribution.isMemberOf_of_record? record] at member
    cases member

/-- A new record waits for a reference if it has to refer to a type, and the others go on. -/
theorem Awaits.record {r : TypeRecord} {parent : Option Scope} (h : Awaits scopes d)
    (record : v.contribution.record? = some r) (fits : v.contribution.Fits parent)
    (hid : v.id = d.graph.nextId) :
  Awaits ((opened v.id v.offset v.contribution).toList ++ scopes) (d.add v.offset v.contribution)
  := by
  have graph := graph_add_record (d := d) record v.offset
  have nextId_eq : (d.add v.offset v.contribution).graph.nextId = d.graph.nextId + 1 := by
    rw [graph, Graph.nextId_push]
  have waiting_perm : ((d.add v.offset v.contribution).waiting
      ((opened v.id v.offset v.contribution).toList ++ scopes)).Perm
      ((if refersToType r then [.reference v.id] else []) ++ d.waiting scopes) := by
    rw [waiting, links_add_record record hid, List.map_append, List.filterMap_append,
      ← slots_of_record record fits, waiting, List.append_assoc,
      ← List.append_assoc ((immediateLinks v).map Link.slot), ← List.append_assoc,
      ← List.append_assoc _ (d.links.toList.map Link.slot)]
    apply List.perm_append_comm.append_right
  constructor
  · rw [nextId_eq, graph, Graph.push, Array.toList_push, h.allTypes_eq, List.range_succ]
  · rw [waiting_perm.nodup_iff]
    split
    · refine List.nodup_cons.mpr ⟨fun mem => ?_, h.nodup⟩
      exact Nat.ne_of_lt (h.waits _ mem).1 hid
    · exact h.nodup
  · intro slot mem
    rcases List.mem_append.mp (waiting_perm.mem_iff.mp mem) with mem | mem
    · have same : slot = .reference v.id := by
        split at mem
        · exact List.mem_singleton.mp mem
        · cases mem
      rw [same, Slot.Waits, nextId_eq, graph, Graph.get_push, if_pos hid, hid]
      exact ⟨Nat.lt_succ_self _, (bare_of_fits record fits).reference⟩
    · exact graph ▸ waits_push r (h.waits slot mem)
  · intro id inside refers missing
    apply waiting_perm.mem_iff.mpr
    rw [graph, Graph.get_push] at refers missing
    by_cases new : id = d.graph.nextId
    · rw [if_pos new] at refers
      rw [if_pos refers, hid, new]
      exact List.mem_append_left _ List.mem_cons_self
    · rw [if_neg new] at refers missing
      rw [nextId_eq] at inside
      have old : id < d.graph.nextId := Nat.lt_of_le_of_ne (Nat.le_of_lt_succ inside) new
      exact List.mem_append_right _ (h.covered id old refers missing)

/-- An entry that makes a record keeps what is tracked. -/
theorem Tracks.record {r : TypeRecord} {parent : Option Scope} (h : Tracks visits scopes d)
    (record : v.contribution.record? = some r) (fits : v.contribution.Fits parent)
    (hid : v.id = d.graph.nextId) (learns : Learns d (d.add v.offset v.contribution) v) :
  Tracks (visits ++ [v]) ((opened v.id v.offset v.contribution).toList ++ scopes)
    (d.add v.offset v.contribution)
  := by
  have leaves := leaves_record record (bare_of_fits record fits) hid learns
  obtain ⟨inside, -⟩ := leaves.made r record
  have get_new : (d.add v.offset v.contribution).graph.get v.id = r := by
    rw [graph_add_record record, Graph.get_push, if_pos hid]
  apply h.append leaves (h.toAwaits.record record fits hid)
  · intro scope mem
    have last : v ∈ visits ++ [v] := List.mem_append_right _ List.mem_cons_self
    exact belongs_opened record fits inside get_new last (Option.mem_toList.mp mem)
  · intro record' target array
    rw [array]
    exact ⟨[], List.mem_cons_self⟩

/-! ### Members -/

section member

variable {owner : TypeId} {name : Option String} {offset : UInt64} {target : Option Nat}

/-- A member leaves itself behind in its record, and its reference. -/
theorem leaves_member (inside : owner < d.graph.nextId) (hid : v.id = d.graph.nextId)
    (hc : v.contribution = .member owner name offset target)
    (learns : Learns d (d.addMember owner name offset v.offset target) v) :
  Leaves d (d.addMember owner name offset v.offset target) v
  := by
  have gains := gains_update d.graph inside ⟨name, d.void, offset⟩
  have reference : v.reference = some target := by rw [Visit.reference, hc]; rfl
  refine ⟨gains.grows, rfl, learns, hid, ?_, ?_, ?_, ?_, ?_, ?_⟩
  · intro r made
    rw [hc] at made
    cases made
  · intro owner'
    refine ⟨_, gains.members_eq owner', ?_⟩
    rw [hc, Contribution.isMemberOf]
    by_cases same : owner' = owner
    · rw [if_pos same, if_pos (by simp [same])]
      exact .cons ⟨target, same ▸ hc⟩ .nil
    · rw [if_neg same, if_neg (by simpa using Ne.symm same)]
      exact .nil
  · exact fun l mem => Array.mem_push_of_mem _ mem
  · intro l mem
    rcases Array.mem_push.mp mem with mem | rfl
    · exact .inl mem
    · exact .inr ⟨rfl, reference⟩
  · intro target' immediate
    rw [hc] at immediate
    cases immediate
  · intro owner' target' member refers
    rw [hc, Contribution.isMemberOf, decide_eq_true_eq] at member
    subst member
    rw [reference] at refers
    cases refers
    exact Array.mem_push_self

/-- A new member waits for its reference, and the others go on. -/
theorem Awaits.member (h : Awaits scopes d) (inside : owner < d.graph.nextId) (entry : Nat) :
  Awaits scopes (d.addMember owner name offset entry target)
  := by
  have gains := gains_update d.graph inside ⟨name, d.void, offset⟩
  have waiting_perm : ((d.addMember owner name offset entry target).waiting scopes).Perm
      (.member owner (d.graph.get owner).members.size :: d.waiting scopes) := by
    simp only [waiting, addMember, link, update, Array.toList_push, List.map_append, List.map_cons,
      List.map_nil, List.append_assoc, List.singleton_append]
    exact List.perm_middle
  constructor
  · exact h.allTypes_eq.trans (congrArg List.range gains.nextId_eq.symm)
  · rw [waiting_perm.nodup_iff, List.nodup_cons]
    exact ⟨fun mem => Nat.lt_irrefl _ (h.waits _ mem), h.nodup⟩
  · intro slot mem
    rcases List.mem_cons.mp (waiting_perm.mem_iff.mp mem) with rfl | mem
    · exact gains.waits_member
    · exact gains.waits (h.waits slot mem)
  · intro id hid refers missing
    apply waiting_perm.mem_iff.mpr
    apply List.mem_cons_of_mem
    apply h.covered id (gains.nextId_eq ▸ hid)
    · exact (refersToType_of_core (gains.core_eq id)).symm.trans refers
    · exact (gains.reference_eq id).symm.trans missing

/-- An entry that is a member of an open record keeps what is tracked. -/
theorem Tracks.member (h : Tracks visits scopes d) (inside : owner < d.graph.nextId)
    (hid : v.id = d.graph.nextId) (hc : v.contribution = .member owner name offset target)
    (learns : Learns d (d.addMember owner name offset v.offset target) v) :
  Tracks (visits ++ [v]) scopes (d.addMember owner name offset v.offset target)
  := by
  have leaves := leaves_member inside hid hc learns
  have awaits : Awaits ([] ++ scopes) (d.addMember owner name offset v.offset target) :=
    h.toAwaits.member inside v.offset
  apply h.append leaves awaits
  · exact fun scope mem => absurd mem List.not_mem_nil
  · intro record target' array
    rw [hc] at array
    cases array

end member

/-! ### Visits -/

/-- A contribution that fits the scope of the parent keeps what is tracked. -/
theorem Tracks.add {parent : Option Scope} (h : Tracks visits (d.scopes.map Prod.snd) d)
    (hid : v.id = d.graph.nextId) (fresh : ∀ w ∈ visits, w.offset ≠ v.offset)
    (fits : v.contribution.Fits parent)
    (hparent : ∀ scope, parent = some scope → scope ∈ d.scopes.map Prod.snd) :
  Tracks (visits ++ [v]) ((opened v.id v.offset v.contribution).toList
    ++ (d.add v.offset v.contribution).scopes.map Prod.snd) (d.add v.offset v.contribution)
  := by
  have learns := learns_add hid (h.meanings_eq_none fresh)
  have meaning (hm : v.contribution.meaning? v.id = none) : Learns d d v := learns_of_eq rfl hm
  cases hc : v.contribution with
  | plain | derived | array | aggregate | enumeration | subroutine | subprogram | object =>
    have tracked := h.record (r := _) (by rw [hc]; rfl) fits hid learns
    rw [hc] at tracked
    exact tracked
  | nothing =>
    exact h.observe hid (by rw [hc]; rfl) (by rw [Visit.reference, hc]; rfl) rfl rfl rfl
      (meaning (by rw [hc]; rfl))
  | synonym target =>
    rw [hc] at learns
    exact h.observe hid (by rw [hc]; rfl) (by rw [Visit.reference, hc]; rfl) rfl rfl rfl learns
  | enumerator owner entry =>
    have graph := agrees_addEnumerator d.graph owner entry
    have updated : Tracks visits (d.scopes.map Prod.snd) (d.update owner (·.addEnumerator entry)) :=
      h.transport graph rfl rfl rfl
    exact updated.observe (hid.trans graph.nextId_eq.symm) (by rw [hc]; rfl)
      (by rw [Visit.reference, hc]; rfl) rfl rfl rfl
      (learns_of_eq rfl (by rw [Visit.meaning?, hc]; rfl))
  | member owner name offset target =>
    rw [hc] at fits learns
    have inside : owner < d.graph.nextId := by
      rcases fits with hscope | hscope
      · exact (h.belongs _ (hparent _ hscope)).1
      · exact (h.belongs _ (hparent _ hscope)).1
    exact h.member inside hid hc learns
  | dimension count =>
    have observed : Tracks (visits ++ [v]) (d.scopes.map Prod.snd) d :=
      h.observe hid (by rw [hc]; rfl) (by rw [Visit.reference, hc]; rfl) rfl rfl rfl
        (meaning (by rw [hc]; rfl))
    change Tracks (visits ++ [v]) ((d.addDimension count).scopes.map Prod.snd)
      (d.addDimension count)
    unfold addDimension
    split
    next depth id entry target counts rest hscopes =>
      rw [hscopes] at observed
      exact (observed.recount (count :: counts)).transport (.refl _) rfl rfl rfl
    next => exact observed

theorem scopes_nestArrays (entry : Nat) (target : Option Nat) (counts : List UInt32)
    (outer : TypeId) (d : Decoding) :
  (nestArrays entry target outer counts d).scopes = d.scopes
  := by
  induction counts generalizing outer d with
  | nil => rfl
  | cons count counts ih =>
    rw [nestArrays, ih]
    rfl

theorem scopes_close (scope : Scope) (d : Decoding) :
  (d.close scope).scopes = d.scopes
  := by
  cases scope with
  | other | aggregate | enumeration | function => rfl
  | array id entry target counts => exact scopes_nestArrays entry target _ id _

/-- The scope that a contribution opens stays open if the entry has children. -/
theorem Tracks.enterEntry {scope : Option Scope}
    (h : Tracks visits (scope.toList ++ d.scopes.map Prod.snd) d) (depth : Int)
    (hasChildren : Bool) :
  Tracks visits ((d.enter depth hasChildren scope).scopes.map Prod.snd)
    (d.enter depth hasChildren scope)
  := by
  unfold Decoding.enter
  split
  next =>
    cases scope with
    | none =>
      have opened : Tracks visits (.other :: d.scopes.map Prod.snd) d := h.enter rfl trivial
      exact opened.transport (.refl _) rfl rfl rfl
    | some scope => exact h.transport (.refl _) rfl rfl rfl
  next =>
    cases scope with
    | none => exact h
    | some scope =>
      have closed := h.close
      rw [← scopes_close scope d] at closed
      exact closed

theorem parentScope_mem {depth : Int} {scope : Scope} (h : d.parentScope depth = some scope) :
  scope ∈ d.scopes.map Prod.snd
  := by
  rw [parentScope] at h
  split at h
  next scopeDepth scope' rest hscopes =>
    split at h
    · cases h
      rw [hscopes]
      exact List.mem_cons_self
    · cases h
  next => cases h

variable {s : Sections} {u : CompilationUnit}

/-- A visit keeps what is tracked, and is tracked itself. -/
theorem Tracks.visit {depth : Int} {e : Entry}
    (h : Tracks visits (d.scopes.map Prod.snd) d) (hv : d.visitOf? s u depth e = .ok v)
    (fresh : ∀ w ∈ visits, w.offset ≠ v.offset) :
  Tracks (visits ++ [v]) ((d.visit s u depth e).1.scopes.map Prod.snd) (d.visit s u depth e).1
  := by
  obtain ⟨-, hdepth, -, faithful, hparent, hid, notices, result⟩ := visit_of_ok hv
  rw [result]
  subst hdepth
  have arrived : Tracks visits (((d.arrive v.depth).note notices).scopes.map Prod.snd)
      ((d.arrive v.depth).note notices) := (h.closeFrom v.depth).transport (.refl _) rfl rfl rfl
  have added := arrived.add hid fresh (Contribution.fits_read faithful) fun scope found =>
    parentScope_mem (hparent ▸ found)
  exact added.enterEntry v.depth v.entry.hasChildren

/-- What is tracked stays so throughout a walk without a fault. -/
theorem followed_tracks (s : Sections) :
  Followed s fun visits d => Tracks visits (d.scopes.map Prod.snd) d
  := by
  constructor
  · exact fun h hv fresh => h.visit hv fresh
  · intro visits d h
    rw [scopes_closeAll]
    exact h.closeAll

theorem get_start (indexSize : Nat) (id : TypeId) :
  (start .empty indexSize).graph.get id
    = if id = 1 then indexRecord indexSize else if id = 0 then voidRecord else default
  := by
  change ((Graph.empty.push voidRecord).push (indexRecord indexSize)).get id = _
  rw [Graph.get_push, Graph.get_push]
  rfl

/-- The two records at the start of a walk refer to no type and have no members. -/
theorem tracks_start (indexSize : Nat) :
  Tracks [] [] (start .empty indexSize)
  := by
  have awaits : Awaits [] (start .empty indexSize) := by
    refine ⟨rfl, List.nodup_nil, fun slot mem => absurd mem List.not_mem_nil, ?_⟩
    intro id _ refers
    rw [get_start] at refers
    split at refers
    · cases refers
    · split at refers <;> cases refers
  have recalls : Recalls [] (start .empty indexSize) := by
    constructor
    · rfl
    · exact fun v mem => absurd mem List.not_mem_nil
    · intro offset m
      simp [start]
    · intro owner
      rw [get_start]
      split
      · exact .nil
      · split <;> exact .nil
    · exact fun l mem => absurd mem (Array.not_mem_empty l)
    · exact fun v mem => absurd mem List.not_mem_nil
    · intro owner place v found
      cases found
  refine ⟨awaits, recalls, ?_, ?_⟩
  · exact fun scope mem => absurd mem List.not_mem_nil
  · exact fun v mem => absurd mem List.not_mem_nil

/-- The state after a walk over all units without a fault follows from its visits. -/
theorem tracks_walk {indexSize : Nat} (walked : s.walk s.units .empty indexSize = (d, none)) :
  Tracks (s.visits s.units.items .empty indexSize) [] d
  := by
  obtain ⟨tracked, closed⟩ := Sections.followed_walk (followed_tracks s) (tracks_start indexSize)
    walked
  rw [closed] at tracked
  exact tracked

end Decoding

end CompactTypes.Dwarf

import CompactTypes.Proofs.Dwarf.Children

/-!
# Records that are finished at the end of a unit

While the scope of a function or of an array is open, its record is `Unfinished`: the length of the
function is not known, and the array refers to nothing yet.  When the scope ends, it is `Finished`,
once and for all.  `Decoding.Settles` says that each record that a walk has made is in one of these
two states, and no open scope shares its record with another one.  So at the end of a unit, where no
scope is open, all records are finished, `Settles.finished_of_nil`.  Nothing is said of the offsets
of the entries, two of which could be the same.
-/

namespace CompactTypes.Dwarf

/-- The position of the record of a scope, and the kinds of which it can be. -/
def Scope.subject? : Scope → Option (TypeId × List TypeKind)
  | other => none
  | aggregate id => some (id, [.struct, .union])
  | enumeration id => some (id, [.enum])
  | function id => some (id, [.function])
  | array id _ _ _ => some (id, [.array])

/-- The records of open scopes. -/
def subjects (scopes : List (Int × Scope)) : List (TypeId × List TypeKind) :=
  scopes.filterMap fun item => item.2.subject?

/-- The record at a position waits for the end of its scope. -/
structure Unfinished (kinds : List TypeKind) (g : Graph) (slots : List Slot) (id : TypeId) :
    Prop where
  inside : id < g.nextId
  kind : (g.get id).kind ∈ kinds
  array : (g.get id).kind = .array → (g.get id).reference = none ∧ slots.count (.reference id) = 0

/-- The record at a position has got what the end of its scope adds: a function the number of its
arguments, and an array either the next one of the arrays of its entry, or one collected reference
that is for it. -/
structure Finished (g : Graph) (slots : List Slot) (id : TypeId) : Prop where
  function : (g.get id).kind = .function →
    (g.get id).elementCount = UInt32.ofNat (g.get id).members.size
  array : (g.get id).kind = .array →
    (∃ inner, (g.get id).reference = some inner ∧ (g.get inner).kind = .array
      ∧ slots.count (.reference id) = 0)
    ∨ ((g.get id).reference = none ∧ slots.count (.reference id) = 1)

theorem Finished.of_kind {g : Graph} {id : TypeId} (function : (g.get id).kind ≠ .function)
    (array : (g.get id).kind ≠ .array) (slots : List Slot) :
  Finished g slots id
  := ⟨fun kind => absurd kind function, fun kind => absurd kind array⟩

theorem Scope.subject?_withCounts (counts : List UInt32) (scope : Scope) :
  (scope.withCounts counts).subject? = scope.subject?
  := by
  cases scope <;> rfl

theorem subjects_modifyHead (counts : List UInt32) (scopes : List (Int × Scope)) :
  subjects (scopes.modifyHead fun item => (item.1, item.2.withCounts counts)) = subjects scopes
  := by
  cases scopes with
  | nil => rfl
  | cons first scopes =>
    simp only [subjects, List.modifyHead_cons, List.filterMap_cons, Scope.subject?_withCounts]

namespace Decoding

/-- The slots for which references have been collected since there were that many. -/
def slotsSince (start : Nat) (d : Decoding) : List Slot :=
  (d.links.toList.drop start).map Link.slot

/-- Each record from `first` on is finished or has an open scope, and no two scopes have the same
record.  The references are those that have been collected since there were `start` of them. -/
structure Settles (first : TypeId) (start : Nat) (open' : List (TypeId × List TypeKind))
    (d : Decoding) : Prop where
  start_le : start ≤ d.links.size
  inside : ∀ id, .reference id ∈ d.slotsSince start → id < d.graph.nextId
  nodup : (open'.map Prod.fst).Nodup
  unfinished : ∀ id kinds, (id, kinds) ∈ open' → Unfinished kinds d.graph (d.slotsSince start) id
  finished : ∀ id, first ≤ id → id < d.graph.nextId → id ∉ open'.map Prod.fst →
    Finished d.graph (d.slotsSince start) id

variable {first : TypeId} {start : Nat} {open' open'' : List (TypeId × List TypeKind)}
  {d d' : Decoding}

theorem slotsSince_of_links {more : List Link} (start_le : start ≤ d.links.size)
    (links : d'.links.toList = d.links.toList ++ more) :
  d'.slotsSince start = d.slotsSince start ++ more.map Link.slot
  := by
  rw [slotsSince, slotsSince, links, List.drop_append_of_le_length start_le, List.map_append]

theorem Settles.count_of_le (h : Settles first start open' d) {id : TypeId}
    (new : d.graph.nextId ≤ id) :
  (d.slotsSince start).count (.reference id) = 0
  := List.count_eq_zero_of_not_mem fun mem => Nat.not_lt_of_le new (h.inside id mem)

theorem Settles.not_mem_of_le (h : Settles first start open' d) {id : TypeId}
    (new : d.graph.nextId ≤ id) :
  id ∉ open'.map Prod.fst
  := by
  intro mem
  obtain ⟨⟨id, kinds⟩, subject, rfl⟩ := List.mem_map.mp mem
  exact Nat.not_lt_of_le new (h.unfinished id kinds subject).inside

/-- Among the records that have been there before, a change concerns one at most.  All others are
in the state in which they were. -/
theorem Settles.change (h : Settles first start open' d) {changed? : Option TypeId}
    (more : List Link) (spares : Spares changed? d d')
    (kinds : ∀ id < d.graph.nextId, (d'.graph.get id).kind = (d.graph.get id).kind)
    (links : d'.links.toList = d.links.toList ++ more)
    (slots : ∀ l ∈ more, ∀ id, l.slot = .reference id →
      id < d'.graph.nextId ∧ (changed? = some id ∨ d.graph.nextId ≤ id))
    (nodup : (open''.map Prod.fst).Nodup)
    (unfinished : ∀ id kinds, (id, kinds) ∈ open'' → ((id, kinds) ∈ open' ∧ changed? ≠ some id)
      ∨ Unfinished kinds d'.graph (d'.slotsSince start) id)
    (finished : ∀ id, first ≤ id → id < d'.graph.nextId → id ∉ open''.map Prod.fst →
      (id < d.graph.nextId ∧ id ∉ open'.map Prod.fst ∧ changed? ≠ some id)
        ∨ Finished d'.graph (d'.slotsSince start) id) :
  Settles first start open'' d'
  := by
  have slots_eq := slotsSince_of_links h.start_le links
  have same (id : TypeId) (inside : id < d.graph.nextId) (other : changed? ≠ some id) :
      d'.graph.get id = d.graph.get id ∧ (d'.slotsSince start).count (.reference id)
        = (d.slotsSince start).count (.reference id) := by
    refine ⟨spares.get_eq id inside other, ?_⟩
    rw [slots_eq, List.count_append, Nat.add_eq_left]
    apply List.count_eq_zero_of_not_mem
    intro mem
    obtain ⟨l, mem, slot⟩ := List.mem_map.mp mem
    rcases (slots l mem id slot).2 with changed | new
    · exact other changed
    · exact Nat.not_lt_of_le new inside
  constructor
  · have longer := congrArg List.length links
    rw [List.length_append, Array.length_toList, Array.length_toList] at longer
    have start_le := h.start_le
    omega
  · intro id mem
    rw [slots_eq, List.mem_append] at mem
    rcases mem with old | new
    · exact Nat.lt_of_lt_of_le (h.inside id old) spares.nextId_le
    · obtain ⟨l, mem, slot⟩ := List.mem_map.mp new
      exact (slots l mem id slot).1
  · exact nodup
  · intro id kinds' mem
    rcases unfinished id kinds' mem with ⟨old, other⟩ | new
    · obtain ⟨inside, kind, array⟩ := h.unfinished id kinds' old
      obtain ⟨record, count⟩ := same id inside other
      refine ⟨Nat.lt_of_lt_of_le inside spares.nextId_le, ?_, ?_⟩
      · rw [record]
        exact kind
      · rw [record, count]
        exact array
    · exact new
  · intro id after inside closed
    rcases finished id after inside closed with ⟨inside, old, other⟩ | new
    · obtain ⟨function, array⟩ := h.finished id after inside old
      obtain ⟨record, count⟩ := same id inside other
      constructor
      · rw [record]
        exact function
      · rw [record, count]
        intro kind
        refine (array kind).imp_left ?_
        rintro ⟨inner, reference, inner_kind, none⟩
        have kept := kinds inner (lt_nextId_of_array inner_kind)
        exact ⟨inner, reference, kept.trans inner_kind, none⟩
    · exact new

/-- Nothing but the scopes has changed. -/
theorem Settles.transport (h : Settles first start open' d) (graph : d'.graph = d.graph)
    (links : d'.links = d.links) :
  Settles first start open' d'
  := by
  obtain ⟨start_le, inside, nodup, unfinished, finished⟩ := h
  constructor
  · rw [links]
    exact start_le
  · rw [slotsSince, links, graph]
    exact inside
  · exact nodup
  · rw [slotsSince, links, graph]
    exact unfinished
  · rw [slotsSince, links, graph]
    exact finished

/-- The record of an open scope has changed, and still waits. -/
theorem Settles.touch (h : Settles first start open' d) {owner : TypeId} (more : List Link)
    (mem : owner ∈ open'.map Prod.fst) (spares : Spares (some owner) d d')
    (nextId : d'.graph.nextId = d.graph.nextId)
    (kinds : ∀ id < d.graph.nextId, (d'.graph.get id).kind = (d.graph.get id).kind)
    (reference : (d'.graph.get owner).reference = (d.graph.get owner).reference)
    (links : d'.links.toList = d.links.toList ++ more)
    (slots : ∀ l ∈ more, ∀ id, l.slot ≠ .reference id) :
  Settles first start open' d'
  := by
  apply h.change more spares kinds links
  · exact fun l mem id slot => absurd slot (slots l mem id)
  · exact h.nodup
  · intro id kinds' opened
    by_cases here : id = owner
    · subst here
      obtain ⟨inside, kind, array⟩ := h.unfinished id kinds' opened
      have none : (more.map Link.slot).count (.reference id) = 0 := by
        apply List.count_eq_zero_of_not_mem
        intro listed
        obtain ⟨l, listed, slot⟩ := List.mem_map.mp listed
        exact slots l listed id slot
      refine .inr ⟨nextId.symm ▸ inside, (kinds id inside).symm ▸ kind, ?_⟩
      rw [kinds id inside, reference, slotsSince_of_links h.start_le links, List.count_append, none]
      exact array
    · exact .inl ⟨opened, fun same => here (Option.some.inj same).symm⟩
  · intro id _ inside closed
    refine .inl ⟨nextId ▸ inside, closed, fun same => ?_⟩
    cases same
    exact closed mem

/-! ### Closing scopes -/

/-- A scope has ended, and its record is finished. -/
theorem Settles.leave {owner : TypeId} {kinds : List TypeKind}
    (h : Settles first start ((owner, kinds) :: open') d) (more : List Link)
    (spares : Spares (some owner) d d') (nextId : d'.graph.nextId = d.graph.nextId)
    (kind_eq : ∀ id < d.graph.nextId, (d'.graph.get id).kind = (d.graph.get id).kind)
    (links : d'.links.toList = d.links.toList ++ more)
    (slots : ∀ l ∈ more, l.slot = .reference owner)
    (done : Finished d'.graph (d'.slotsSince start) owner) :
  Settles first start open' d'
  := by
  obtain ⟨fresh, nodup⟩ := List.nodup_cons.mp h.nodup
  have inside := (h.unfinished owner kinds List.mem_cons_self).inside
  apply h.change more spares kind_eq links
  · intro l mem id slot
    cases (slots l mem).symm.trans slot
    exact ⟨nextId.symm ▸ inside, .inl rfl⟩
  · exact nodup
  · intro id kinds' opened
    refine .inl ⟨List.mem_cons_of_mem _ opened, fun same => ?_⟩
    cases same
    exact fresh (List.mem_map.mpr ⟨_, opened, rfl⟩)
  · intro id _ inside closed
    by_cases here : id = owner
    · exact .inr (here ▸ done)
    · refine .inl ⟨nextId ▸ inside, fun mem => ?_, fun same => here (Option.some.inj same).symm⟩
      exact (List.mem_cons.mp mem).elim here closed

/-- The record of a scope that adds nothing is finished as it is. -/
theorem Settles.leave_plain {owner : TypeId} {kinds : List TypeKind}
    (h : Settles first start ((owner, kinds) :: open') d)
    (plain : ∀ kind ∈ kinds, kind ≠ .function ∧ kind ≠ .array) :
  Settles first start open' d
  := by
  obtain ⟨function, array⟩ := plain _ (h.unfinished owner kinds List.mem_cons_self).kind
  exact h.leave [] (.refl _ d) rfl (fun _ _ => rfl) (List.append_nil _).symm nofun
    (.of_kind function array _)

/-- An array refers to a new one, which waits instead of it. -/
theorem Settles.nest {outer : TypeId} (h : Settles first start ((outer, [.array]) :: open') d)
    (spares : Spares (some outer) d d') (graph : Nests d.graph d'.graph outer)
    (links : d'.links = d.links) :
  Settles first start ((d.graph.nextId, [.array]) :: open') d'
  := by
  obtain ⟨fresh, nodup⟩ := List.nodup_cons.mp h.nodup
  obtain ⟨-, kind, none⟩ := h.unfinished outer _ List.mem_cons_self
  obtain ⟨-, none⟩ := none (List.mem_singleton.mp kind)
  have slots : d'.slotsSince start = d.slotsSince start := by
    rw [slotsSince, slotsSince, links]
  have last : d.graph.nextId < d'.graph.nextId := graph.nextId_eq ▸ Nat.lt_succ_self _
  apply h.change [] spares (fun id inside => kind_of_core (graph.core_eq id inside))
  · rw [links, List.append_nil]
  · exact nofun
  · exact List.nodup_cons.mpr ⟨fun mem => h.not_mem_of_le (Nat.le_refl _)
      (List.mem_cons_of_mem _ mem), nodup⟩
  · intro id kinds opened
    rcases List.mem_cons.mp opened with same | opened
    · cases same
      have array := List.mem_singleton.mpr graph.inner_kind
      refine .inr ⟨last, array, fun _ => ⟨graph.inner_reference, ?_⟩⟩
      rw [slots]
      exact h.count_of_le (Nat.le_refl _)
    · refine .inl ⟨List.mem_cons_of_mem _ opened, fun same => ?_⟩
      cases same
      exact fresh (List.mem_map.mpr ⟨_, opened, rfl⟩)
  · intro id _ inside closed
    rw [List.map_cons, List.mem_cons, not_or] at closed
    obtain ⟨old, closed⟩ := closed
    by_cases here : id = outer
    · have array : (d'.graph.get outer).kind = .array :=
        (kind_of_core (graph.core_eq outer (h.unfinished outer _ List.mem_cons_self).inside)).trans
          (List.mem_singleton.mp kind)
      subst here
      refine .inr ⟨fun function => ?_, fun _ => .inl ⟨_, graph.outer_reference, ?_⟩⟩
      · cases array.symm.trans function
      · rw [slots]
        exact ⟨graph.inner_kind, none⟩
    · refine .inl ⟨?_, fun mem => (List.mem_cons.mp mem).elim here closed,
        fun same => here (Option.some.inj same).symm⟩
      rw [graph.nextId_eq] at inside
      exact Nat.lt_of_le_of_ne (Nat.le_of_lt_succ inside) old

/-- The last one of the arrays of an entry gets a collected reference. -/
theorem Settles.linkArray {id : TypeId} (h : Settles first start ((id, [.array]) :: open') d)
    (entry : Nat) (target : Option Nat) :
  Settles first start open' (d.link (.reference id) entry target)
  := by
  obtain ⟨-, kind, none⟩ := h.unfinished id _ List.mem_cons_self
  have array := List.mem_singleton.mp kind
  obtain ⟨missing, none⟩ := none array
  have links : (d.link (.reference id) entry target).links.toList
      = d.links.toList ++ [⟨.reference id, entry, target⟩] := Array.toList_push
  have spares : Spares (some id) d (d.link (.reference id) entry target) :=
    spares_of_graph_eq _ rfl rfl
  apply h.leave _ spares rfl (fun _ _ => rfl) links
  · intro l mem
    rw [List.mem_singleton.mp mem]
  · refine ⟨fun function => ?_, fun _ => .inr ⟨missing, ?_⟩⟩
    · cases array.symm.trans function
    · rw [slotsSince_of_links h.start_le links, List.count_append, none, List.map_singleton,
        List.count_singleton_self]

theorem Settles.nestArrays (entry : Nat) (target : Option Nat) (counts : List UInt32)
    {outer : TypeId} (h : Settles first start ((outer, [.array]) :: open') d) :
  Settles first start open' (nestArrays entry target outer counts d)
  := by
  induction counts generalizing outer d with
  | nil => exact h.linkArray entry target
  | cons count counts ih =>
    let r := { TypeRecord.ofKind .array none with elementCount := count }
    have inside := (h.unfinished outer _ List.mem_cons_self).inside
    have graph := nests_array d.graph inside count
    have spares := (spares_push (some outer) d r).trans
      (spares_update _ outer (·.withReference d.graph.nextId)) fun _ => .inl
    rw [Decoding.nestArrays]
    exact ih (h.nest spares graph rfl)

/-- The end of a scope finishes its record. -/
theorem Settles.close {scope : Scope} (h : Settles first start (scope.subject?.toList ++ open') d) :
  Settles first start open' (d.close scope)
  := by
  cases scope with
  | other => exact h
  | aggregate id => exact h.leave_plain (by decide)
  | enumeration id => exact h.leave_plain (by decide)
  | function id =>
    have graph := agrees_count d.graph id fun r => UInt32.ofNat r.members.size
    obtain ⟨inside, kind, -⟩ := h.unfinished id _ List.mem_cons_self
    have function := (kind_of_core (graph.core_eq id)).trans (List.mem_singleton.mp kind)
    apply h.leave [] (spares_update d id _) graph.nextId_eq
      (fun id _ => kind_of_core (graph.core_eq id)) (List.append_nil _).symm nofun
    refine ⟨fun _ => ?_, fun array => ?_⟩
    · change ((d.graph.update id _).get id).elementCount
        = UInt32.ofNat ((d.graph.update id _).get id).members.size
      rw [d.graph.get_update_self _ inside]
    · cases function.symm.trans array
  | array id entry target counts =>
    have graph := agrees_count d.graph id fun _ => counts.reverse.headD 0
    have counted : Settles first start ((id, [.array]) :: open')
        (d.update id fun r => { r with elementCount := counts.reverse.headD 0 }) :=
      h.touch [] List.mem_cons_self (spares_update d id _) graph.nextId_eq
        (fun id _ => kind_of_core (graph.core_eq id)) (graph.reference_eq id)
        (List.append_nil _).symm nofun
    exact counted.nestArrays entry target counts.reverse.tail

theorem subjects_cons (item : Int × Scope) (scopes : List (Int × Scope)) :
  subjects (item :: scopes) = item.2.subject?.toList ++ subjects scopes
  := by
  rw [subjects, List.filterMap_cons]
  cases item.2.subject? <;> rfl

theorem Settles.closeFrom (depth : Int) {scopes : List (Int × Scope)}
    (h : Settles first start (subjects scopes) d) :
  Settles first start (subjects (closeFrom depth scopes d).scopes) (closeFrom depth scopes d)
  := by
  induction scopes generalizing d with
  | nil => exact h.transport rfl rfl
  | cons item scopes ih =>
    rw [Decoding.closeFrom]
    split
    · exact h.transport rfl rfl
    · rw [subjects_cons] at h
      exact ih h.close

theorem Settles.closeAll {scopes : List (Int × Scope)}
    (h : Settles first start (subjects scopes) d) :
  Settles first start [] (closeAll scopes d)
  := by
  induction scopes generalizing d with
  | nil => exact h.transport rfl rfl
  | cons item scopes ih =>
    rw [subjects_cons] at h
    exact ih h.close

/-! ### Visits -/

section

variable {parent : Option Scope} {v : Visit}

/-- A contribution with a record opens a scope of the record, or the record needs no end. -/
theorem subject_of_record {r : TypeRecord} (record : v.contribution.record? = some r)
    (fits : v.contribution.Fits parent) :
  (∃ scope kinds, opened v.id v.offset v.contribution = some scope
      ∧ scope.subject? = some (v.id, kinds) ∧ r.kind ∈ kinds
      ∧ (r.kind = .array → immediateLinks v = []))
    ∨ (opened v.id v.offset v.contribution = none ∧ r.kind ≠ .function ∧ r.kind ≠ .array)
  := by
  rw [immediateLinks]
  cases hc : v.contribution with
  | nothing | dimension | member | enumerator | synonym =>
    rw [hc] at record
    cases record
  | plain =>
    rw [hc] at record fits
    cases record
    refine .inr ⟨rfl, ?_⟩
    rcases fits.2.2 with kind | kind <;> rw [kind] <;> decide
  | derived =>
    rw [hc] at record fits
    cases record
    have plain : ∀ kind ∈ Contribution.derivedKinds, kind ≠ .function ∧ kind ≠ .array := by decide
    exact .inr ⟨rfl, plain _ fits.2.2⟩
  | object =>
    rw [hc] at record fits
    cases record
    refine .inr ⟨rfl, ?_⟩
    rw [fits.2.2]
    decide
  | array | enumeration =>
    rw [hc] at record fits
    cases record
    exact .inl ⟨_, _, rfl, rfl, List.mem_singleton.mpr fits.2.2, fun _ => rfl⟩
  | aggregate =>
    rw [hc] at record fits
    cases record
    refine .inl ⟨_, _, rfl, rfl, ?_, fun _ => rfl⟩
    rcases fits.2.2 with kind | kind <;> rw [kind] <;> decide
  | subroutine | subprogram =>
    rw [hc] at record fits
    cases record
    refine .inl ⟨_, _, rfl, rfl, List.mem_singleton.mpr fits.2.2, fun array => ?_⟩
    cases array.symm.trans fits.2.2

/-- A new record is finished unless it has a scope. -/
theorem Settles.record {r : TypeRecord} (h : Settles first start open' d)
    (hid : v.id = d.graph.nextId) (record : v.contribution.record? = some r)
    (fits : v.contribution.Fits parent) :
  Settles first start
    (((opened v.id v.offset v.contribution).bind Scope.subject?).toList ++ open')
    (d.add v.offset v.contribution)
  := by
  have graph := graph_add_record (d := d) record v.offset
  have nextId : (d.add v.offset v.contribution).graph.nextId = d.graph.nextId + 1 := by
    rw [graph, Graph.nextId_push]
  have last : v.id < (d.add v.offset v.contribution).graph.nextId := by
    rw [nextId, hid]
    exact Nat.lt_succ_self _
  have get_eq : (d.add v.offset v.contribution).graph.get v.id = r := by
    rw [graph, Graph.get_push, if_pos hid]
  have links := links_add_record record hid
  have void := void_add d v.offset v.contribution
  have spares : Spares none d (d.add v.offset v.contribution) :=
    (spares_push none d r).trans (spares_of_graph_eq none graph void) nofun
  have kinds (id : TypeId) (inside : id < d.graph.nextId) :
      ((d.add v.offset v.contribution).graph.get id).kind = (d.graph.get id).kind := by
    rw [spares.get_eq id inside nofun]
  have slots (l : Link) (mem : l ∈ immediateLinks v) (id : TypeId) (slot : l.slot = .reference id) :
      id < (d.add v.offset v.contribution).graph.nextId
        ∧ ((none : Option TypeId) = some id ∨ d.graph.nextId ≤ id) := by
    obtain ⟨target, -, rfl⟩ := List.mem_map.mp mem
    cases slot
    exact ⟨last, .inr (Nat.le_of_eq hid.symm)⟩
  rcases subject_of_record record fits with
    ⟨scope, own, opened, subject, kind, array⟩ | ⟨opened, plain⟩
  · rw [opened, Option.bind_some, subject]
    apply h.change _ spares kinds links slots
    · exact List.nodup_cons.mpr ⟨h.not_mem_of_le (Nat.le_of_eq hid.symm), h.nodup⟩
    · intro id kinds' mem
      rcases List.mem_cons.mp mem with same | mem
      · cases same
        refine .inr ⟨last, get_eq ▸ kind, fun isArray => ?_⟩
        rw [get_eq] at isArray ⊢
        refine ⟨(bare_of_fits record fits).reference, ?_⟩
        rw [slotsSince_of_links h.start_le links, array isArray]
        exact (List.append_nil _).symm ▸ h.count_of_le (Nat.le_of_eq hid.symm)
      · exact .inl ⟨mem, nofun⟩
    · intro id _ inside closed
      obtain ⟨other, closed⟩ := not_or.mp (List.mem_cons.not.mp closed)
      rw [nextId] at inside
      exact .inl ⟨Nat.lt_of_le_of_ne (Nat.le_of_lt_succ inside) (hid ▸ other), closed, nofun⟩
  · rw [opened]
    apply h.change _ spares kinds links slots h.nodup
    · exact fun id kinds' mem => .inl ⟨mem, nofun⟩
    · intro id _ inside closed
      by_cases new : id = v.id
      · subst new
        exact .inr (.of_kind (get_eq ▸ plain.1) (get_eq ▸ plain.2) _)
      · rw [nextId] at inside
        exact .inl ⟨Nat.lt_of_le_of_ne (Nat.le_of_lt_succ inside) (hid ▸ new), closed, nofun⟩

/-- A contribution that fits the scope of the parent adds a record, or changes one whose scope is
open. -/
theorem Settles.add (h : Settles first start (subjects d.scopes) d) (hid : v.id = d.graph.nextId)
    (fits : v.contribution.Fits parent)
    (hparent : ∀ scope, parent = some scope → scope ∈ d.scopes.map Prod.snd) :
  Settles first start (((opened v.id v.offset v.contribution).bind Scope.subject?).toList
      ++ subjects (d.add v.offset v.contribution).scopes)
    (d.add v.offset v.contribution)
  := by
  obtain ⟨counts, scopes⟩ := scopes_add d v.offset v.contribution
  rw [scopes, subjects_modifyHead]
  have opened_owner {scope : Scope} {owner : TypeId} {kinds : List TypeKind}
      (found : parent = some scope) (subject : scope.subject? = some (owner, kinds)) :
      owner ∈ (subjects d.scopes).map Prod.fst := by
    obtain ⟨item, mem, rfl⟩ := List.mem_map.mp (hparent scope found)
    exact List.mem_map.mpr ⟨_, List.mem_filterMap.mpr ⟨item, mem, subject⟩, rfl⟩
  cases hc : v.contribution with
  | plain | derived | array | aggregate | enumeration | subroutine | subprogram | object =>
    rw [← hc]
    exact h.record hid (r := _) (by rw [hc]; rfl) fits
  | nothing | synonym => exact h.transport rfl rfl
  | dimension count =>
    change Settles first start (subjects d.scopes) (d.addDimension count)
    unfold addDimension
    split <;> exact h.transport rfl rfl
  | enumerator owner e =>
    rw [hc] at fits
    have graph := agrees_addEnumerator d.graph owner e
    exact h.touch [] (opened_owner fits rfl) (spares_update d owner _) graph.nextId_eq
      (fun id _ => kind_of_core (graph.core_eq id)) (graph.reference_eq owner)
      (List.append_nil _).symm nofun
  | member owner name offset target =>
    rw [hc] at fits
    have mem : owner ∈ (subjects d.scopes).map Prod.fst := by
      rcases fits with found | found
      · exact opened_owner found rfl
      · exact opened_owner found rfl
    obtain ⟨⟨owner, kinds⟩, subject, rfl⟩ := List.mem_map.mp mem
    have inside := (h.unfinished owner kinds subject).inside
    have gains := gains_update d.graph inside ⟨name, d.void, offset⟩
    have spares : Spares (some owner) d (d.addMember owner name offset v.offset target) :=
      (spares_update d owner _).trans (spares_of_graph_eq none rfl rfl) nofun
    refine h.touch _ mem spares gains.nextId_eq (fun id _ => kind_of_core (gains.core_eq id))
      (gains.reference_eq owner) Array.toList_push ?_
    intro l mem id slot
    rw [List.mem_singleton.mp mem] at slot
    cases slot

theorem Settles.enter {scope? : Option Scope}
    (h : Settles first start ((scope?.bind Scope.subject?).toList ++ subjects d.scopes) d)
    (depth : Int) (hasChildren : Bool) :
  Settles first start (subjects (d.enter depth hasChildren scope?).scopes)
    (d.enter depth hasChildren scope?)
  := by
  rw [scopes_enter]
  unfold Decoding.enter
  cases hasChildren with
  | true =>
    rw [if_pos rfl, if_pos rfl, subjects_cons]
    cases scope? <;> exact h.transport rfl rfl
  | false =>
    cases scope? with
    | none => exact h
    | some scope => exact h.close

end

variable {s : Sections} {u : CompilationUnit}

/-- A visit finishes the records whose scopes it ends. -/
theorem Settles.visit {depth : Int} {e : Entry} {v : Visit}
    (h : Settles first start (subjects d.scopes) d) (hv : d.visitOf? s u depth e = .ok v) :
  Settles first start (subjects (d.visit s u depth e).1.scopes) (d.visit s u depth e).1
  := by
  obtain ⟨-, rfl, -, faithful, hparent, hid, notices, result⟩ := visit_of_ok hv
  rw [result]
  have arrived : Settles first start (subjects ((d.arrive v.depth).note notices).scopes)
      ((d.arrive v.depth).note notices) := (h.closeFrom v.depth).transport rfl rfl
  have added := arrived.add hid (Contribution.fits_read faithful) fun scope found =>
    parentScope_mem (hparent ▸ found)
  exact added.enter v.depth v.entry.hasChildren

theorem Settles.visitAll {entries : List (Int × Entry)}
    (h : Settles first start (subjects d.scopes) d)
    (walked : visitAll s u entries d = (d', none)) :
  Settles first start (subjects d'.scopes) d'
  := by
  induction entries generalizing d with
  | nil =>
    cases walked
    exact h
  | cons item entries ih =>
    obtain ⟨v, hv⟩ := exists_visitOf?_of_visitAll walked
    obtain ⟨rest, -⟩ := visitAll_of_ok hv entries
    exact ih (h.visit hv) (rest ▸ walked)

/-- From some state on, where no scope is open, there are no records and no references yet. -/
theorem settles_start (d : Decoding) :
  Settles d.graph.nextId d.links.size [] d
  := by
  have none : d.slotsSince d.links.size = [] := by
    rw [slotsSince, List.drop_of_length_le (Nat.le_of_eq Array.length_toList)]
    rfl
  constructor
  · exact Nat.le_refl _
  · rw [none]
    exact nofun
  · exact List.nodup_nil
  · exact nofun
  · exact fun id after inside => absurd inside (Nat.not_lt_of_le after)

/-- At the end of a unit every record that its entries have made is finished. -/
theorem finished_closeAll {entries : List (Int × Entry)} (closed : d.scopes = [])
    (walked : visitAll s u entries d = (d', none)) {id : TypeId} (after : d.graph.nextId ≤ id)
    (inside : id < (closeAll d'.scopes d').graph.nextId) :
  Finished (closeAll d'.scopes d').graph
    (slotsSince d.links.size (closeAll d'.scopes d')) id
  := by
  have start : Settles d.graph.nextId d.links.size (subjects d.scopes) d := closed ▸ settles_start d
  exact (start.visitAll walked).closeAll.finished id after inside List.not_mem_nil

end Decoding

end CompactTypes.Dwarf

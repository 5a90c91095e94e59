import CompactTypes.Proofs.Dwarf.Children
import CompactTypes.Proofs.Dwarf.Units
import CompactTypes.Proofs.Resolution.Numbered

/-!
# Further units

Units that come after those of a section of entries change nothing about the types of the first
ones.  A walk that goes on from a state in which no scope is open only adds to it,
`Decoding.Continues`: it makes new records, and collects references of these.  The entries of the
first units mean the same, so that the references that have been collected before are set in the
same way.  The result is `Sections.decode_append`.
-/

namespace CompactTypes

namespace Dwarf

/-- The record to which a slot belongs. -/
def Slot.owner : Slot → TypeId
  | reference id => id
  | member owner _ => owner

namespace Decoding

/-- A state has all the records and references of an earlier one, and in addition records and
references that belong to these. -/
structure Continues (d₀ d : Decoding) : Prop where
  nextId_le : d₀.graph.nextId ≤ d.graph.nextId
  get_eq : ∀ id < d₀.graph.nextId, d.graph.get id = d₀.graph.get id
  indexType_eq : d.graph.indexType = d₀.graph.indexType
  links : ∃ new, d.links.toList = d₀.links.toList ++ new
    ∧ ∀ l ∈ new, d₀.graph.nextId ≤ l.slot.owner

variable {d₀ d d' : Decoding}

/-! ### Walks that go on -/

theorem Continues.refl (d : Decoding) :
  Continues d d
  := ⟨Nat.le_refl _, fun _ _ => rfl, rfl, [], (List.append_nil _).symm,
    fun _ mem => absurd mem List.not_mem_nil⟩

theorem Continues.transport (h : Continues d₀ d) (graph : d'.graph = d.graph)
    (links : d'.links = d.links) :
  Continues d₀ d'
  := by
  constructor
  · exact graph ▸ h.nextId_le
  · exact graph ▸ h.get_eq
  · exact graph ▸ h.indexType_eq
  · exact links ▸ h.links

theorem Continues.update (h : Continues d₀ d) {id : TypeId} (new : d₀.graph.nextId ≤ id)
    (f : TypeRecord → TypeRecord) :
  Continues d₀ (d.update id f)
  := by
  refine ⟨?_, fun other old => ?_, h.indexType_eq, h.links⟩
  · exact Nat.le_trans h.nextId_le (Nat.le_of_eq (d.graph.nextId_update id f).symm)
  · have different : other ≠ id := Nat.ne_of_lt (Nat.lt_of_lt_of_le old new)
    exact (d.graph.get_update_of_ne f different).trans (h.get_eq other old)

theorem Continues.push (h : Continues d₀ d) (r : TypeRecord) :
  Continues d₀ (d.push r)
  := by
  refine ⟨?_, fun id old => ?_, h.indexType_eq, h.links⟩
  · exact Nat.le_trans h.nextId_le (Nat.le_of_lt (d.graph.nextId_push r ▸ Nat.lt_succ_self _))
  · have different : id ≠ d.graph.nextId := Nat.ne_of_lt (Nat.lt_of_lt_of_le old h.nextId_le)
    change (d.graph.push r).get id = _
    rw [Graph.get_push, if_neg different, h.get_eq id old]

theorem Continues.link (h : Continues d₀ d) (slot : Slot) (new : d₀.graph.nextId ≤ slot.owner)
    (entry : Nat) (target : Option Nat) :
  Continues d₀ (d.link slot entry target)
  := by
  obtain ⟨links, all, owners⟩ := h.links
  refine ⟨h.nextId_le, h.get_eq, h.indexType_eq, links ++ [⟨slot, entry, target⟩], ?_, ?_⟩
  · rw [Decoding.link, Array.toList_push, all, List.append_assoc]
  · intro l mem
    rcases List.mem_append.mp mem with mem | mem
    · exact owners l mem
    · rw [List.mem_singleton.mp mem]
      exact new

theorem Continues.register (h : Continues d₀ d) (entry : Nat) (r : TypeRecord) :
  Continues d₀ (d.register entry r)
  := (h.push r).transport rfl rfl

theorem Continues.nestArrays (h : Continues d₀ d) {outer : TypeId}
    (new : d₀.graph.nextId ≤ outer) (entry : Nat) (target : Option Nat) (counts : List UInt32) :
  Continues d₀ (nestArrays entry target outer counts d)
  := by
  induction counts generalizing outer d with
  | nil => exact h.link (.reference outer) new entry target
  | cons count counts ih => exact ih ((h.push _).update new _) h.nextId_le

/-- The scope is of no record of a state. -/
def Newer (d₀ : Decoding) (scope : Scope) : Prop :=
  ∀ owner, scope.owner? = some owner → d₀.graph.nextId ≤ owner

theorem Continues.close (h : Continues d₀ d) {scope : Scope} (newer : Newer d₀ scope) :
  Continues d₀ (d.close scope)
  := by
  cases scope with
  | other | aggregate | enumeration => exact h
  | function id => exact h.update (newer id rfl) _
  | array id entry target counts =>
    exact (h.update (newer id rfl) _).nestArrays (newer id rfl) entry target _

theorem Continues.closeFrom (h : Continues d₀ d) {scopes : List (Int × Scope)}
    (newer : ∀ item ∈ scopes, Newer d₀ item.2) (depth : Int) :
  Continues d₀ (closeFrom depth scopes d)
  := by
  induction scopes generalizing d with
  | nil => exact h.transport rfl rfl
  | cons first scopes ih =>
    obtain ⟨here, others⟩ := List.forall_mem_cons.mp newer
    rw [Decoding.closeFrom]
    split
    · exact h.transport rfl rfl
    · exact ih (h.close here) others

theorem Continues.closeAll (h : Continues d₀ d) {scopes : List (Int × Scope)}
    (newer : ∀ item ∈ scopes, Newer d₀ item.2) :
  Continues d₀ (closeAll scopes d)
  := by
  induction scopes generalizing d with
  | nil => exact h.transport rfl rfl
  | cons first scopes ih =>
    obtain ⟨here, others⟩ := List.forall_mem_cons.mp newer
    exact ih (h.close here) others

/-- What an entry contributes goes to a new record, or to that of a scope that is newer. -/
theorem Continues.add (h : Continues d₀ d) {c : Contribution} {parent : Option Scope}
    (fits : c.Fits parent) (newer : ∀ scope, parent = some scope → Newer d₀ scope) (entry : Nat) :
  Continues d₀ (d.add entry c)
  := by
  have new : d₀.graph.nextId ≤ d.graph.nextId := h.nextId_le
  cases c with
  | nothing => exact h
  | plain r | array r | aggregate r | enumeration r => exact h.register entry r
  | derived r target | subroutine r target =>
    exact (h.register entry r).link (.reference d.graph.nextId) new entry target
  | subprogram r target | object r target =>
    exact (h.push r).link (.reference d.graph.nextId) new entry target
  | dimension count =>
    rw [Decoding.add, addDimension]
    split
    · exact h.transport rfl rfl
    · exact h
  | member owner name offset target =>
    have owned : d₀.graph.nextId ≤ owner := by
      rcases fits with parent | parent
      · exact newer _ parent owner rfl
      · exact newer _ parent owner rfl
    exact (h.update owned _).link (.member owner _) owned entry target
  | enumerator owner e => exact h.update (newer _ fits owner rfl) _
  | synonym target => exact h.transport rfl rfl

theorem Continues.enter (h : Continues d₀ d) (depth : Int) (hasChildren : Bool)
    {scope : Option Scope} (newer : ∀ own, scope = some own → Newer d₀ own) :
  Continues d₀ (d.enter depth hasChildren scope)
  := by
  unfold Decoding.enter
  split
  · exact h.transport rfl rfl
  · cases scope with
    | none => exact h
    | some own => exact h.close (newer own rfl)

theorem newer_of_outside (outside : ∀ owner < d₀.graph.nextId, d.Outside owner) :
  ∀ item ∈ d.scopes, Newer d₀ item.2
  := by
  intro item mem owner owned
  exact Nat.le_of_not_lt fun old => outside owner old item mem owned

/-- A walk only adds to a state, and never comes back to its records. -/
theorem followed_continues (s : Sections) (d₀ : Decoding) :
  Followed s fun _ d => Continues d₀ d ∧ ∀ owner < d₀.graph.nextId, d.Outside owner
  := by
  constructor
  · rintro visits d u depth e v ⟨h, outside⟩ hv -
    have arrived := h.closeFrom (newer_of_outside outside) depth
    constructor
    · obtain ⟨-, rfl, -, faithful, parent, id, notices, result⟩ := visit_of_ok hv
      rw [result]
      have noted : Continues d₀ ((d.arrive v.depth).note notices) := arrived.transport rfl rfl
      have newer (scope : Scope) (found : v.parent = some scope) : Newer d₀ scope := by
        intro owner owned
        apply Nat.le_of_not_lt
        intro old
        apply ((outside owner old).arrive v.depth).parentScope v.depth
        rw [← parent, found]
        exact owned
      have added := noted.add (Contribution.fits_read faithful) newer v.offset
      refine added.enter v.depth v.entry.hasChildren fun own opened owner owned => ?_
      rw [owner?_of_opened opened] at owned
      cases owned
      exact id ▸ noted.nextId_le
    · intro owner old
      have inside : owner < d.graph.nextId := Nat.lt_of_lt_of_le old h.nextId_le
      exact (((outside owner old).arrive depth).visit inside hv).1
  · rintro visits d ⟨h, outside⟩
    exact ⟨h.closeAll (newer_of_outside outside), fun owner _ => outside_closeAll d owner⟩

/-! ### Setting references -/

theorem get_setSlot_of_ne {slot : Slot} {id : TypeId} (other : id ≠ slot.owner) (g : Graph)
    (target : TypeId) :
  (setSlot g target slot).get id = g.get id
  := by
  cases slot with
  | reference owner => exact g.get_update_of_ne _ other
  | member owner place => exact g.get_update_of_ne _ other

/-- Setting a slot does the same to a record in two graphs. -/
theorem get_setSlot_congr {g g' : Graph} {id : TypeId} (inside : id < g.nextId)
    (inside' : id < g'.nextId) (same : g'.get id = g.get id) (target : TypeId) (slot : Slot) :
  (setSlot g' target slot).get id = (setSlot g target slot).get id
  := by
  by_cases own : id = slot.owner
  · cases slot with
    | reference owner | member owner place =>
      obtain rfl : id = owner := own
      rw [setSlot, setSlot, Graph.get_update_self _ _ inside, Graph.get_update_self _ _ inside',
        same]
  · rw [get_setSlot_of_ne own, get_setSlot_of_ne own, same]

theorem linkAll_append {links : List Link} {g : Graph} (success : (d.linkAll links g).2 = none)
    (links' : List Link) :
  d.linkAll (links ++ links') g = d.linkAll links' (d.linkAll links g).1
  := by
  induction links generalizing g with
  | nil => rfl
  | cons l links ih =>
    rw [List.cons_append, linkAll, linkAll]
    rw [linkAll] at success
    cases found : d.resolve? l.target with
    | none =>
      rw [found] at success
      cases success
    | some target =>
      rw [found] at success
      exact ih success

/-- References of other records leave a record alone. -/
theorem get_linkAll_of_newer (d : Decoding) {links : List Link} {id : TypeId}
    (newer : ∀ l ∈ links, id < l.slot.owner) (g : Graph) :
  (d.linkAll links g).1.get id = g.get id
  := by
  induction links generalizing g with
  | nil => rfl
  | cons l links ih =>
    obtain ⟨here, newer⟩ := List.forall_mem_cons.mp newer
    rw [linkAll]
    cases d.resolve? l.target with
    | none => rfl
    | some target => exact (ih newer _).trans (get_setSlot_of_ne (Nat.ne_of_lt here) g target)

/-- References that lead to the same records are set in the same way. -/
theorem linkAll_congr {links : List Link}
    (agree : ∀ l ∈ links, d'.resolve? l.target = d.resolve? l.target) {g g' : Graph} {id : TypeId}
    (inside : id < g.nextId) (inside' : id < g'.nextId) (same : g'.get id = g.get id) :
  (d'.linkAll links g').1.get id = (d.linkAll links g).1.get id
    ∧ (d'.linkAll links g').2 = (d.linkAll links g).2
  := by
  induction links generalizing g g' with
  | nil => exact ⟨same, rfl⟩
  | cons l links ih =>
    obtain ⟨here, agree⟩ := List.forall_mem_cons.mp agree
    rw [linkAll, linkAll, here]
    cases d.resolve? l.target with
    | none => exact ⟨same, rfl⟩
    | some target =>
      apply ih agree
      · rw [nextId_setSlot]
        exact inside
      · rw [nextId_setSlot]
        exact inside'
      · exact get_setSlot_congr inside inside' same target l.slot

/-- What a look-up finds it finds again if no meaning has been forgotten. -/
theorem resolve?_of_meanings (void : d'.void = d.void)
    (meanings : ∀ (offset : Nat) (m : Meaning), d.meanings[offset]? = some m →
      d'.meanings[offset]? = some m)
    {target : Option Nat} {id : TypeId} (found : d.resolve? target = some id) :
  d'.resolve? target = some id
  := by
  have follow (steps offset : Nat) (id : TypeId) (found : d.follow steps offset = some id) :
      d'.follow steps offset = some id := by
    induction steps generalizing offset with
    | zero => cases found
    | succ steps ih =>
      obtain ⟨m, meaning, looked⟩ := (d.follow_succ_iff steps offset id).mp found
      refine (d'.follow_succ_iff steps offset id).mpr ⟨m, meanings offset m meaning, ?_⟩
      rw [void]
      exact looked.imp_right fun looked => looked.imp_right fun ⟨next, same, found⟩ =>
        ⟨next, same, ih next found⟩
  cases target with
  | none => exact (congrArg some void).trans found
  | some offset => exact follow _ offset id found

/-- The records of a state come out of a later one as they come out of the state itself. -/
theorem Continues.get_finish {visits visits' : List Visit} (h : Continues d d')
    (tracked : Tracks visits [] d) (tracked' : Tracks visits' [] d')
    (success : (d.linkAll d.links.toList d.graph).2 = none)
    (success' : (d'.linkAll d'.links.toList d'.graph).2 = none)
    (meanings : ∀ (offset : Nat) (m : Meaning), d.meanings[offset]? = some m →
      d'.meanings[offset]? = some m) {id : TypeId} (inside : id < d.graph.nextId) :
  d'.finish.1.get id = d.finish.1.get id
  := by
  have void : d'.void = d.void := tracked'.void_eq.trans tracked.void_eq.symm
  have agree (l : Link) (mem : l ∈ d.links.toList) :
      d'.resolve? l.target = d.resolve? l.target := by
    rcases d.linkAll_cases d.links.toList d.graph with ⟨-, all⟩ | ⟨_, _, _, _, _, _, failure⟩
    · obtain ⟨target, found⟩ := all l mem
      rw [resolve?_of_meanings void meanings found, found]
    · rw [success] at failure
      cases failure
  have inside' : id < d'.graph.nextId := Nat.lt_of_lt_of_le inside h.nextId_le
  obtain ⟨same, outcome⟩ := linkAll_congr agree inside inside' (h.get_eq id inside)
  obtain ⟨new, links, newer⟩ := h.links
  rw [tracked'.get_finish success', tracked.get_finish success, links,
    linkAll_append (outcome.trans success)]
  have other : ∀ l ∈ new, id < l.slot.owner := fun l mem =>
    Nat.lt_of_lt_of_le inside (newer l mem)
  rw [get_linkAll_of_newer d' other, same]

theorem indexType_finish {visits : List Visit} (tracked : Tracks visits [] d)
    (success : (d.linkAll d.links.toList d.graph).2 = none) :
  d.finish.1.indexType = d.graph.indexType
  := by
  have linked : (d.linkAll d.links.toList d.graph).1.indexType = d.graph.indexType :=
    d.linkAll_preserves (P := fun g => g.indexType = d.graph.indexType)
      (fun g _ target slot _ h => by cases slot <;> exact h) d.links.toList rfl
  have sorted (ids : List TypeId) (g : Graph) : (sortAll ids g).indexType = g.indexType := by
    induction ids generalizing g with
    | nil => rfl
    | cons id ids ih => exact ih _
  rw [finish_of_success success (tracked.unresolved?_linkAll success), sorted, linked]

end Decoding

/-! ### Longer sections -/

namespace Sections

variable {s : Sections}

/-- Nothing that happens at an entry depends on the bytes of the section of entries. -/
theorem visit_append (s : Sections) (more : ByteArray) :
  Decoding.visit (s.append more) = Decoding.visit s
  := rfl

theorem visitOf?_append (s : Sections) (more : ByteArray) :
  Decoding.visitOf? (s.append more) = Decoding.visitOf? s
  := rfl

theorem visitAll_append (s : Sections) (more : ByteArray) (u : CompilationUnit)
    (entries : List (Int × Entry)) (d : Decoding) :
  Decoding.visitAll (s.append more) u entries d = Decoding.visitAll s u entries d
    ∧ Decoding.entryVisits (s.append more) u entries d = Decoding.entryVisits s u entries d
  := by
  induction entries generalizing d with
  | nil => exact ⟨rfl, rfl⟩
  | cons item entries ih =>
    obtain ⟨depth, e⟩ := item
    rw [Decoding.visitAll, Decoding.visitAll, Decoding.entryVisits, Decoding.entryVisits,
      visit_append, visitOf?_append]
    constructor
    · split
      · rfl
      · exact (ih _).1
    · split
      · rfl
      · exact congrArg (_ :: ·) (ih _).2

theorem walkUnit_append (s : Sections) (more : ByteArray) (u : CompilationUnit) (d : Decoding) :
  d.walkUnit (s.append more) u = d.walkUnit s u
  := by
  rw [Decoding.walkUnit, Decoding.walkUnit, (visitAll_append s more u _ d).1]

theorem walkUnits_append (s : Sections) (more : ByteArray) (units : List CompilationUnit)
    (d : Decoding) :
  d.walkUnits (s.append more) units = d.walkUnits s units
    ∧ d.unitsVisits (s.append more) units = d.unitsVisits s units
  := by
  induction units generalizing d with
  | nil => exact ⟨rfl, rfl⟩
  | cons u units ih =>
    rw [Decoding.walkUnits, Decoding.walkUnits, Decoding.unitsVisits, Decoding.unitsVisits,
      walkUnit_append]
    constructor
    · split
      · rfl
      · exact (ih _).1
    · rw [Decoding.unitVisits, Decoding.unitVisits, (visitAll_append s more u _ d).2]
      split
      · rfl
      · exact congrArg _ (ih _).2

/-- A walk over a longer section goes on where the walk over the section ends. -/
theorem continues_walk {more : ByteArray} {size : Nat} {d d' : Decoding}
    (walked : s.walk s.units .empty size = (d, none))
    (walked' : (s.append more).walk (s.append more).units .empty size = (d', none)) :
  Decoding.Continues d d' ∧ ∀ (offset : Nat) (m : Meaning), d.meanings[offset]? = some m →
    d'.meanings[offset]? = some m
  := by
  have tracked := Decoding.tracks_walk walked
  have tracked' := Decoding.tracks_walk walked'
  obtain ⟨others, all⟩ := s.units_append more
  have increasing := (s.append more).pairwise_visits .empty size
  have whole := walkUnits_of_walk walked'
  rw [← all, visits, (walkUnits_append s more _ _).2] at increasing
  rw [← all, (walkUnits_append s more _ _).1] at whole
  rw [← all, visits, (walkUnits_append s more _ _).2] at tracked'
  obtain ⟨d₁, first, rest, visits_eq⟩ := Decoding.exists_of_walkUnits_append whole
  rw [walkUnits_of_walk walked] at first
  cases first
  rw [visits_eq] at increasing tracked'
  have outside (owner : TypeId) : d.Outside owner := by
    rw [Decoding.Outside, Decoding.scopes_walkUnits rfl (walkUnits_of_walk walked)]
    exact fun item mem => absurd mem List.not_mem_nil
  constructor
  · have later : (([] ++ d.unitsVisits s others).map Visit.offset).Pairwise (· < ·) := by
      rw [List.map_append] at increasing
      exact (List.pairwise_append.mp increasing).2.1
    have start : Decoding.Continues d d ∧ ∀ owner < d.graph.nextId, d.Outside owner :=
      ⟨.refl d, fun owner _ => outside owner⟩
    exact ((Decoding.followed_continues s d).walkUnits start later rest).1
  · intro offset m found
    obtain ⟨v, mem, visited⟩ := (tracked.meaning_iff offset m).mp found
    exact (tracked'.meaning_iff offset m).mpr ⟨v, List.mem_append_left _ mem, visited⟩

end Sections

end Dwarf

namespace Graph

variable {g g' : Graph}

theorem records_prefix (le : g.nextId ≤ g'.nextId)
    (same : ∀ id < g.nextId, g'.get id = g.get id) :
  g.records.toList <+: g'.records.toList
  := by
  rw [List.prefix_iff_getElem]
  refine ⟨le, fun id inside => ?_⟩
  have inside : id < g.records.size := inside
  have inside' : id < g'.records.size := Nat.lt_of_lt_of_le inside le
  have equal := same id inside
  rw [get, get, Array.getD_eq_getD_getElem?, Array.getD_eq_getD_getElem?,
    Array.getElem?_eq_getElem inside, Array.getElem?_eq_getElem inside'] at equal
  exact equal.symm

theorem emittedTypes_prefix (h : g.Complete) (h' : g'.Complete) (le : g.nextId ≤ g'.nextId)
    (same : ∀ id < g.nextId, g'.get id = g.get id) :
  g.allTypes.toList <+: g'.allTypes.toList ∧ g.emittedTypes <+: g'.emittedTypes
  := by
  obtain ⟨more, nextId_eq⟩ := Nat.exists_eq_add_of_le le
  have all : g'.allTypes.toList = g.allTypes.toList ++ (List.range more).map (g.nextId + ·) := by
    rw [h'.allTypes_eq, h.allTypes_eq, nextId_eq, List.range_add]
  have old : g.allTypes.toList.filter (fun id => !(g'.get id).isSymbol) = g.emittedTypes := by
    apply List.filter_congr
    intro id mem
    rw [same id (h.inside id (Array.mem_def.mpr mem))]
  constructor
  · exact ⟨_, all.symm⟩
  · rw [emittedTypes.eq_1 g', all, List.filter_append, old]
    exact List.prefix_append _ _

theorem placeNumber_of_prefix (first : g.emittedTypes <+: g'.emittedTypes) {id : TypeId}
    (mem : id ∈ g.emittedTypes) :
  g'.placeNumber id = g.placeNumber id
  := by
  obtain ⟨others, all⟩ := first
  rw [placeNumber, placeNumber, ← all, List.idxOf_append_of_mem mem]

end Graph

namespace Dwarf

namespace Sections

variable {s : Sections}

/-- If a section of entries that is not empty is decoded without an error, and if it is still so
with more units after it, then the records and the types of the section come first among those of
the longer section.  So do the types that have a place in the output, and they have the same numbers
whatever symbols take records before. -/
theorem decode_append {more : ByteArray} (nonempty : 0 < s.info.size)
    (decoded : (s.decode .empty).error = none)
    (decoded' : ((s.append more).decode .empty).error = none) :
  let g := (s.decode .empty).graph
  let g' := ((s.append more).decode .empty).graph
  g.records.toList <+: g'.records.toList ∧ g.allTypes.toList <+: g'.allTypes.toList
  ∧ g'.indexType = g.indexType ∧ g.emittedTypes <+: g'.emittedTypes
  ∧ ∀ symbols symbols', ∀ id ∈ g.emittedTypes,
    ((resolve g' symbols').graph.assignIndices.get id).index
      = ((resolve g symbols).graph.assignIndices.get id).index
  := by
  intro g g'
  have complete : g.Complete := complete_decode decoded
  have complete' : g'.Complete := complete_decode decoded'
  obtain ⟨size, d, width, walked, graph_eq, success⟩ := walked_of_decode decoded
  obtain ⟨size', d', width', walked', graph_eq', success'⟩ := walked_of_decode decoded'
  rw [addressSize_append nonempty width more] at width'
  cases width'
  have tracked := Decoding.tracks_walk walked
  have tracked' := Decoding.tracks_walk walked'
  obtain ⟨continues, meanings⟩ := continues_walk walked walked'
  have graph_eq : g = d.finish.1 := graph_eq
  have graph_eq' : g' = d'.finish.1 := graph_eq'
  have nextId_eq : g.nextId = d.graph.nextId := graph_eq ▸ tracked.nextId_finish success
  have le : g.nextId ≤ g'.nextId := by
    rw [nextId_eq, graph_eq', tracked'.nextId_finish success']
    exact continues.nextId_le
  have same (id : TypeId) (inside : id < g.nextId) : g'.get id = g.get id := by
    rw [graph_eq, graph_eq']
    exact continues.get_finish tracked tracked' success success' meanings (nextId_eq ▸ inside)
  have indexType : g'.indexType = g.indexType := by
    rw [graph_eq, graph_eq', Decoding.indexType_finish tracked success,
      Decoding.indexType_finish tracked' success', continues.indexType_eq]
  obtain ⟨listed, emitted⟩ := Graph.emittedTypes_prefix complete complete' le same
  refine ⟨Graph.records_prefix le same, listed, indexType, emitted, ?_⟩
  intro symbols symbols' id mem
  have index := (complete.numbered symbols).index_eq mem
  have index' := (complete'.numbered symbols').index_eq (emitted.subset mem)
  exact index'.trans ((Graph.placeNumber_of_prefix emitted mem).trans index.symm)

/-- The records of a unit that is stored twice begin with those of the unit that is stored once. -/
theorem decode_append_sampleUnit :
  let g := (sampleUnit.decode .empty).graph
  let g' := ((sampleUnit.append sampleUnit.info).decode .empty).graph
  0 < sampleUnit.info.size ∧ (sampleUnit.decode .empty).error = none
  ∧ ((sampleUnit.append sampleUnit.info).decode .empty).error = none
  ∧ g.records.toList <+: g'.records.toList ∧ g.nextId = 8 ∧ g'.nextId = 14
  := by
  intro g g'
  have nonempty : 0 < sampleUnit.info.size := by decide +kernel
  have decoded' : ((sampleUnit.append sampleUnit.info).decode .empty).error = none := by
    decide +kernel
  obtain ⟨records, -⟩ := decode_append nonempty decode_sampleUnit decoded'
  exact ⟨nonempty, decode_sampleUnit, decoded', records, by decide +kernel, by decide +kernel⟩

end Sections

end Dwarf

end CompactTypes

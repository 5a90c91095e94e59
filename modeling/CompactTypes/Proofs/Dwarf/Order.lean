import CompactTypes.Proofs.Dwarf.Children
import CompactTypes.Proofs.Resolution.Numbered

/-!
# The order of the records

Entries lie one after the other in the section of entries, and their records are made in this
order.  So the offset of an entry stands for the entry, what references to it mean is never
overwritten, and of two entries the first one has the record with the smaller position and the
smaller number, `Sections.ordered_decode`.  That the walk reads every unit to its end does not
matter: `Decoding.Pursued` is the rule for what also holds of a walk that a fault has stopped.
-/

namespace CompactTypes.Dwarf

/-- What references to the entry mean, by its offset. -/
def Visit.definition? (v : Visit) : Option (Nat × Meaning) :=
  v.meaning?.map (v.offset, ·)

/-- An entry that means a record has made it. -/
theorem Visit.made?_of_meaning? {v : Visit} {id : TypeId} (h : v.meaning? = some (.record id)) :
  v.made? = some id
  := by
  rw [meaning?] at h
  rw [made?]
  cases hc : v.contribution <;> rw [hc] at h <;> cases h <;> rfl

theorem Visit.definition?_eq_some_iff {v : Visit} {offset : Nat} {m : Meaning} :
  v.definition? = some (offset, m) ↔ v.offset = offset ∧ v.meaning? = some m
  := by
  rw [definition?, Option.map_eq_some_iff]
  constructor
  · rintro ⟨m', meaning, same⟩
    cases same
    exact ⟨rfl, meaning⟩
  · rintro ⟨rfl, meaning⟩
    exact ⟨m, meaning, rfl⟩

namespace Decoding

/-! ### Walks that a fault may stop -/

/-- A relation between the visits so far and the state of a walk is kept by every visit, by the end
of a unit, and by a fault. -/
structure Pursued (s : Sections) (R : List Visit → Decoding → Prop) : Prop
    extends Followed s R where
  stop : ∀ {visits : List Visit} {d : Decoding} {u : CompilationUnit} {depth : Int} {e : Entry}
    {f : Fault}, R visits d → d.visitOf? s u depth e = .error f →
    R visits (d.visit s u depth e).1

section

variable {s : Sections} {R : List Visit → Decoding → Prop} {visits : List Visit} {d : Decoding}

theorem Pursued.visitAll (pursued : Pursued s R) {u : CompilationUnit}
    {entries : List (Int × Entry)} (h : R visits d)
    (increasing : ((visits ++ entryVisits s u entries d).map Visit.offset).Pairwise (· < ·)) :
  R (visits ++ entryVisits s u entries d) (visitAll s u entries d).1
  := by
  induction entries generalizing visits d with
  | nil =>
    rw [entryVisits, List.append_nil]
    exact h
  | cons item entries ih =>
    cases hv : d.visitOf? s u item.1 item.2 with
    | error f =>
      have stopped := visit_of_error hv
      have last : Decoding.visitAll s u (item :: entries) d = d.visit s u item.1 item.2 := by
        rw [Decoding.visitAll]
        split
        next step => exact step.symm
        next step =>
          rw [step] at stopped
          cases stopped
      rw [entryVisits, hv, List.append_nil, last]
      exact pursued.stop h hv
    | ok v =>
      obtain ⟨rest, visits_eq⟩ := visitAll_of_ok hv entries
      rw [visits_eq] at increasing
      have fresh (w : Visit) (mem : w ∈ visits) : w.offset ≠ v.offset := by
        rw [List.map_append, List.pairwise_append] at increasing
        exact Nat.ne_of_lt (increasing.2.2 _ (List.mem_map_of_mem mem) _
          (List.mem_map_of_mem List.mem_cons_self))
      have visited := pursued.visit h hv fresh
      rw [← List.singleton_append, ← List.append_assoc] at increasing
      rw [visits_eq, rest, ← List.singleton_append, ← List.append_assoc]
      exact ih visited increasing

theorem Pursued.walkUnit (pursued : Pursued s R) {u : CompilationUnit} (h : R visits d)
    (increasing : ((visits ++ d.unitVisits s u).map Visit.offset).Pairwise (· < ·)) :
  R (visits ++ d.unitVisits s u) (d.walkUnit s u).1
  := by
  have visited := pursued.visitAll h increasing
  rw [Decoding.walkUnit]
  split
  next entries =>
    rw [entries] at visited
    exact visited
  next entries =>
    rw [entries] at visited
    split
    · exact visited
    · exact pursued.close visited

theorem Pursued.walkUnits (pursued : Pursued s R) {units : List CompilationUnit} (h : R visits d)
    (increasing : ((visits ++ d.unitsVisits s units).map Visit.offset).Pairwise (· < ·)) :
  R (visits ++ d.unitsVisits s units) (d.walkUnits s units).1
  := by
  induction units generalizing visits d with
  | nil =>
    rw [unitsVisits, List.append_nil]
    exact h
  | cons u units ih =>
    rw [unitsVisits, ← List.append_assoc] at increasing ⊢
    have first : ((visits ++ d.unitVisits s u).map Visit.offset).Pairwise (· < ·) := by
      rw [List.map_append] at increasing
      exact (List.pairwise_append.mp increasing).1
    have walked := pursued.walkUnit h first
    rw [Decoding.walkUnits]
    cases unit : d.walkUnit s u with
    | mk d₁ fault =>
      rw [unit] at walked increasing
      cases fault with
      | some f =>
        rw [List.append_nil]
        exact walked
      | none => exact ih walked increasing

/-- What holds at the start and is kept holds after every walk, between the visits up to the first
fault and the state. -/
theorem Pursued.walk (pursued : Pursued s R) {g : Graph} {indexSize : Nat}
    (h : R [] (start g indexSize)) :
  R (s.visits s.units.items g indexSize) (s.walk s.units g indexSize).1
  := by
  have walked := pursued.walkUnits h (s.pairwise_visits g indexSize)
  rw [Sections.walk]
  split
  next all =>
    rw [all] at walked
    exact walked
  next all =>
    rw [all] at walked
    exact walked

end

/-! ### Meanings -/

theorem meanings_nestArrays (entry : Nat) (target : Option Nat) (outer : TypeId)
    (counts : List UInt32) (d : Decoding) :
  (nestArrays entry target outer counts d).meanings = d.meanings
  := by
  induction counts generalizing outer d with
  | nil => rfl
  | cons count counts ih => exact ih _ _

theorem meanings_close (d : Decoding) (scope : Scope) :
  (d.close scope).meanings = d.meanings
  := by
  cases scope with
  | array id entry target counts => exact meanings_nestArrays _ _ _ _ _
  | _ => rfl

theorem meanings_closeFrom (depth : Int) (scopes : List (Int × Scope)) (d : Decoding) :
  (closeFrom depth scopes d).meanings = d.meanings
  := by
  induction scopes generalizing d with
  | nil => rfl
  | cons first scopes ih =>
    rw [closeFrom]
    split
    · rfl
    · rw [ih, meanings_close]

theorem meanings_closeAll (scopes : List (Int × Scope)) (d : Decoding) :
  (closeAll scopes d).meanings = d.meanings
  := by
  induction scopes generalizing d with
  | nil => rfl
  | cons first scopes ih => rw [closeAll, ih, meanings_close]

theorem meanings_enter (d : Decoding) (depth : Int) (hasChildren : Bool) (scope : Option Scope) :
  (d.enter depth hasChildren scope).meanings = d.meanings
  := by
  unfold Decoding.enter
  split
  · rfl
  · cases scope with
    | none => rfl
    | some scope => exact meanings_close d scope

theorem meanings_abandon (d : Decoding) (r : Option TypeRecord) :
  (d.abandon r).meanings = d.meanings
  := by
  cases r <;> rfl

/-- What references mean is known from the visits that define it. -/
def Defined (visits : List Visit) (d : Decoding) : Prop :=
  ∀ (offset : Nat) (m : Meaning), d.meanings[offset]? = some m ↔
    ∃ v ∈ visits, v.offset = offset ∧ v.meaning? = some m

theorem pursued_defined (s : Sections) :
  Pursued s Defined
  := by
  constructor
  · constructor
    · intro visits d u depth e v h hv fresh offset m
      obtain ⟨-, rfl, rfl, -, -, id, notices, result⟩ := visit_of_ok hv
      let arrived := (d.arrive v.depth).note notices
      have same : arrived.meanings = d.meanings := meanings_closeFrom _ _ _
      have unknown : arrived.meanings[v.offset]? = none := by
        rw [same]
        apply Option.eq_none_iff_forall_ne_some.mpr
        intro m' found
        obtain ⟨w, mem, here, -⟩ := (h v.offset m').mp found
        exact fresh w mem here
      have learns := learns_add (d := arrived) id unknown offset m
      rw [result, after, meanings_enter, learns, same, h offset m]
      simp only [List.mem_append, List.mem_singleton, or_and_right, exists_or, exists_eq_left]
    · intro visits d h offset m
      rw [meanings_closeAll]
      exact h offset m
  · intro visits d u depth e f h hv offset m
    have same : (d.visit s u depth e).1.meanings = d.meanings := by
      have stopped := visit_of_error hv
      rw [visit] at stopped ⊢
      dsimp only at stopped ⊢
      split
      next =>
        rw [meanings_abandon]
        exact meanings_closeFrom _ _ _
      next read =>
        rw [read] at stopped
        cases stopped
    rw [same]
    exact h offset m

/-- No definition is lost: at the end the entries have the meanings that the visits have given
them, in this order. -/
theorem Defined.toList_eq {visits : List Visit} {d : Decoding} (h : Defined visits d)
    (increasing : (visits.map Visit.offset).Pairwise (· < ·)) :
  d.meanings.toList = visits.filterMap Visit.definition?
  := by
  have sorted : d.meanings.toList.Pairwise (fun a b => a.1 < b.1) :=
    Std.TreeMap.ordered_keys_toList.imp fun less => Nat.compare_eq_lt.mp less
  have sorted' : (visits.filterMap Visit.definition?).Pairwise (fun a b => a.1 < b.1) := by
    rw [List.pairwise_filterMap]
    apply (List.pairwise_map.mp increasing).imp
    rintro v w less ⟨offset, m⟩ defined ⟨offset', m'⟩ defined'
    obtain ⟨rfl, -⟩ := Visit.definition?_eq_some_iff.mp defined
    obtain ⟨rfl, -⟩ := Visit.definition?_eq_some_iff.mp defined'
    exact less
  have distinct {l : List (Nat × Meaning)} (sorted : l.Pairwise (fun a b => a.1 < b.1)) :
      l.Nodup := by
    apply sorted.imp
    rintro a b less rfl
    exact Nat.lt_irrefl _ less
  refine List.Perm.eq_of_pairwise (fun a b _ _ less less' => ?_) sorted sorted' ?_
  · exact absurd less' (Nat.lt_asymm less)
  · rw [List.perm_ext_iff_of_nodup (distinct sorted) (distinct sorted')]
    rintro ⟨offset, m⟩
    rw [Std.TreeMap.mem_toList_iff_getElem?_eq_some, h offset m, List.mem_filterMap]
    simp only [Visit.definition?_eq_some_iff]

/-! ### Positions of records -/

/-- Visits make records one after the other. -/
def MadeInOrder (visits : List Visit) (d : Decoding) : Prop :=
  (∀ v ∈ visits, ∀ id, v.made? = some id → id < d.graph.nextId)
    ∧ visits.Pairwise fun v w => ∀ id, v.made? = some id → id < w.id

theorem pursued_madeInOrder (s : Sections) :
  Pursued s MadeInOrder
  := by
  constructor
  · constructor
    · rintro visits d u depth e v ⟨made, earlier⟩ hv -
      refine ⟨fun w mem id new => ?_, ?_⟩
      · rcases List.mem_append.mp mem with mem | mem
        · exact (kept_nextId_le (id + 1)).visit (made w mem id new) u depth e
        · obtain rfl := List.mem_singleton.mp mem
          obtain ⟨r, record, rfl⟩ := Option.map_eq_some_iff.mp new
          exact (nextId_visit hv).2 r record
      · rw [List.pairwise_append]
        refine ⟨earlier, List.pairwise_singleton _ _, fun w mem last new id made' => ?_⟩
        obtain rfl := List.mem_singleton.mp new
        exact Nat.lt_of_lt_of_le (made w mem id made') (nextId_visit hv).1
    · rintro visits d ⟨made, earlier⟩
      exact ⟨fun w mem id new => (kept_nextId_le (id + 1)).closeAll (made w mem id new) d.scopes,
        earlier⟩
  · rintro visits d u depth e f ⟨made, earlier⟩ -
    exact ⟨fun w mem id new => (kept_nextId_le (id + 1)).visit (made w mem id new) u depth e,
      earlier⟩

/-- Of two entries that mean records, the first one means the record with the smaller position. -/
theorem MadeInOrder.lt_iff_lt {visits : List Visit} {d : Decoding} (h : MadeInOrder visits d)
    (increasing : (visits.map Visit.offset).Pairwise (· < ·)) {v w : Visit} (hv : v ∈ visits)
    (hw : w ∈ visits) {id id' : TypeId} (made : v.made? = some id) (made' : w.made? = some id') :
  v.offset < w.offset ↔ id < id'
  := by
  let Before (v w : Visit) : Prop := v.offset < w.offset ∧ ∀ id, v.made? = some id → id < w.id
  have ordered : visits.Pairwise Before := (List.pairwise_map.mp increasing).and h.2
  have compared : v = w ∨ Before v w ∨ Before w v := by
    by_cases same : v = w
    · exact .inl same
    · have either : visits.Pairwise fun v w => Before v w ∨ Before w v :=
        ordered.imp fun before => .inl before
      have symmetric : Std.Symm fun v w => Before v w ∨ Before w v := ⟨fun _ _ => Or.symm⟩
      exact .inr (either.forall hv hw same)
  obtain ⟨-, -, rfl⟩ := Option.map_eq_some_iff.mp made
  obtain ⟨-, -, rfl⟩ := Option.map_eq_some_iff.mp made'
  rcases compared with rfl | ⟨less, less'⟩ | ⟨less, less'⟩
  · exact iff_of_false (Nat.lt_irrefl _) (Nat.lt_irrefl _)
  · exact iff_of_true less (less' _ made)
  · exact iff_of_false (Nat.lt_asymm less) (Nat.lt_asymm (less' _ made'))

theorem madeInOrder_walk (s : Sections) (g : Graph) (size : Nat) :
  MadeInOrder (s.visits s.units.items g size) (s.walk s.units g size).1
  := (pursued_madeInOrder s).walk ⟨fun _ mem => absurd mem List.not_mem_nil, .nil⟩

/-- No two visits make the same record. -/
theorem eq_of_made {s : Sections} {g : Graph} {size : Nat} {v w : Visit}
    (mem : v ∈ s.visits s.units.items g size) (mem' : w ∈ s.visits s.units.items g size)
    {id : TypeId} (made : v.made? = some id) (made' : w.made? = some id) :
  v = w
  := by
  have increasing := s.pairwise_visits g size
  have ordered := madeInOrder_walk s g size
  have same : v.offset = w.offset := by
    apply Nat.le_antisymm <;> apply Nat.le_of_not_lt <;> intro less
    · exact Nat.lt_irrefl id ((ordered.lt_iff_lt increasing mem' mem made' made).mp less)
    · exact Nat.lt_irrefl id ((ordered.lt_iff_lt increasing mem mem' made made').mp less)
  exact List.inj_on_of_nodup_map (increasing.imp Nat.ne_of_lt) mem mem' same

end Decoding

/-! ### Numbers of types -/

/-- The types that have a place in the output are in the order of their positions. -/
theorem pairwise_emittedTypes {g : Graph} (complete : g.Complete) :
  g.emittedTypes.Pairwise (· < ·)
  := by
  rw [Graph.emittedTypes, complete.allTypes_eq]
  exact List.pairwise_lt_range.filter _

/-- Of two types of the output, the one with the smaller position has the smaller place. -/
theorem place_lt_place {ids : List TypeId} (sorted : ids.Pairwise (· < ·)) {place place' : Nat}
    {id id' : TypeId} (found : ids[place]? = some id) (found' : ids[place']? = some id')
    (less : id < id') :
  place < place'
  := by
  obtain ⟨inside, rfl⟩ := List.getElem?_eq_some_iff.mp found
  obtain ⟨inside', rfl⟩ := List.getElem?_eq_some_iff.mp found'
  rcases Nat.lt_trichotomy place place' with before | rfl | after
  · exact before
  · exact absurd less (Nat.lt_irrefl _)
  · exact absurd less (Nat.lt_asymm (List.pairwise_iff_getElem.mp sorted _ _ inside' inside after))

/-- Of two types of the output, the one with the smaller position has the smaller number. -/
theorem numbers_ordered {g₀ : Graph} (complete : g₀.Complete) (symbols : List Symbol)
    {id id' : TypeId} :
  let g := g₀.withSymbols symbols
  id ∈ g.emittedTypes → id' ∈ g.emittedTypes → id < id' →
  ∃ place place', place < place'
    ∧ g.emittedTypes[place]? = some id ∧ g.emittedTypes[place']? = some id'
    ∧ (g.get id).index = UInt32.ofNat (place + 1)
    ∧ (g.get id').index = UInt32.ofNat (place' + 1)
    ∧ (g.typeCount < wordValues 4 → (g.get id).index < (g.get id').index)
  := by
  intro g mem mem' less
  have numbered := complete.numbered symbols
  obtain ⟨place, at_place⟩ := List.getElem?_of_mem mem
  obtain ⟨place', at_place'⟩ := List.getElem?_of_mem mem'
  have sorted : g.emittedTypes.Pairwise (· < ·) :=
    numbered.emittedTypes_eq ▸ pairwise_emittedTypes complete
  have before := place_lt_place sorted at_place at_place' less
  have index := numbered.index_of_place complete at_place
  have index' := numbered.index_of_place complete at_place'
  refine ⟨place, place', before, at_place, at_place', index, index', fun small => ?_⟩
  have inside : place' < g.typeCount := (List.getElem?_eq_some_iff.mp at_place').1
  have fits : place' + 1 < wordValues 4 := Nat.lt_of_le_of_lt inside small
  rw [index, index', UInt32.lt_iff_toNat_lt,
    UInt32.toNat_ofNat_of_lt' (Nat.lt_trans (Nat.succ_lt_succ before) fits),
    UInt32.toNat_ofNat_of_lt' fits]
  exact Nat.succ_lt_succ before

namespace Sections

variable {s : Sections} {size : Nat}

/-- The offsets of entries order what has been made of them.  The offsets of all entries increase
from one to the next across all units.  What references to the entries mean, whether records or
synonyms, is defined at different offsets in this order, and nothing of it is lost.  Of two entries
that mean records, the first one means the record with the smaller position, which stands at the
smaller place of the output and has its number. -/
theorem ordered_decode (width : s.addressSize = .ok size) :
  let visits := s.visits s.units.items .empty size
  let d := (s.walk s.units .empty size).1
  (s.units.items.flatMap CompilationUnit.offsets).Pairwise (· < ·)
  ∧ (visits.map Visit.offset).Sublist (s.units.items.flatMap CompilationUnit.offsets)
  ∧ d.meanings.toList = visits.filterMap Visit.definition?
  ∧ (∀ (offset offset' : Nat) (id id' : TypeId), d.meanings[offset]? = some (.record id) →
    d.meanings[offset']? = some (.record id') → (offset < offset' ↔ id < id'))
  ∧ ((s.decode .empty).error = none → ∀ symbols,
    let g := (s.decode .empty).graph.withSymbols symbols
    ∀ (offset offset' : Nat) (id id' : TypeId), d.meanings[offset]? = some (.record id) →
      d.meanings[offset']? = some (.record id') → offset < offset' →
      ∃ place place', place < place'
        ∧ g.emittedTypes[place]? = some id ∧ g.emittedTypes[place']? = some id'
        ∧ (g.get id).index = UInt32.ofNat (place + 1)
        ∧ (g.get id').index = UInt32.ofNat (place' + 1)
        ∧ (g.typeCount < wordValues 4 → (g.get id).index < (g.get id').index))
  := by
  intro visits d
  have increasing : (visits.map Visit.offset).Pairwise (· < ·) := s.pairwise_visits .empty size
  have defined : Decoding.Defined visits d := by
    apply (Decoding.pursued_defined s).walk
    intro offset m
    simp [Decoding.start]
  have made : Decoding.MadeInOrder visits d := Decoding.madeInOrder_walk s .empty size
  have ordered (offset offset' : Nat) (id id' : TypeId)
      (found : d.meanings[offset]? = some (.record id))
      (found' : d.meanings[offset']? = some (.record id')) : offset < offset' ↔ id < id' := by
    obtain ⟨v, mem, rfl, meaning⟩ := (defined offset _).mp found
    obtain ⟨w, mem', rfl, meaning'⟩ := (defined offset' _).mp found'
    exact made.lt_iff_lt increasing mem mem' (Visit.made?_of_meaning? meaning)
      (Visit.made?_of_meaning? meaning')
  refine ⟨s.pairwise_offsets, Decoding.offsets_unitsVisits _ _, defined.toList_eq increasing,
    ordered, ?_⟩
  intro decoded symbols g offset offset' id id' found found' less
  have complete := complete_decode decoded
  have numbered := complete.numbered symbols
  obtain ⟨d', walked, graph_eq, -, -⟩ := tracked_of_decode width decoded
  have here : d = d' := congrArg Prod.fst walked
  have emits := emits_walk walked
  have emitted (offset : Nat) (id : TypeId) (found : d.meanings[offset]? = some (.record id)) :
      id ∈ g.emittedTypes := by
    rw [numbered.emittedTypes_eq, graph_eq, emits.finish.2]
    exact emits.meaning offset id (here ▸ found)
  exact numbers_ordered complete symbols (emitted offset id found) (emitted offset' id' found')
    ((ordered offset offset' id id' found found').mp less)

/-- The number of the sample comes before the pointer. -/
theorem ordered_decode_sampleUnit :
  sampleUnit.addressSize = .ok 8 ∧ (sampleUnit.decode .empty).error = none
    ∧ let d := (sampleUnit.walk sampleUnit.units .empty 8).1
    let g := (sampleUnit.decode .empty).graph.withSymbols [⟨1, "f", .function, .defined⟩]
    d.meanings[12]? = some (.record 2) ∧ d.meanings[19]? = some (.record 3)
      ∧ (g.get 2).index < (g.get 3).index
  := by
  have width : sampleUnit.addressSize = .ok 8 := by decide +kernel
  obtain ⟨-, -, -, -, numbers⟩ := ordered_decode width
  refine ⟨width, decode_sampleUnit, ?_⟩
  intro d g
  have first : d.meanings[12]? = some (.record 2) := by decide +kernel
  have second : d.meanings[19]? = some (.record 3) := by decide +kernel
  obtain ⟨-, -, -, -, -, -, -, less⟩ :=
    numbers decode_sampleUnit [⟨1, "f", .function, .defined⟩] 12 19 2 3 first second (by decide)
  exact ⟨first, second, less (by decide +kernel)⟩

end Sections

end CompactTypes.Dwarf

import CompactTypes.Dwarf.Walk
import CompactTypes.Proofs.Dwarf.Contribution
import CompactTypes.Proofs.Dwarf.Offsets

/-!
# Visits

A `Visit` is what happens at one entry: where the entry is, which scope its parent has opened,
what has been read from it, and where its record stands if it makes one.  `Decoding.unitVisits`
are the visits of a walk over a unit, and `Sections.visits` those of a walk over all units.  What
each visit keeps is kept by walks without a fault, `Sections.followed_walk`.
-/

namespace CompactTypes.Dwarf

/-- What happens at an entry. -/
structure Visit where
  unit : CompilationUnit
  depth : Int
  entry : Entry
  /-- The scope that the parent of the entry has opened. -/
  parent : Option Scope
  /-- The position of the next record. -/
  id : TypeId
  contribution : Contribution

namespace Contribution

/-- The record that a contribution adds to the graph. -/
def record? : Contribution → Option TypeRecord
  | plain r | derived r _ | array r _ | aggregate r | enumeration r | subroutine r _
  | subprogram r _ | object r _ => some r
  | nothing | dimension _ | member .. | enumerator .. | synonym _ => none

/-- What references to an entry mean by its contribution, whose record stands at `id`. -/
def meaning? (id : TypeId) : Contribution → Option Meaning
  | plain _ | derived .. | array .. | aggregate _ | enumeration _ | subroutine .. =>
    some (.record id)
  | synonym target => some (.synonym target)
  | nothing | subprogram .. | object .. | dimension _ | member .. | enumerator .. => none

/-- Whether a contribution is a member of the record at a position. -/
def isMemberOf (owner : TypeId) : Contribution → Bool
  | member owner' _ _ _ => owner' = owner
  | _ => false

end Contribution

namespace Visit

/-- The offset of the entry in the section of entries. -/
def offset (v : Visit) : Nat :=
  v.unit.globalOffset v.entry.offset

/-- The entry with its unit and its depth. -/
def place (v : Visit) : CompilationUnit × Int × Entry :=
  (v.unit, v.depth, v.entry)

/-- What references to the entry mean. -/
def meaning? (v : Visit) : Option Meaning :=
  v.contribution.meaning? v.id

/-- The type that the entry refers to, which may be no type at all. -/
def reference (v : Visit) : Option (Option Nat) :=
  v.contribution.reference

/-- The contribution is what has been read from the entry. -/
def Faithful (s : Sections) (v : Visit) : Prop :=
  (Contribution.read s v.unit v.parent v.depth v.entry).value = .ok v.contribution

end Visit

namespace Decoding

variable (s : Sections)

/-- The state in which an entry at the given depth is visited: the scopes that are not around
the entry have ended. -/
def arrive (d : Decoding) (depth : Int) : Decoding :=
  closeFrom depth d.scopes d

/-- What happens at an entry of a unit. -/
def visitOf? (u : CompilationUnit) (depth : Int) (e : Entry) (d : Decoding) :
    Except Fault Visit := do
  let parent := (d.arrive depth).parentScope depth
  let contribution ← (Contribution.read s u parent depth e).value
  return ⟨u, depth, e, parent, (d.arrive depth).graph.nextId, contribution⟩

/-- The state after an entry. -/
def after (d : Decoding) (notices : List Fault) (v : Visit) : Decoding :=
  let arrived := (d.arrive v.depth).note notices
  (arrived.add v.offset v.contribution).enter v.depth v.entry.hasChildren
    (opened v.id v.offset v.contribution)

/-- The visits of a walk over some entries of a unit, up to the first fault. -/
def entryVisits (u : CompilationUnit) : List (Int × Entry) → Decoding → List Visit
  | [], _ => []
  | (depth, e) :: entries, d =>
    match d.visitOf? s u depth e with
    | .error _ => []
    | .ok v => v :: entryVisits u entries (d.visit s u depth e).1

/-- The visits of a walk over a unit. -/
def unitVisits (u : CompilationUnit) (d : Decoding) : List Visit :=
  entryVisits s u u.contents.items d

/-- The visits of a walk over units, up to the first fault. -/
def unitsVisits : List CompilationUnit → Decoding → List Visit
  | [], _ => []
  | u :: units, d =>
    d.unitVisits s u ++
      match d.walkUnit s u with
      | (_, some _) => []
      | (d, none) => unitsVisits units d

variable {s}

/-- A visit of an entry changes the state as its contribution says. -/
theorem visit_of_ok {u : CompilationUnit} {depth : Int} {e : Entry} {d : Decoding} {v : Visit}
    (h : d.visitOf? s u depth e = .ok v) :
  v.unit = u ∧ v.depth = depth ∧ v.entry = e ∧ v.Faithful s
    ∧ v.parent = (d.arrive depth).parentScope depth ∧ v.id = (d.arrive depth).graph.nextId
    ∧ ∃ notices, d.visit s u depth e = (d.after notices v, none)
  := by
  obtain ⟨contribution, read, h⟩ := ok_of_bind h
  cases h
  refine ⟨rfl, rfl, rfl, read, rfl, rfl,
    (Contribution.read s u ((d.arrive depth).parentScope depth) depth e).notices, ?_⟩
  rw [visit]
  simp only [arrive] at read
  simp only [read]
  rfl

theorem visit_of_error {u : CompilationUnit} {depth : Int} {e : Entry} {d : Decoding} {f : Fault}
    (h : d.visitOf? s u depth e = .error f) :
  (d.visit s u depth e).2 = some f
  := by
  cases read : (Contribution.read s u ((d.arrive depth).parentScope depth) depth e).value with
  | ok contribution =>
    rw [visitOf?] at h
    simp only [read] at h
    cases h
  | error f' =>
    rw [visitOf?] at h
    simp only [read] at h
    cases h
    rw [visit]
    simp only [arrive] at read
    simp only [read]

/-- The visits of a walk are at the entries that it meets first. -/
theorem offsets_entryVisits (u : CompilationUnit) (entries : List (Int × Entry)) (d : Decoding) :
  ((entryVisits s u entries d).map Visit.offset).Sublist
    (entries.map fun item => u.globalOffset item.2.offset)
  := by
  induction entries generalizing d with
  | nil => exact .slnil
  | cons item entries ih =>
    obtain ⟨depth, e⟩ := item
    rw [entryVisits]
    cases h : d.visitOf? s u depth e with
    | error f => apply List.nil_sublist
    | ok v =>
      obtain ⟨rfl, -, rfl, -⟩ := visit_of_ok h
      exact (ih _).cons_cons _

theorem offsets_unitsVisits (units : List CompilationUnit) (d : Decoding) :
  ((d.unitsVisits s units).map Visit.offset).Sublist (units.flatMap CompilationUnit.offsets)
  := by
  induction units generalizing d with
  | nil => exact .slnil
  | cons u units ih =>
    rw [unitsVisits, List.map_append, List.flatMap_cons]
    apply List.Sublist.append (offsets_entryVisits u u.contents.items d)
    split
    · apply List.nil_sublist
    · exact ih _

/-! ### Walks without a fault -/

/-- A walk goes on with the other entries after a visit of the first one. -/
theorem visitAll_of_ok {u : CompilationUnit} {item : Int × Entry} {d : Decoding} {v : Visit}
    (h : d.visitOf? s u item.1 item.2 = .ok v) (entries : List (Int × Entry)) :
  visitAll s u (item :: entries) d = visitAll s u entries (d.visit s u item.1 item.2).1
    ∧ entryVisits s u (item :: entries) d
      = v :: entryVisits s u entries (d.visit s u item.1 item.2).1
  := by
  obtain ⟨-, -, -, -, -, -, notices, result⟩ := visit_of_ok h
  rw [visitAll, entryVisits, h, result]
  exact ⟨rfl, rfl⟩

/-- A walk over entries without a fault visits the first entry. -/
theorem exists_visitOf?_of_visitAll {u : CompilationUnit} {item : Int × Entry}
    {entries : List (Int × Entry)} {d d' : Decoding}
    (walked : visitAll s u (item :: entries) d = (d', none)) :
  ∃ v, d.visitOf? s u item.1 item.2 = .ok v
  := by
  cases hv : d.visitOf? s u item.1 item.2 with
  | ok v => exact ⟨v, rfl⟩
  | error f =>
    have fault := visit_of_error hv
    rw [visitAll] at walked
    cases step : d.visit s u item.1 item.2 with
    | mk stopped fault? =>
      rw [step] at fault walked
      subst fault
      cases walked

/-- A walk over entries without a fault visits every entry, and each visit reads its entry. -/
theorem visits_of_visitAll {u : CompilationUnit} {entries : List (Int × Entry)} {d d' : Decoding}
    (walked : visitAll s u entries d = (d', none)) :
  (entryVisits s u entries d).map Visit.place = entries.map (u, ·)
    ∧ ∀ v ∈ entryVisits s u entries d, v.Faithful s
  := by
  induction entries generalizing d with
  | nil => exact ⟨rfl, fun v mem => absurd mem List.not_mem_nil⟩
  | cons item entries ih =>
    obtain ⟨v, hv⟩ := exists_visitOf?_of_visitAll walked
    obtain ⟨rest, visits⟩ := visitAll_of_ok hv entries
    obtain ⟨rfl, depth, entry, faithful, -⟩ := visit_of_ok hv
    obtain ⟨places, all⟩ := ih (rest ▸ walked)
    rw [visits, List.map_cons, List.map_cons, places]
    refine ⟨congrArg (· :: _) ?_, List.forall_mem_cons.mpr ⟨faithful, all⟩⟩
    rw [Visit.place, depth, entry]

/-- A walk over entries without a fault visits those of a first part and then the others. -/
theorem exists_of_visitAll_append {u : CompilationUnit} {entries entries' : List (Int × Entry)}
    {d d' : Decoding} (walked : visitAll s u (entries ++ entries') d = (d', none)) :
  ∃ d₁, visitAll s u entries d = (d₁, none) ∧ visitAll s u entries' d₁ = (d', none)
    ∧ entryVisits s u (entries ++ entries') d
      = entryVisits s u entries d ++ entryVisits s u entries' d₁
  := by
  induction entries generalizing d with
  | nil => exact ⟨d, rfl, walked, rfl⟩
  | cons item entries ih =>
    obtain ⟨v, hv⟩ := exists_visitOf?_of_visitAll walked
    obtain ⟨whole, visits⟩ := visitAll_of_ok hv (entries ++ entries')
    obtain ⟨part, visits'⟩ := visitAll_of_ok hv entries
    obtain ⟨d₁, first, second, visited⟩ := ih (whole ▸ walked)
    refine ⟨d₁, part.trans first, second, ?_⟩
    rw [List.cons_append, visits, visits', visited]
    rfl

theorem unitsVisits_cons {u : CompilationUnit} {units : List CompilationUnit} {d d' : Decoding}
    (unit : walkUnit s u d = (d', none)) :
  d.unitsVisits s (u :: units) = d.unitVisits s u ++ d'.unitsVisits s units
  := by
  rw [unitsVisits, unit]

/-- A walk over units without a fault walks over those of a first part and then the others. -/
theorem exists_of_walkUnits_append {units units' : List CompilationUnit} {d d' : Decoding}
    (walked : walkUnits s (units ++ units') d = (d', none)) :
  ∃ d₁, walkUnits s units d = (d₁, none) ∧ walkUnits s units' d₁ = (d', none)
    ∧ d.unitsVisits s (units ++ units') = d.unitsVisits s units ++ d₁.unitsVisits s units'
  := by
  induction units generalizing d with
  | nil => exact ⟨d, rfl, walked, rfl⟩
  | cons u units ih =>
    rw [List.cons_append, walkUnits] at walked
    split at walked
    next => cases walked
    next d₂ unit =>
      obtain ⟨d₁, first, second, visited⟩ := ih walked
      refine ⟨d₁, ?_, second, ?_⟩
      · rw [walkUnits, unit]
        exact first
      · rw [List.cons_append, unitsVisits_cons unit, unitsVisits_cons unit, visited,
          List.append_assoc]

theorem visitAll_of_walkUnit {u : CompilationUnit} {d d' : Decoding}
    (unit : walkUnit s u d = (d', none)) :
  ∃ d₁, visitAll s u u.contents.items d = (d₁, none)
  := by
  rw [walkUnit] at unit
  split at unit
  next => cases unit
  next d₁ entries => exact ⟨d₁, entries⟩

/-- A walk over units without a fault visits every entry, and each visit reads its entry. -/
theorem visits_of_walkUnits {units : List CompilationUnit} {d d' : Decoding}
    (walked : walkUnits s units d = (d', none)) :
  (d.unitsVisits s units).map Visit.place
      = units.flatMap (fun u => u.contents.items.map (u, ·))
    ∧ ∀ v ∈ d.unitsVisits s units, v.Faithful s
  := by
  induction units generalizing d with
  | nil => exact ⟨rfl, fun v mem => absurd mem List.not_mem_nil⟩
  | cons u units ih =>
    rw [walkUnits] at walked
    split at walked
    next => cases walked
    next d₁ unit =>
      obtain ⟨d₂, entries⟩ := visitAll_of_walkUnit unit
      obtain ⟨places, faithful⟩ := visits_of_visitAll entries
      obtain ⟨places', faithful'⟩ := ih walked
      rw [unitsVisits_cons unit, List.map_append, List.flatMap_cons, places']
      refine ⟨congrArg (· ++ _) places, fun v mem => ?_⟩
      rcases List.mem_append.mp mem with mem | mem
      · exact faithful v mem
      · exact faithful' v mem

/-- A walk over units without a fault walks over the entries of each of them. -/
theorem exists_visitAll_of_mem {units : List CompilationUnit} {d d' : Decoding}
    (walked : walkUnits s units d = (d', none)) {u : CompilationUnit} (mem : u ∈ units) :
  ∃ d₁ d₂, visitAll s u u.contents.items d₁ = (d₂, none)
    ∧ ∀ v ∈ d₁.unitVisits s u, v ∈ d.unitsVisits s units
  := by
  induction units generalizing d with
  | nil => cases mem
  | cons first units ih =>
    rw [walkUnits] at walked
    split at walked
    next => cases walked
    next d' unit =>
      rw [unitsVisits_cons unit]
      rcases List.mem_cons.mp mem with rfl | mem
      · obtain ⟨d₂, entries⟩ := visitAll_of_walkUnit unit
        exact ⟨d, d₂, entries, fun v mem => List.mem_append_left _ mem⟩
      · obtain ⟨d₁, d₂, entries, visited⟩ := ih walked mem
        exact ⟨d₁, d₂, entries, fun v mem => List.mem_append_right _ (visited v mem)⟩

/-! ### What walks without a fault keep -/

/-- A relation between the visits so far, whose entries are at different offsets, and the state of a
walk is kept by every visit and by the end of a unit. -/
structure Followed (s : Sections) (R : List Visit → Decoding → Prop) : Prop where
  visit : ∀ {visits : List Visit} {d : Decoding} {u : CompilationUnit} {depth : Int} {e : Entry}
    {v : Visit}, R visits d → d.visitOf? s u depth e = .ok v →
    (∀ w ∈ visits, w.offset ≠ v.offset) → R (visits ++ [v]) (d.visit s u depth e).1
  close : ∀ {visits : List Visit} {d : Decoding}, R visits d → R visits (closeAll d.scopes d)

section

variable {R : List Visit → Decoding → Prop} {visits : List Visit} {d d' : Decoding}

theorem Followed.visitAll (followed : Followed s R) {u : CompilationUnit}
    {entries : List (Int × Entry)} (h : R visits d)
    (increasing : ((visits ++ entryVisits s u entries d).map Visit.offset).Pairwise (· < ·))
    (walked : visitAll s u entries d = (d', none)) :
  R (visits ++ entryVisits s u entries d) d'
  := by
  induction entries generalizing visits d with
  | nil =>
    cases walked
    rw [entryVisits, List.append_nil]
    exact h
  | cons item entries ih =>
    obtain ⟨v, hv⟩ := exists_visitOf?_of_visitAll walked
    obtain ⟨rest, visits_eq⟩ := visitAll_of_ok hv entries
    rw [visits_eq] at increasing ⊢
    rw [rest] at walked
    have fresh (w : Visit) (mem : w ∈ visits) : w.offset ≠ v.offset := by
      rw [List.map_append, List.pairwise_append] at increasing
      exact Nat.ne_of_lt (increasing.2.2 _ (List.mem_map_of_mem mem) _
        (List.mem_map_of_mem List.mem_cons_self))
    have visited := followed.visit h hv fresh
    rw [← List.singleton_append, ← List.append_assoc] at increasing ⊢
    exact ih visited increasing walked

theorem Followed.walkUnit (followed : Followed s R) {u : CompilationUnit} (h : R visits d)
    (increasing : ((visits ++ d.unitVisits s u).map Visit.offset).Pairwise (· < ·))
    (walked : walkUnit s u d = (d', none)) :
  R (visits ++ d.unitVisits s u) d'
  := by
  rw [Decoding.walkUnit] at walked
  split at walked
  next => cases walked
  next d₁ entries =>
    split at walked
    next => cases walked
    next =>
      cases walked
      exact followed.close (followed.visitAll h increasing entries)

theorem Followed.walkUnits (followed : Followed s R) {units : List CompilationUnit} (h : R visits d)
    (increasing : ((visits ++ d.unitsVisits s units).map Visit.offset).Pairwise (· < ·))
    (walked : walkUnits s units d = (d', none)) :
  R (visits ++ d.unitsVisits s units) d'
  := by
  induction units generalizing visits d with
  | nil =>
    cases walked
    rw [unitsVisits, List.append_nil]
    exact h
  | cons u units ih =>
    rw [Decoding.walkUnits] at walked
    split at walked
    next => cases walked
    next d₁ unit =>
      rw [unitsVisits_cons unit, ← List.append_assoc] at increasing ⊢
      have first : ((visits ++ d.unitVisits s u).map Visit.offset).Pairwise (· < ·) := by
        rw [List.map_append] at increasing
        exact (List.pairwise_append.mp increasing).1
      exact ih (followed.walkUnit h first unit) increasing walked

theorem scopes_closeAll (scopes : List (Int × Scope)) (d : Decoding) :
  (closeAll scopes d).scopes = []
  := by
  induction scopes generalizing d with
  | nil => rfl
  | cons first scopes ih => exact ih _

/-- A walk over units leaves no scope open. -/
theorem scopes_walkUnits {units : List CompilationUnit} (closed : d.scopes = [])
    (walked : walkUnits s units d = (d', none)) :
  d'.scopes = []
  := by
  induction units generalizing d with
  | nil =>
    cases walked
    exact closed
  | cons u units ih =>
    rw [walkUnits] at walked
    split at walked
    next => cases walked
    next d₁ unit =>
      apply ih _ walked
      rw [walkUnit] at unit
      split at unit
      next => cases unit
      next =>
        split at unit
        next => cases unit
        next =>
          cases unit
          exact scopes_closeAll _ _

end

end Decoding

namespace Sections

/-- All entries of all units, with their depths. -/
def entries (s : Sections) : List (CompilationUnit × Int × Entry) :=
  s.units.items.flatMap fun u => u.contents.items.map (u, ·)

/-- The visits of a walk over units that adds to a graph in which array indices have the given
width. -/
def visits (s : Sections) (units : List CompilationUnit) (g : Graph) (indexSize : Nat) :
    List Visit :=
  (Decoding.start g indexSize).unitsVisits s units

/-- No two visits of the units of a section are at the same offset. -/
theorem pairwise_visits (s : Sections) (g : Graph) (indexSize : Nat) :
  ((s.visits s.units.items g indexSize).map Visit.offset).Pairwise (· < ·)
  := s.pairwise_offsets.sublist (Decoding.offsets_unitsVisits s.units.items _)

/-- A walk without a fault has no fault in any unit. -/
theorem walkUnits_of_walk {s : Sections} {units : Stream CompilationUnit} {indexSize : Nat}
    {g : Graph} {d : Decoding} (walked : s.walk units g indexSize = (d, none)) :
  Decoding.walkUnits s units.items (Decoding.start g indexSize) = (d, none)
  := by
  rw [walk] at walked
  split at walked
  next => cases walked
  next d₁ all =>
    obtain ⟨rfl, -⟩ := Prod.mk.inj walked
    exact all

theorem visits_of_walk {s : Sections} {indexSize : Nat} {g : Graph} {d : Decoding}
    (walked : s.walk s.units g indexSize = (d, none)) :
  (s.visits s.units.items g indexSize).map Visit.place = s.entries
    ∧ ∀ v ∈ s.visits s.units.items g indexSize, v.Faithful s
  := Decoding.visits_of_walkUnits (walkUnits_of_walk walked)

/-- What holds at the start and is kept holds after a walk without a fault, between all visits and a
state in which no scope is open. -/
theorem followed_walk {s : Sections} {indexSize : Nat} {g : Graph} {d : Decoding}
    {R : List Visit → Decoding → Prop} (followed : Decoding.Followed s R)
    (h : R [] (Decoding.start g indexSize)) (walked : s.walk s.units g indexSize = (d, none)) :
  R (s.visits s.units.items g indexSize) d ∧ d.scopes = []
  := by
  have all := walkUnits_of_walk walked
  have increasing := s.pairwise_visits g indexSize
  exact ⟨followed.walkUnits h increasing all, Decoding.scopes_walkUnits rfl all⟩

end Sections

end CompactTypes.Dwarf

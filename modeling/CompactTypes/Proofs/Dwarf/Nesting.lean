import CompactTypes.Proofs.Dwarf.Completion
import CompactTypes.Proofs.Dwarf.Decoded
import CompactTypes.Proofs.Dwarf.Moments

/-!
# Nested scopes

The walk over the entries of a unit is what happens in their course, moment by moment: `perform`
handles an entry as the walk does when the scopes that are not around the entry have ended, and ends
a scope only if it is the innermost one and that of the entry in question.  The walk and the course
come to the same state at each entry and at the end of the unit.  So what the course says holds of
the walk, whatever the depths of the entries, `Decoding.nested_scopes`: scopes end from the inside
to the outside, each of them once, and the depths of those that are open have no gaps.
-/

namespace CompactTypes.Dwarf

namespace Decoding

/-- Completes the records of scopes that end one after another. -/
def closeEach (ended : List (Int × Scope)) (d : Decoding) : Decoding :=
  ended.foldl (fun d item => d.close item.2) d

/-- What happens at an entry when the scopes that are not around it have ended. -/
def handle (s : Sections) (u : CompilationUnit) (depth : Int) (e : Entry) (d : Decoding) :
    Decoding × Option Fault :=
  let reading := Contribution.read s u (d.parentScope depth) depth e
  let d := d.note reading.notices
  match reading.value with
  | .error f => (d.abandon (Contribution.unfinished? s u depth e), some f)
  | .ok contribution =>
    let entry := u.globalOffset e.offset
    let scope := opened d.graph.nextId entry contribution
    ((d.add entry contribution).enter depth e.hasChildren scope, none)

theorem visit_eq_handle (s : Sections) (u : CompilationUnit) (depth : Int) (e : Entry)
    (d : Decoding) :
  d.visit s u depth e = (d.arrive depth).handle s u depth e
  := rfl

/-- The state of a walk with the places of the entries whose scopes are open, the innermost
first. -/
structure Stage where
  decoding : Decoding
  openers : List Nat

/-- What happens at a moment of a walk over the given entries.  An entry has to be readable, and a
scope that ends has to be the innermost one and that of the entry at the place. -/
def perform (s : Sections) (u : CompilationUnit) (entries : List (Int × Entry)) (stage : Stage) :
    Moment → Option Stage
  | .handle place => do
    let item ← entries[place]?
    match stage.decoding.handle s u item.1 item.2 with
    | (_, some _) => none
    | (d, none) =>
      some ⟨d, if item.2.hasChildren then place :: stage.openers else stage.openers⟩
  | .close place =>
    match stage.decoding.scopes, stage.openers with
    | (_, scope) :: scopes, opener :: openers =>
      if opener = place then some ⟨(stage.decoding.inside scopes).close scope, openers⟩ else none
    | _, _ => none

variable {s : Sections} {u : CompilationUnit} {entries : List (Int × Entry)} {d d' : Decoding}
  {place : Nat} {opened : List (Int × Nat)} {item : Int × Entry}

/-! ### Scopes that end together -/

theorem closeEach_inside (ended scopes : List (Int × Scope)) (d : Decoding) :
  closeEach ended (d.inside scopes) = (closeEach ended d).inside scopes
  := by
  induction ended generalizing d with
  | nil => rfl
  | cons first ended ih =>
    change closeEach ended ((d.inside scopes).close first.2) = _
    rw [close_inside, ih]
    rfl

/-- The walk takes the scopes that end from the open ones, and completes their records. -/
theorem closeFrom_eq (depth : Int) (scopes : List (Int × Scope)) (d : Decoding) :
  closeFrom depth scopes d = (closeEach (ending depth scopes) d).inside (staying depth scopes)
  := by
  induction scopes generalizing d with
  | nil => rfl
  | cons first scopes ih =>
    rw [closeFrom]
    split
    next shallower =>
      rw [ending, staying, List.takeWhile_cons_of_neg (by simpa using shallower),
        List.dropWhile_cons_of_neg (by simpa using shallower)]
      rfl
    next deeper =>
      rw [ih, ending.eq_def _ (first :: _), staying.eq_def _ (first :: _),
        List.takeWhile_cons_of_pos (by simpa using deeper),
        List.dropWhile_cons_of_pos (by simpa using deeper)]
      rfl

theorem closeAll_eq (scopes : List (Int × Scope)) (d : Decoding) :
  closeAll scopes d = (closeEach scopes d).inside []
  := by
  induction scopes generalizing d with
  | nil => rfl
  | cons first scopes ih => exact ih (d.close first.2)

/-- Scopes that end one by one, the innermost first, complete their records in the same order. -/
theorem perform_closings (s : Sections) (u : CompilationUnit) (entries : List (Int × Entry))
    {ended around : List (Int × Scope)} (outer : List Nat)
    (length_eq : opened.length = ended.length) (scopes : d.scopes = ended ++ around) :
  (opened.map fun item => Moment.close item.2).foldlM (perform s u entries)
      ⟨d, opened.map Prod.snd ++ outer⟩
    = some ⟨(closeEach ended d).inside around, outer⟩
  := by
  induction opened generalizing ended d with
  | nil =>
    obtain rfl := List.length_eq_zero_iff.mp length_eq.symm
    change some (Stage.mk d outer) = some ⟨d.inside around, outer⟩
    have kept : d.inside around = d := inside_of_scopes scopes
    rw [kept]
  | cons first opened ih =>
    cases ended with
    | nil => cases length_eq
    | cons item ended =>
      have step : perform s u entries ⟨d, (first :: opened).map Prod.snd ++ outer⟩ (.close first.2)
          = some ⟨(d.inside (ended ++ around)).close item.2, opened.map Prod.snd ++ outer⟩ := by
        rw [perform, scopes]
        exact if_pos rfl
      have rest := ih (Nat.succ.inj length_eq) (scopes_close item.2 (d.inside (ended ++ around)))
      rw [close_inside, closeEach_inside] at rest
      change (perform s u entries _ (.close first.2)).bind _ = _
      rw [step, close_inside]
      exact rest

/-- The scopes that the walk ends at an entry are those that end in its course. -/
theorem perform_arrive (s : Sections) (u : CompilationUnit) (entries : List (Int × Entry))
    (depths : d.scopes.map Prod.fst = opened.map Prod.fst) (depth : Int) :
  ((ending depth opened).map fun item => Moment.close item.2).foldlM (perform s u entries)
      ⟨d, opened.map Prod.snd⟩
    = some ⟨d.arrive depth, (staying depth opened).map Prod.snd⟩
  ∧ (d.arrive depth).scopes.map Prod.fst = (staying depth opened).map Prod.fst
  := by
  constructor
  · have performed := perform_closings s u entries
      ((staying depth opened).map Prod.snd) (length_ending depths.symm depth)
      (ending_append_staying depth d.scopes).symm
    rw [← List.map_append, ending_append_staying] at performed
    rw [performed, arrive, closeFrom_eq]
  · rw [arrive, scopes_closeFrom, ← staying, map_fst_staying, map_fst_staying, depths]

/-! ### The walk in its course -/

/-- When its scopes have ended, the walk handles an entry as at the moment of its course. -/
theorem perform_visit {v : Visit} (hv : d.visitOf? s u item.1 item.2 = .ok v)
    (found : entries[place]? = some item)
    (depths : d.scopes.map Prod.fst = opened.map Prod.fst) :
  perform s u entries ⟨d.arrive item.1, (staying item.1 opened).map Prod.snd⟩ (.handle place)
    = some ⟨(d.visit s u item.1 item.2).1, (reopen place item opened).map Prod.snd⟩
  ∧ (d.visit s u item.1 item.2).1.scopes.map Prod.fst = (reopen place item opened).map Prod.fst
  := by
  obtain ⟨-, depth, entry, -, -, -, notices, result⟩ := visit_of_ok hv
  have handled := (visit_eq_handle s u item.1 item.2 d).symm.trans result
  have openers : (reopen place item opened).map Prod.snd
      = if item.2.hasChildren then place :: (staying item.1 opened).map Prod.snd
        else (staying item.1 opened).map Prod.snd := by
    rw [reopen]
    split <;> rfl
  have arrived := (perform_arrive s u entries depths item.1).2
  obtain ⟨counts, added⟩ := scopes_add ((d.arrive v.depth).note notices) v.offset v.contribution
  have kept : (((d.arrive v.depth).note notices).add v.offset v.contribution).scopes.map Prod.fst
      = (staying item.1 opened).map Prod.fst := by
    rw [added, ← arrived, depth]
    cases scopes : (d.arrive item.1).scopes <;> simp [note, scopes]
  constructor
  · rw [result, openers, perform, found]
    change (match (d.arrive item.1).handle s u item.1 item.2 with
      | (_, some _) => none
      | (d, none) => some (Stage.mk d _)) = _
    rw [handled]
  · rw [result, after, scopes_enter, reopen, entry]
    split
    · rw [List.map_cons, kept, depth]
      rfl
    · exact kept

/-- The walk over some entries is what happens up to the last one of them. -/
theorem perform_moments (place : Nat) {part : List (Int × Entry)}
    (found : ∀ k item, part[k]? = some item → entries[k + place]? = some item)
    (depths : d.scopes.map Prod.fst = opened.map Prod.fst)
    (walked : visitAll s u part d = (d', none)) :
  (moments place opened part).foldlM (perform s u entries) ⟨d, opened.map Prod.snd⟩
    = some ⟨d', (openings place opened part).map Prod.snd⟩
  ∧ d'.scopes.map Prod.fst = (openings place opened part).map Prod.fst
  := by
  induction part generalizing place opened d with
  | nil =>
    cases walked
    exact ⟨rfl, depths⟩
  | cons item part ih =>
    obtain ⟨v, hv⟩ := exists_visitOf?_of_visitAll walked
    obtain ⟨rest, -⟩ := visitAll_of_ok hv part
    obtain ⟨arrived, -⟩ := perform_arrive s u entries depths item.1
    have here : entries[place]? = some item := Nat.zero_add place ▸ found 0 item rfl
    obtain ⟨handled, reopened⟩ := perform_visit hv here depths
    have later (k : Nat) (item' : Int × Entry) (listed : part[k]? = some item') :
        entries[k + (place + 1)]? = some item' := by
      rw [← Nat.add_assoc, Nat.add_right_comm]
      exact found (k + 1) item' listed
    obtain ⟨performed, synced⟩ := ih (place + 1) later reopened (rest ▸ walked)
    refine ⟨?_, synced⟩
    rw [moments, List.foldlM_append, arrived]
    change (perform s u entries _ (.handle place)).bind _ = _
    rw [handled]
    exact performed

/-- The open scopes are those of entries at their depths. -/
theorem openings_found (place : Nat) {part : List (Int × Entry)}
    (found : ∀ k item, part[k]? = some item → entries[k + place]? = some item)
    (placed : ∀ opening ∈ opened, entries[opening.2]?.map Prod.fst = some opening.1) :
  ∀ opening ∈ openings place opened part, entries[opening.2]?.map Prod.fst = some opening.1
  := by
  induction part generalizing place opened with
  | nil => exact placed
  | cons item part ih =>
    apply ih (place + 1)
    · intro k item' listed
      rw [← Nat.add_assoc, Nat.add_right_comm]
      exact found (k + 1) item' listed
    · have stayed (opening : Int × Nat) (mem : opening ∈ staying item.1 opened) :
          entries[opening.2]?.map Prod.fst = some opening.1 :=
        placed opening ((List.dropWhile_sublist _).mem mem)
      unfold reopen
      split
      · refine List.forall_mem_cons.mpr ⟨?_, stayed⟩
        rw [← Nat.zero_add place, found 0 item rfl]
        rfl
      · exact stayed

theorem depths_of_scopes (closed : d.scopes = []) :
  d.scopes.map Prod.fst = ([] : List (Int × Nat)).map Prod.fst
  := by
  rw [closed]
  rfl

/-- When the walk comes to an entry, it is in the state that its course has before that entry is
handled. -/
theorem perform_before {before after : List (Int × Entry)} (closed : d.scopes = [])
    (walked : visitAll s u before d = (d', none)) :
  ∃ first last openers,
    course 0 [] (before ++ item :: after) = first ++ .handle before.length :: last
      ∧ first.foldlM (perform s u (before ++ item :: after)) ⟨d, []⟩
        = some ⟨d'.arrive item.1, openers⟩
      ∧ openers.map (fun place => (before ++ item :: after)[place]?.map Prod.fst)
        = (d'.arrive item.1).scopes.map fun scope => some scope.1
  := by
  have found (k : Nat) (entry : Int × Entry) (listed : before[k]? = some entry) :
      (before ++ item :: after)[k]? = some entry := by
    rw [List.getElem?_append_left (List.getElem?_eq_some_iff.mp listed).1]
    exact listed
  obtain ⟨performed, synced⟩ := perform_moments 0 found (depths_of_scopes closed) walked
  obtain ⟨ended, left⟩ := perform_arrive s u (before ++ item :: after) synced item.1
  refine ⟨moments 0 [] before ++ (ending item.1 (openings 0 [] before)).map (.close ·.2),
    course (before.length + 1) (reopen before.length item (openings 0 [] before)) after,
    (staying item.1 (openings 0 [] before)).map Prod.snd, ?_, ?_, ?_⟩
  · rw [course_append, course_cons, Nat.zero_add, List.append_assoc]
  · rw [List.foldlM_append]
    exact (congrArg (Option.bind · _) performed).trans ended
  · have placed := openings_found 0 found fun _ mem => absurd mem List.not_mem_nil
    have depths_eq : (d'.arrive item.1).scopes.map (fun scope => some scope.1)
        = (staying item.1 (openings 0 [] before)).map fun opening => some opening.1 := by
      have same := congrArg (List.map some) left
      rw [List.map_map, List.map_map] at same
      exact same
    rw [depths_eq, List.map_map]
    refine List.map_congr_left fun opening mem => ?_
    exact placed opening ((List.dropWhile_sublist _).mem mem)

/-- At an entry the depths of the open scopes have no gaps, and the innermost one is that of its
parent. -/
theorem stairs_arrive {before : List (Int × Entry)} (climbs : (before ++ [item]).IsChain Climbs)
    (closed : d.scopes = []) (walked : visitAll s u before d = (d', none)) :
  Stairs (item.1 - 1) ((d'.arrive item.1).scopes.map Prod.fst)
  := by
  obtain ⟨-, synced⟩ :=
    perform_moments 0 (fun _ _ listed => listed) (depths_of_scopes closed) walked
  rw [(perform_arrive s u before synced item.1).2]
  cases before with
  | nil => exact stairs_nil _
  | cons entry before =>
    apply stairs_openings (stairs_nil (entry.1 - 1)) 0 climbs
    intro first same
    cases same
    omega

/-- At the end of the entries the walk is in the state that its course has there. -/
theorem perform_course (closed : d.scopes = []) (walked : visitAll s u entries d = (d', none)) :
  (course 0 [] entries).foldlM (perform s u entries) ⟨d, []⟩ = some ⟨closeAll d'.scopes d', []⟩
  := by
  obtain ⟨performed, synced⟩ :=
    perform_moments 0 (fun _ _ listed => listed) (depths_of_scopes closed) walked
  have length_eq : (openings 0 [] entries).length = d'.scopes.length := by
    simpa using (congrArg List.length synced).symm
  have ended := perform_closings s u entries [] length_eq (List.append_nil d'.scopes).symm
  rw [List.append_nil, ← closeAll_eq] at ended
  rw [course, List.foldlM_append]
  exact (congrArg (Option.bind · _) performed).trans ended

/-- However far the depth falls from one entry to the next, as long as it grows one level at a time
and after an entry with children: The entries are handled in order, and the scope of each entry with
children ends once, after those of the entries below it and before any other entry is handled.  When
the walk comes to an entry, the scopes that are still open are those of entries whose depths have no
gaps, and the innermost one belongs to the parent.  At the end no scope is open, and the records
that the entries have made are finished. -/
theorem nested_scopes (climbs : entries.IsChain Climbs) (closed : d.scopes = []) :
  let journal := course 0 [] entries
  (journal.filterMap Moment.handled? = List.range entries.length
    ∧ (journal.filterMap Moment.closed?).Perm (parents 0 entries) ∧ (parents 0 entries).Nodup)
  ∧ (∀ before item inner rest, entries = before ++ item :: (inner ++ rest) → item.2.hasChildren →
    (∀ entry ∈ inner, item.1 < entry.1) → (∀ entry ∈ rest.head?, entry.1 ≤ item.1) →
    ∃ first below last, journal
        = first ++ .handle before.length :: (below ++ .close before.length :: last)
      ∧ first.filterMap Moment.handled? = List.range before.length
      ∧ below.filterMap Moment.handled? = List.range' (before.length + 1) inner.length
      ∧ (below.filterMap Moment.closed?).Perm (parents (before.length + 1) inner)
      ∧ last.filterMap Moment.handled?
        = List.range' (before.length + 1 + inner.length) rest.length)
  ∧ (∀ before item after d₁, entries = before ++ item :: after →
    visitAll s u before d = (d₁, none) →
    let arrived := d₁.arrive item.1
    (∃ first last openers, journal = first ++ .handle before.length :: last
      ∧ first.foldlM (perform s u entries) ⟨d, []⟩ = some ⟨arrived, openers⟩
      ∧ openers.map (fun place => entries[place]?.map Prod.fst)
        = arrived.scopes.map fun scope => some scope.1)
    ∧ ∀ (k : Nat) depth, (arrived.scopes.map Prod.fst)[k]? = some depth → depth = item.1 - 1 - k)
  ∧ (∀ d₁, visitAll s u entries d = (d₁, none) →
    let final := closeAll d₁.scopes d₁
    journal.foldlM (perform s u entries) ⟨d, []⟩ = some ⟨final, []⟩ ∧ final.scopes = []
      ∧ (∀ id, d.graph.nextId ≤ id → id < final.graph.nextId →
        Finished final.graph (final.slotsSince d.links.size) id)
      ∧ (u.contents = ⟨entries, none⟩ → walkUnit s u d = (final, none)))
  := by
  intro journal
  refine ⟨⟨?_, closed_course 0 [] entries, nodup_parents 0 entries⟩, ?_, ?_, ?_⟩
  · rw [List.range_eq_range']
    exact handled_course 0 [] entries
  · rintro before item inner rest rfl children below leave
    obtain ⟨first, last, course_eq, earlier, later⟩ := exists_course children below leave
    exact ⟨first, course (before.length + 1) [] inner, last, course_eq, earlier,
      handled_course _ _ _, closed_course _ [] inner, later⟩
  · rintro before item after d₁ rfl walked arrived
    rw [List.append_cons] at climbs
    exact ⟨perform_before closed walked, stairs_arrive climbs.left_of_append closed walked⟩
  · intro d₁ walked final
    refine ⟨perform_course closed walked, scopes_closeAll _ _,
      fun id => finished_closeAll closed walked, fun contents => ?_⟩
    rw [walkUnit, contents]
    dsimp only
    rw [walked]

end Decoding

namespace Sections

/-- A unit with an array, whose entries end one null too many, and then with a number and a function
that never ends. -/
def surplusNull : Sections where
  order := .little
  abbreviations := sampleUnit.abbreviations
  info := ⟨#[
    37, 0, 0, 0, 4, 0, 0, 0, 0, 0, 8,
    1,
    6, 22, 0, 0, 0, 7, 2, 0,
    0,
    0,
    2, 105, 110, 116, 0, 4, 5,
    8, 102, 0, 22, 0, 0, 0, 9, 22, 0, 0, 0]⟩
  strings := .empty
  stringOffsets := .empty
  lineStrings := .empty

end Sections

namespace Decoding

/-- The depth falls from 2 to -1: the array and its unit end before the number, and the function at
the end of the entries. -/
theorem nested_scopes_surplusNull :
  let u := Sections.surplusNull.units.items.get ⟨0, by decide +kernel⟩
  let entries := u.contents.items
  let d := start .empty 8
  let d₁ := (visitAll Sections.surplusNull u entries d).1
  let final := closeAll d₁.scopes d₁
  let journal := course 0 [] entries
  entries.IsChain Climbs ∧ d.scopes = [] ∧ entries.map Prod.fst = [0, 1, 2, -1, -1, 0]
    ∧ journal = [.handle 0, .handle 1, .handle 2, .close 1, .close 0, .handle 3, .handle 4,
      .handle 5, .close 4]
    ∧ journal.foldlM (perform Sections.surplusNull u entries) ⟨d, []⟩ = some ⟨final, []⟩
    ∧ (final.graph.get 2).kind = .array ∧ Finished final.graph (final.slotsSince d.links.size) 2
    ∧ (final.graph.get 4).kind = .function ∧ Finished final.graph (final.slotsSince d.links.size) 4
  := by
  intro u entries d d₁ final journal
  have climbs : entries.IsChain Climbs := u.climbs_contents
  have walked : visitAll Sections.surplusNull u entries d = (d₁, none) :=
    Prod.ext rfl (by decide +kernel)
  obtain ⟨-, -, -, ended⟩ := nested_scopes (s := Sections.surplusNull) (u := u) (d := d) climbs rfl
  obtain ⟨performed, -, finished, -⟩ := ended d₁ walked
  refine ⟨climbs, rfl, by decide +kernel, by decide +kernel, performed, by decide +kernel, ?_,
    by decide +kernel, ?_⟩
  · exact finished 2 (by decide +kernel) (by decide +kernel)
  · exact finished 4 (by decide +kernel) (by decide +kernel)

end Decoding

end CompactTypes.Dwarf

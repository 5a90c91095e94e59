import CompactTypes.Proofs.Dwarf.Forest

/-!
# The course of a walk

In the course of a walk over the entries of a unit one of two things happens at each `Moment`: the
walk handles an entry, or it ends the scope of an entry with children.  Which moments there are, and
in which order, follows from the depths of the entries: `moments` are those up to the last entry,
`openings` the scopes that are open then, and `course` goes on to the end of the unit.  An entry
with children is handled before the entries below it, and its scope ends right after the course of
these, `exists_course`.
-/

namespace CompactTypes.Dwarf

/-- The walk handles the entry at a place of the list, or ends the scope of that entry. -/
inductive Moment where
  | handle (place : Nat)
  | close (place : Nat)
  deriving DecidableEq, Repr

namespace Moment

/-- The place of the entry that the walk handles. -/
def handled? : Moment → Option Nat
  | handle place => some place
  | close _ => none

/-- The place of the entry whose scope ends. -/
def closed? : Moment → Option Nat
  | handle _ => none
  | close place => some place

end Moment

section

variable {α β : Type}

/-- The innermost scopes that are not shallower than an entry at the given depth. -/
def ending (depth : Int) (scopes : List (Int × α)) : List (Int × α) :=
  scopes.takeWhile fun item => depth ≤ item.1

/-- The scopes that are left when these have ended. -/
def staying (depth : Int) (scopes : List (Int × α)) : List (Int × α) :=
  scopes.dropWhile fun item => depth ≤ item.1

variable {depth : Int}

theorem ending_append_staying (depth : Int) (scopes : List (Int × α)) :
  ending depth scopes ++ staying depth scopes = scopes
  := List.takeWhile_append_dropWhile

/-- A scope that is shallower than the entry stays, with all around it. -/
theorem ending_append_cons {inner outer : List (Int × α)} {item : Int × α}
    (shallow : item.1 < depth) :
  ending depth (inner ++ item :: outer) = ending depth inner
    ∧ staying depth (inner ++ item :: outer) = staying depth inner ++ item :: outer
  := by
  have here : decide (depth ≤ item.1) = false := decide_eq_false (Int.not_le.mpr shallow)
  induction inner with
  | nil =>
    constructor
    · exact List.takeWhile_cons_of_neg (by simp [here])
    · exact List.dropWhile_cons_of_neg (by simp [here])
  | cons first inner ih =>
    obtain ⟨ended, stayed⟩ := ih
    unfold ending at ended ⊢
    unfold staying at stayed ⊢
    cases deep : decide (depth ≤ first.1) <;> simp [deep, ended, stayed]

/-- Which scopes end follows from the depths. -/
theorem length_ending {scopes : List (Int × α)} {scopes' : List (Int × β)}
    (depths : scopes.map Prod.fst = scopes'.map Prod.fst) (depth : Int) :
  (ending depth scopes).length = (ending depth scopes').length
  := by
  have ended {γ : Type} (scopes : List (Int × γ)) : (ending depth scopes).length
      = ((scopes.map Prod.fst).takeWhile fun k => depth ≤ k).length := by
    rw [List.takeWhile_map, List.length_map]
    rfl
  rw [ended, ended, depths]

theorem map_fst_staying (depth : Int) (scopes : List (Int × α)) :
  (staying depth scopes).map Prod.fst = (scopes.map Prod.fst).dropWhile fun k => depth ≤ k
  := by
  rw [List.dropWhile_map]
  rfl

end

/-! ### Depths without gaps -/

/-- Depths that go up from the given one, one by one. -/
def Stairs (top : Int) (depths : List Int) : Prop :=
  ∀ (k : Nat) (depth : Int), depths[k]? = some depth → depth = top - k

theorem stairs_nil (top : Int) :
  Stairs top []
  := fun _ _ found => nomatch found

theorem Stairs.cons {top : Int} {depths : List Int} (h : Stairs (top - 1) depths) :
  Stairs top (top :: depths)
  := by
  intro k depth found
  cases k with
  | zero =>
    cases found
    exact (Int.sub_zero top).symm
  | succ k =>
    have below := h k depth found
    omega

theorem Stairs.of_cons {top first : Int} {depths : List Int} (h : Stairs top (first :: depths)) :
  first = top ∧ Stairs (top - 1) depths
  := by
  have here : first = top := (h 0 first rfl).trans (Int.sub_zero top)
  refine ⟨here, fun k depth found => ?_⟩
  have above := h (k + 1) depth found
  omega

/-- However many of them end, the depths up to the parent of an entry are left, if the entry is at
most one level below the first of them. -/
theorem Stairs.dropWhile {top depth : Int} {depths : List Int} (h : Stairs top depths)
    (climbs : depth ≤ top + 1) :
  Stairs (depth - 1) (depths.dropWhile fun k => depth ≤ k)
  := by
  induction depths generalizing top with
  | nil => exact stairs_nil _
  | cons first depths ih =>
    obtain ⟨rfl, above⟩ := h.of_cons
    by_cases ends : depth ≤ first
    · rw [List.dropWhile_cons, if_pos (decide_eq_true ends)]
      exact ih above (by omega)
    · obtain rfl : depth = first + 1 := by omega
      rw [List.dropWhile_cons, if_neg fun deep => ends (of_decide_eq_true deep),
        Int.add_sub_cancel]
      exact h

/-! ### Moments -/

/-- The depths and places of the entries whose scopes are open when an entry has been handled. -/
def reopen (place : Nat) (item : Int × Entry) (opened : List (Int × Nat)) : List (Int × Nat) :=
  if item.2.hasChildren then
    (item.1, place) :: staying item.1 opened
  else
    staying item.1 opened

/-- What happens up to the last one of some entries.  The first of them stands at the given place,
and `opened` are the depths and places of the entries whose scopes are open before it, the innermost
first. -/
def moments (place : Nat) (opened : List (Int × Nat)) : List (Int × Entry) → List Moment
  | [] => []
  | item :: entries =>
    (ending item.1 opened).map (.close ·.2) ++ .handle place ::
      moments (place + 1) (reopen place item opened) entries

/-- The depths and places of the entries whose scopes are open after some entries. -/
def openings (place : Nat) (opened : List (Int × Nat)) : List (Int × Entry) → List (Int × Nat)
  | [] => opened
  | item :: entries => openings (place + 1) (reopen place item opened) entries

/-- What happens from some entries on to the end of the unit, of which they are the last. -/
def course (place : Nat) (opened : List (Int × Nat)) (entries : List (Int × Entry)) :
    List Moment :=
  moments place opened entries ++ (openings place opened entries).map (.close ·.2)

/-- The places of the entries with children, if the first entry stands at the given place. -/
def parents (place : Nat) (entries : List (Int × Entry)) : List Nat :=
  ((entries.zipIdx place).filter fun item => item.1.2.hasChildren).map Prod.snd

variable {place : Nat} {opened inner outer : List (Int × Nat)} {item : Int × Entry}
  {entries : List (Int × Entry)}

theorem course_nil (place : Nat) (opened : List (Int × Nat)) :
  course place opened [] = opened.map (.close ·.2)
  := rfl

theorem course_cons (place : Nat) (opened : List (Int × Nat)) (item : Int × Entry)
    (entries : List (Int × Entry)) :
  course place opened (item :: entries) = (ending item.1 opened).map (.close ·.2)
    ++ .handle place :: course (place + 1) (reopen place item opened) entries
  := List.append_assoc _ _ _

theorem course_append (place : Nat) (opened : List (Int × Nat))
    (entries entries' : List (Int × Entry)) :
  course place opened (entries ++ entries') = moments place opened entries
    ++ course (place + entries.length) (openings place opened entries) entries'
  := by
  induction entries generalizing place opened with
  | nil => rfl
  | cons item entries ih =>
    rw [List.cons_append, course_cons, ih, List.length_cons, Nat.add_assoc, Nat.add_comm 1, moments,
      List.append_assoc]
    rfl

theorem parents_cons (place : Nat) (item : Int × Entry) (entries : List (Int × Entry)) :
  parents place (item :: entries)
    = (if item.2.hasChildren then [place] else []) ++ parents (place + 1) entries
  := by
  cases children : item.2.hasChildren <;> simp [parents, children]

theorem nodup_parents (place : Nat) (entries : List (Int × Entry)) :
  (parents place entries).Nodup
  := by
  have places : (parents place entries).Sublist ((entries.zipIdx place).map Prod.snd) :=
    List.filter_sublist.map Prod.snd
  rw [List.zipIdx_map_snd] at places
  exact places.nodup List.nodup_range'

/-! ### Each entry once -/

theorem handled_closings (opened : List (Int × Nat)) :
  (opened.map fun item => Moment.close item.2).filterMap Moment.handled? = []
  := by
  rw [List.filterMap_map, List.filterMap_eq_nil_iff]
  exact fun _ _ => rfl

theorem closed_closings (opened : List (Int × Nat)) :
  (opened.map fun item => Moment.close item.2).filterMap Moment.closed? = opened.map Prod.snd
  := by
  rw [List.filterMap_map]
  exact congrFun List.filterMap_eq_map opened

/-- The entries are handled in order. -/
theorem handled_moments (place : Nat) (opened : List (Int × Nat)) (entries : List (Int × Entry)) :
  (moments place opened entries).filterMap Moment.handled? = List.range' place entries.length
  := by
  induction entries generalizing place opened with
  | nil => rfl
  | cons item entries ih =>
    rw [moments, List.filterMap_append, handled_closings, List.nil_append, List.length_cons,
      List.range'_succ, ← ih]
    rfl

theorem handled_course (place : Nat) (opened : List (Int × Nat)) (entries : List (Int × Entry)) :
  (course place opened entries).filterMap Moment.handled? = List.range' place entries.length
  := by
  rw [course, List.filterMap_append, handled_closings, List.append_nil, handled_moments]

/-- The scopes that end are those that are open at the start and those of the entries with
children, each once. -/
theorem closed_course (place : Nat) (opened : List (Int × Nat)) (entries : List (Int × Entry)) :
  ((course place opened entries).filterMap Moment.closed?).Perm
    (opened.map Prod.snd ++ parents place entries)
  := by
  induction entries generalizing place opened with
  | nil =>
    rw [course_nil, closed_closings]
    exact .of_eq (List.append_nil _).symm
  | cons item entries ih =>
    have reopened : ((reopen place item opened).map Prod.snd).Perm
        ((staying item.1 opened).map Prod.snd ++ if item.2.hasChildren then [place] else []) := by
      unfold reopen
      split
      · exact (List.perm_append_singleton place _).symm
      · exact .of_eq (List.append_nil _).symm
    have whole : opened.map Prod.snd
        = (ending item.1 opened).map Prod.snd ++ (staying item.1 opened).map Prod.snd := by
      rw [← List.map_append, ending_append_staying]
    rw [course_cons, List.filterMap_append, closed_closings, whole, parents_cons, List.append_assoc]
    refine .append_left _ ?_
    exact ((ih (place + 1) _).trans (reopened.append_right _)).trans
      (.of_eq (List.append_assoc _ _ _))

/-! ### Scopes inside of one another -/

theorem reopen_append_cons {outermost : Int × Nat} (place : Nat) (deep : outermost.1 < item.1) :
  reopen place item (inner ++ outermost :: outer) = reopen place item inner ++ outermost :: outer
  := by
  unfold reopen
  rw [(ending_append_cons deep).2]
  split <;> rfl

theorem deep_reopen {depth : Int} (place : Nat) (deep : depth < item.1)
    (inside : ∀ first ∈ inner, depth < first.1) :
  ∀ first ∈ reopen place item inner, depth < first.1
  := by
  have stayed (first : Int × Nat) (mem : first ∈ staying item.1 inner) : depth < first.1 :=
    inside first ((List.dropWhile_sublist _).mem mem)
  unfold reopen
  split
  · exact List.forall_mem_cons.mpr ⟨deep, stayed⟩
  · exact stayed

/-- The course of the entries below one with an open scope is that of these entries alone: the scope
stays open, and those that these entries open are inside of it. -/
theorem moments_below (outermost : Int × Nat) (outer : List (Int × Nat)) (place : Nat)
    (inside : ∀ first ∈ inner, outermost.1 < first.1)
    (below : ∀ item ∈ entries, outermost.1 < item.1) :
  moments place (inner ++ outermost :: outer) entries = moments place inner entries
    ∧ openings place (inner ++ outermost :: outer) entries
      = openings place inner entries ++ outermost :: outer
    ∧ ∀ first ∈ openings place inner entries, outermost.1 < first.1
  := by
  induction entries generalizing place inner with
  | nil => exact ⟨rfl, rfl, inside⟩
  | cons item entries ih =>
    obtain ⟨deep, below⟩ := List.forall_mem_cons.mp below
    obtain ⟨happened, left, deeper⟩ := ih (place + 1) (deep_reopen place deep inside) below
    refine ⟨?_, ?_, deeper⟩
    · rw [moments, (ending_append_cons deep).1, reopen_append_cons place deep, happened]
      rfl
    · rw [openings, reopen_append_cons place deep, left]
      rfl

/-- When the next entry is not below the one with an open scope, this scope ends after those inside
of it and before that entry is handled. -/
theorem course_leave {outermost : Int × Nat} (place : Nat)
    (inside : ∀ first ∈ inner, outermost.1 < first.1)
    (leave : ∀ item ∈ entries.head?, item.1 ≤ outermost.1) :
  course place (inner ++ outermost :: outer) entries
    = inner.map (.close ·.2) ++ .close outermost.2 :: course place outer entries
  := by
  cases entries with
  | nil =>
    rw [course_nil, List.map_append]
    rfl
  | cons item entries =>
    have shallow : item.1 ≤ outermost.1 := leave item rfl
    have deep (first : Int × Nat) (mem : first ∈ inner ++ [outermost]) : item.1 ≤ first.1 := by
      rcases List.mem_append.mp mem with mem | mem
      · exact Int.le_trans shallow (Int.le_of_lt (inside first mem))
      · exact List.mem_singleton.mp mem ▸ shallow
    have ended : ending item.1 (inner ++ outermost :: outer)
        = (inner ++ [outermost]) ++ ending item.1 outer := by
      rw [List.append_cons, ending, List.takeWhile_append_of_pos]
      · rfl
      · exact fun first mem => decide_eq_true (deep first mem)
    have stayed : staying item.1 (inner ++ outermost :: outer) = staying item.1 outer := by
      rw [List.append_cons, staying, List.dropWhile_append_of_pos]
      · rfl
      · exact fun first mem => decide_eq_true (deep first mem)
    have reopened : reopen place item (inner ++ outermost :: outer) = reopen place item outer := by
      rw [reopen, reopen, stayed]
    rw [course_cons, course_cons, ended, reopened]
    simp only [List.map_append, List.map_cons, List.append_assoc, List.cons_append,
      List.nil_append]

/-- Right after an entry with children the course is that of the entries below it, then its scope
ends, and only then the next entry is handled. -/
theorem exists_course {before inner rest : List (Int × Entry)} (children : item.2.hasChildren)
    (below : ∀ entry ∈ inner, item.1 < entry.1) (leave : ∀ entry ∈ rest.head?, entry.1 ≤ item.1) :
  ∃ first last, course 0 [] (before ++ item :: (inner ++ rest))
      = first ++ .handle before.length ::
        (course (before.length + 1) [] inner ++ .close before.length :: last)
    ∧ first.filterMap Moment.handled? = List.range before.length
    ∧ last.filterMap Moment.handled?
      = List.range' (before.length + 1 + inner.length) rest.length
  := by
  have reopened : reopen before.length item (openings 0 [] before)
      = [] ++ (item.1, before.length) :: staying item.1 (openings 0 [] before) := if_pos children
  obtain ⟨happened, left, deeper⟩ := moments_below (item.1, before.length)
    (staying item.1 (openings 0 [] before)) (before.length + 1)
    (fun _ mem => absurd mem List.not_mem_nil) below
  refine ⟨moments 0 [] before ++ (ending item.1 (openings 0 [] before)).map (.close ·.2),
    course (before.length + 1 + inner.length) (staying item.1 (openings 0 [] before)) rest, ?_, ?_,
    handled_course _ _ _⟩
  · calc course 0 [] (before ++ item :: (inner ++ rest))
        = moments 0 [] before ++ course before.length (openings 0 [] before)
            (item :: (inner ++ rest)) := by rw [course_append, Nat.zero_add]
      _ = moments 0 [] before ++ ((ending item.1 (openings 0 [] before)).map (.close ·.2)
            ++ .handle before.length :: (moments (before.length + 1) [] inner
              ++ course (before.length + 1 + inner.length)
                (openings (before.length + 1) [] inner ++ (item.1, before.length)
                  :: staying item.1 (openings 0 [] before)) rest)) := by
          rw [course_cons, reopened, course_append, happened, left]
      _ = _ := by
          rw [course_leave _ deeper leave, List.append_assoc, course.eq_def _ [], List.append_assoc]
  · rw [List.filterMap_append, handled_closings, List.append_nil, handled_moments,
      List.range_eq_range']

/-! ### Depths of open scopes -/

/-- The depth at which an entry leaves the walk: its own, or that of its parent if it has no
children. -/
def innermost (item : Int × Entry) : Int :=
  if item.2.hasChildren then item.1 else item.1 - 1

theorem climbs_iff (first second : Int × Entry) :
  Climbs first second ↔ second.1 ≤ innermost first + 1
  := by
  rw [Climbs, innermost]
  split
  · exact Iff.rfl
  · rw [Int.sub_add_cancel]

/-- When an entry has been handled, the depths of the open scopes have no gaps. -/
theorem stairs_reopen {top : Int} (h : Stairs top (opened.map Prod.fst)) (place : Nat)
    (climbs : item.1 ≤ top + 1) :
  Stairs (innermost item) ((reopen place item opened).map Prod.fst)
  := by
  have stayed := h.dropWhile climbs
  rw [← map_fst_staying] at stayed
  unfold reopen innermost
  split
  · exact stayed.cons
  · exact stayed

/-- Nor have they when those that an entry ends have ended; the innermost one that is left is the
parent of the entry. -/
theorem stairs_openings {top : Int} (h : Stairs top (opened.map Prod.fst)) (place : Nat)
    {before : List (Int × Entry)} (climbs : (before ++ [item]).IsChain Climbs)
    (first : ∀ entry ∈ (before ++ [item]).head?, entry.1 ≤ top + 1) :
  Stairs (item.1 - 1) ((staying item.1 (openings place opened before)).map Prod.fst)
  := by
  induction before generalizing place opened top with
  | nil =>
    rw [map_fst_staying]
    exact h.dropWhile (first item rfl)
  | cons entry before ih =>
    obtain ⟨next, climbs⟩ := List.isChain_cons.mp climbs
    apply ih (stairs_reopen h place (first entry rfl)) (place + 1) climbs
    exact fun second mem => (climbs_iff entry second).mp (next second mem)

end CompactTypes.Dwarf

import CompactTypes.Dwarf.Reader

/-!
# Streams

A `Stream α` is what a walk over a section yields: the items that could be read, in order,
and the fault that ended the walk, if one did.  `Reader.collect` repeats a reader until it
yields nothing more.
-/

namespace CompactTypes.Dwarf

/-- The items of a walk, and the fault that ended it. -/
structure Stream (α : Type) where
  items : List α
  fault : Option Fault

namespace Stream

/-- The walk that finds nothing. -/
def empty {α : Type} : Stream α :=
  ⟨[], none⟩

/-- The walk that a fault ends at once. -/
def failed {α : Type} (f : Fault) : Stream α :=
  ⟨[], some f⟩

/-- One more item in front. -/
def cons {α : Type} (a : α) (s : Stream α) : Stream α :=
  ⟨a :: s.items, s.fault⟩

/-- More items in front. -/
def prepend {α : Type} (items : List α) (s : Stream α) : Stream α :=
  ⟨items ++ s.items, s.fault⟩

end Stream

namespace Reader

/-- A reader that takes at least one byte whenever it yields something. -/
def Productive {α : Type} (r : Reader (Option α)) : Prop :=
  ∀ i a j, r i = .ok (some a, j) → j.remaining < i.remaining

theorem Progress.productive {α : Type} {r : Reader (Option α)} (h : r.Progress) :
  r.Productive
  := fun i a j hr => (h i (some a) j hr).2

/-- What a reader yields when it is repeated until it yields nothing, after the items that
have been found before, and the input that is left then. -/
def collectAfter {α : Type} (r : Reader (Option α)) (h : r.Productive) (found : Array α)
    (i : Input) : Stream α × Input :=
  match hr : r i with
  | .error f => (⟨found.toList, some f⟩, i)
  | .ok (none, j) => (⟨found.toList, none⟩, j)
  | .ok (some a, j) =>
    have := h i a j hr
    collectAfter r h (found.push a) j
termination_by i.remaining

/-- What a reader yields when it is repeated until it yields nothing, and the input that is
left then. -/
def collect {α : Type} (r : Reader (Option α)) (h : r.Productive) (i : Input) :
    Stream α × Input :=
  collectAfter r h #[] i

theorem collectAfter_eq {α : Type} (r : Reader (Option α)) (h : r.Productive)
    (found : Array α) (i : Input) :
  collectAfter r h found i =
    match r i with
    | .error f => (⟨found.toList, some f⟩, i)
    | .ok (none, j) => (⟨found.toList, none⟩, j)
    | .ok (some a, j) => collectAfter r h (found.push a) j
  := by
  rw [collectAfter]
  split <;> simp [*]

theorem collectAfter_eq_prepend {α : Type} (r : Reader (Option α)) (h : r.Productive)
    (found : Array α) (i : Input) :
  collectAfter r h found i = ((collect r h i).1.prepend found.toList, (collect r h i).2)
  := by
  induction hsize : i.remaining using Nat.strongRecOn generalizing i found with
  | ind n ih =>
    unfold collect
    rw [collectAfter_eq, collectAfter_eq r h #[]]
    cases hr : r i with
    | error f => simp [Stream.prepend]
    | ok p =>
      obtain ⟨item, j⟩ := p
      cases item with
      | none => simp [Stream.prepend]
      | some a =>
        have shorter := h i a j hr
        dsimp only
        rw [ih j.remaining (hsize ▸ shorter) (found.push a) j rfl,
          ih j.remaining (hsize ▸ shorter) (#[].push a) j rfl]
        simp [Stream.prepend]

theorem collect_eq {α : Type} (r : Reader (Option α)) (h : r.Productive) (i : Input) :
  collect r h i =
    match r i with
    | .error f => (.failed f, i)
    | .ok (none, j) => (.empty, j)
    | .ok (some a, j) => ((collect r h j).1.cons a, (collect r h j).2)
  := by
  rw [collect, collectAfter_eq]
  cases hr : r i with
  | error f => rfl
  | ok p =>
    obtain ⟨item, j⟩ := p
    cases item with
    | none => rfl
    | some a =>
      dsimp only
      rw [collectAfter_eq_prepend]
      rfl

/-- The items that a reader yields when it is repeated until it yields nothing. -/
def many {α : Type} (r : Reader (Option α)) (h : r.Productive) : Reader (List α) := fun i =>
  match r.collect h i with
  | (⟨items, none⟩, j) => .ok (items, j)
  | (⟨_, some f⟩, _) => .error f

theorem collect_before {α : Type} (r : Reader (Option α)) (h : r.Productive)
    (forward : r.Forward) (i : Input) (hnone : (collect r h i).1.fault = none) :
  i.Before (collect r h i).2
  := by
  induction hsize : i.remaining using Nat.strongRecOn generalizing i with
  | ind n ih =>
    rw [collect_eq] at hnone ⊢
    cases hr : r i with
    | error f =>
      rw [hr] at hnone
      cases hnone
    | ok p =>
      obtain ⟨found, j⟩ := p
      rw [hr] at hnone
      cases found with
      | none => exact forward i none j hr
      | some a =>
        have shorter := h i a j hr
        have step := forward i (some a) j hr
        exact step.trans (ih j.remaining (hsize ▸ shorter) j hnone rfl)

theorem forward_many {α : Type} {r : Reader (Option α)} (h : r.Productive)
    (forward : r.Forward) :
  (many r h).Forward
  := by
  intro i items j hr
  have before := collect_before r h forward i
  unfold many at hr
  split at hr
  · rename_i found k hcollect
    cases hr
    rw [hcollect] at before
    exact before rfl
  · cases hr

end Reader

end CompactTypes.Dwarf

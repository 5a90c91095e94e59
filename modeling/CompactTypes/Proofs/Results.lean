import Mathlib.Data.List.Forall2

/-!
# Results

A computation that can fail and consists of several steps succeeds only if each of its steps
does, and fails only if one of them does.  When it `Succeeds` can be told from its steps if none of
them depends on what the others have made.  Two computations whose steps go together, `Together`,
succeed or fail together, with the same error.
-/

namespace CompactTypes

variable {ε α β γ : Type}

/-- If a computation of two steps succeeds, then so do both of them. -/
theorem ok_of_bind {x : Except ε α} {f : α → Except ε β} {b : β} (h : (x >>= f) = .ok b) :
  ∃ a, x = .ok a ∧ f a = .ok b
  := by
  cases x with
  | error e => cases h
  | ok a => exact ⟨a, rfl, h⟩

/-- If a first step can have one result only, then the second step decides. -/
theorem bind_ok_iff {x : Except ε α} {p : Prop} {a : α} (first : ∀ a', x = .ok a' ↔ p ∧ a' = a)
    (f : α → Except ε β) (b : β) :
  (x >>= f) = .ok b ↔ p ∧ f a = .ok b
  := by
  constructor
  · intro h
    obtain ⟨a', found, h⟩ := ok_of_bind h
    obtain ⟨holds, rfl⟩ := (first a').mp found
    exact ⟨holds, h⟩
  · rintro ⟨holds, h⟩
    rw [(first a).mpr ⟨holds, rfl⟩]
    exact h

theorem map_ok_iff {x : Except ε α} {p : Prop} {a : α} (first : ∀ a', x = .ok a' ↔ p ∧ a' = a)
    (f : α → β) (b : β) :
  (x >>= fun a => .ok (f a)) = .ok b ↔ p ∧ b = f a
  := by
  rw [bind_ok_iff first, Except.ok.injEq, eq_comm]

theorem exists_of_isOk {x : Except ε α} (h : x.isOk = true) :
  ∃ a, x = .ok a
  := by
  cases x with
  | error e => cases h
  | ok a => exact ⟨a, rfl⟩

theorem ok_of_toOption {x : Except ε α} {a : α} (h : x.toOption = some a) :
  x = .ok a
  := by
  cases x with
  | error e => cases h
  | ok a' => exact congrArg Except.ok (Option.some.inj h)

/-- Two lists that are related are so on the elements of the first one. -/
theorem forall₂_and_mem {R : α → β → Prop} {as : List α} {bs : List β} (h : List.Forall₂ R as bs) :
  List.Forall₂ (fun a b => a ∈ as ∧ R a b) as bs
  := (List.forall₂_and_left as bs).mpr ⟨fun _ mem => mem, h⟩

theorem exists_of_forall₂ {R : α → β → Prop} {as : List α} {bs : List β} (h : List.Forall₂ R as bs)
    {a : α} (mem : a ∈ as) :
  ∃ b, R a b
  := by
  have both := h.imp fun a b related =>
    show (∃ b, R a b) ∧ R a b from ⟨⟨b, related⟩, related⟩
  exact ((List.forall₂_and_left as bs).mp both).1 a mem

/-- An element of a list that is related to another one is related to the element at its place. -/
theorem exists_getElem?_of_forall₂ {R : α → β → Prop} {as : List α} {bs : List β}
    (h : List.Forall₂ R as bs) {place : Nat} {a : α} (found : as[place]? = some a) :
  ∃ b, bs[place]? = some b ∧ R a b
  := by
  induction h generalizing place with
  | nil => cases found
  | @cons a' b as bs first _ ih =>
    cases place with
    | zero =>
      cases found
      exact ⟨b, rfl, first⟩
    | succ place => exact ih found

/-- If a step succeeds on all elements of a list, then its results are those of the elements. -/
theorem forall₂_of_mapM {f : α → Except ε β} {as : List α} {bs : List β}
    (h : as.mapM f = .ok bs) :
  List.Forall₂ (fun a b => a ∈ as ∧ f a = .ok b) as bs
  := by
  apply forall₂_and_mem
  induction as generalizing bs with
  | nil =>
    cases h
    exact .nil
  | cons a as ih =>
    rw [List.mapM_cons] at h
    obtain ⟨b, first, h⟩ := ok_of_bind h
    obtain ⟨bs', others, h⟩ := ok_of_bind h
    cases h
    exact .cons first (ih others)

/-- If a computation of two steps fails, then so does one of them. -/
theorem error_of_bind {x : Except ε α} {f : α → Except ε β} {e : ε} (h : (x >>= f) = .error e) :
  x = .error e ∨ ∃ a, x = .ok a ∧ f a = .error e
  := by
  cases x with
  | error e' =>
    cases h
    exact .inl rfl
  | ok a => exact .inr ⟨a, rfl, h⟩

/-- If a step fails on a list, then it does so on one of the elements. -/
theorem error_of_mapM {f : α → Except ε β} {as : List α} {e : ε} (h : as.mapM f = .error e) :
  ∃ a ∈ as, f a = .error e
  := by
  induction as with
  | nil => cases h
  | cons a as ih =>
    rw [List.mapM_cons] at h
    rcases error_of_bind h with here | ⟨b, -, h⟩
    · exact ⟨a, List.mem_cons_self, here⟩
    · rcases error_of_bind h with later | ⟨bs, -, h⟩
      · obtain ⟨a', mem, failed⟩ := ih later
        exact ⟨a', List.mem_cons_of_mem _ mem, failed⟩
      · cases h

/-- Two steps with the same results on the pairs of two lists have the same results on them. -/
theorem mapM_eq_of_forall₂ {f : α → Except ε γ} {f' : β → Except ε γ} {as : List α} {bs : List β}
    (h : List.Forall₂ (fun a b => f a = f' b) as bs) :
  as.mapM f = bs.mapM f'
  := by
  induction h with
  | nil => rfl
  | cons first _ ih => rw [List.mapM_cons, List.mapM_cons, first, ih]

theorem mapM_congr {f f' : α → Except ε β} {as : List α} (h : ∀ a ∈ as, f a = f' a) :
  as.mapM f = as.mapM f'
  := mapM_eq_of_forall₂ (List.forall₂_same.mpr h)

/-- Values that exist for the pairs of two lists make up a list. -/
theorem exists_forall₂ {R : α → β → Prop} {P : β → γ → Prop} {Q : α → γ → Prop} {as : List α}
    {bs : List β} (h : List.Forall₂ R as bs) (step : ∀ a b, R a b → ∃ c, P b c ∧ Q a c) :
  ∃ cs, List.Forall₂ P bs cs ∧ List.Forall₂ Q as cs
  := by
  induction h with
  | nil => exact ⟨[], .nil, .nil⟩
  | cons first _ ih =>
    obtain ⟨c, hP, hQ⟩ := step _ _ first
    obtain ⟨cs, hPs, hQs⟩ := ih
    exact ⟨c :: cs, .cons hP hPs, .cons hQ hQs⟩

theorem exists_forall₂_of_mem {R : α → β → Prop} {as : List α} (h : ∀ a ∈ as, ∃ b, R a b) :
  ∃ bs, List.Forall₂ R as bs
  := by
  induction as with
  | nil => exact ⟨[], .nil⟩
  | cons a as ih =>
    obtain ⟨first, others⟩ := List.forall_mem_cons.mp h
    obtain ⟨b, here⟩ := first
    obtain ⟨bs, there⟩ := ih others
    exact ⟨b :: bs, .cons here there⟩

/-! ### Success -/

/-- A computation does not fail. -/
def Succeeds (x : Except ε α) : Prop :=
  ∃ a, x = .ok a

theorem succeeds_ok (a : α) :
  Succeeds (.ok a : Except ε α)
  := ⟨a, rfl⟩

theorem not_succeeds_error (e : ε) :
  ¬Succeeds (.error e : Except ε α)
  := by
  rintro ⟨a, h⟩
  cases h

/-- A check succeeds if the condition holds. -/
theorem succeeds_check (p : Prop) [Decidable p] (a : α) (e : ε) :
  Succeeds (if p then .ok a else .error e) ↔ p
  := by
  by_cases holds : p
  · rw [if_pos holds]
    exact iff_of_true (succeeds_ok a) holds
  · rw [if_neg holds]
    exact iff_of_false (not_succeeds_error e) holds

/-- A computation of two steps succeeds if both of them do, provided that whether the second one
does is the same for all results of the first one. -/
theorem succeeds_bind {x : Except ε α} {f : α → Except ε β} {p : Prop}
    (second : ∀ a, Succeeds (f a) ↔ p) :
  Succeeds (x >>= f) ↔ Succeeds x ∧ p
  := by
  cases x with
  | error e => exact iff_of_false (not_succeeds_error e) fun h => not_succeeds_error e h.1
  | ok a =>
    rw [and_iff_right (succeeds_ok a)]
    exact second a

/-- A last step that does not fail makes no difference. -/
theorem succeeds_bind_ok {x : Except ε α} (f : α → β) :
  Succeeds (x >>= fun a => .ok (f a)) ↔ Succeeds x
  := (succeeds_bind fun a => iff_true_intro (succeeds_ok (f a))).trans (and_iff_left trivial)

/-- A step succeeds on a list if it does on all elements. -/
theorem succeeds_mapM {f : α → Except ε β} {as : List α} :
  Succeeds (as.mapM f) ↔ ∀ a ∈ as, Succeeds (f a)
  := by
  induction as with
  | nil => exact iff_of_true (succeeds_ok []) fun _ mem => absurd mem List.not_mem_nil
  | cons a as ih =>
    rw [List.mapM_cons, List.forall_mem_cons, ← ih]
    exact succeeds_bind fun b => succeeds_bind_ok (b :: ·)

/-! ### Computations that go together -/

/-- Two computations have related results, or fail with the same error. -/
inductive Together (R : α → β → Prop) : Except ε α → Except ε β → Prop where
  | ok {a : α} {b : β} (related : R a b) : Together R (.ok a) (.ok b)
  | error (e : ε) : Together R (.error e) (.error e)

theorem together_self {x : Except ε α} :
  Together (· = ·) x x
  := by
  cases x with
  | error e => exact .error e
  | ok a => exact .ok (Eq.refl a)

theorem Together.bind {R : α → β → Prop} {α' β' : Type} {S : α' → β' → Prop} {x : Except ε α}
    {y : Except ε β} {f : α → Except ε α'} {g : β → Except ε β'} (first : Together R x y)
    (second : ∀ a b, R a b → Together S (f a) (g b)) :
  Together S (x >>= f) (y >>= g)
  := by
  cases first with
  | ok related => exact second _ _ related
  | error e => exact .error e

/-- Steps that go together on the elements of a list do so on the list. -/
theorem Together.mapM {R : β → γ → Prop} {f : α → Except ε β} {g : α → Except ε γ} {as : List α}
    (each : ∀ a ∈ as, Together R (f a) (g a)) :
  Together (List.Forall₂ R) (as.mapM f) (as.mapM g)
  := by
  induction as with
  | nil => exact .ok .nil
  | cons a as ih =>
    obtain ⟨first, others⟩ := List.forall_mem_cons.mp each
    rw [List.mapM_cons, List.mapM_cons]
    apply first.bind
    intro b c related
    apply (ih others).bind
    intro bs cs relatedOthers
    exact .ok (.cons related relatedOthers)

theorem Together.of_ok {R : α → β → Prop} {x : Except ε α} {y : Except ε β} {a : α}
    (h : Together R x y) (succeeds : x = .ok a) :
  ∃ b, y = .ok b ∧ R a b
  := by
  cases h with
  | ok related =>
    cases succeeds
    exact ⟨_, Eq.refl _, related⟩
  | error e => cases succeeds

theorem Together.error_iff {R : α → β → Prop} {x : Except ε α} {y : Except ε β}
    (h : Together R x y) (e : ε) :
  x = .error e ↔ y = .error e
  := by
  cases h with
  | ok related => simp only [reduceCtorEq]
  | error e' => simp only [Except.error.injEq]

end CompactTypes

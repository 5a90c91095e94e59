import CompactTypes.Bytes.Order
import Mathlib.Data.List.Forall2

/-!
# Parsers

A `Parser` takes bytes from the front of a list and makes a value of them, or fails.  That it
makes `value` of the bytes `bytes`, and leaves alone whatever comes after them, is
`Reads p bytes value`.  Every way to build a parser has a law that says what it reads; with
them a parser is compared to the writer of a format, part by part.
-/

namespace CompactTypes

/-- A way to take bytes from the front of a list and make a value of them. -/
abbrev Parser (α : Type) : Type :=
  StateT (List UInt8) Option α

namespace Parser

variable {α β : Type}

/-- A parser that takes nothing, and fails if there is no value. -/
def ofOption (value : Option α) : Parser α := fun bytes =>
  value.map fun a => (a, bytes)

/-- A parser that takes nothing, and fails unless the condition holds. -/
def expect (c : Prop) [Decidable c] : Parser Unit :=
  ofOption (if c then some () else none)

/-- The number that the first `n` bytes stand for. -/
def number (o : ByteOrder) (n : Nat) : Parser Nat := fun bytes =>
  if n ≤ bytes.length then some (o.decode (bytes.take n), bytes.drop n) else none

/-- The values that a parser makes of the bytes when it is used several times. -/
def times (p : Parser α) : Nat → Parser (List α)
  | 0 => pure []
  | n + 1 => do
    let first ← p
    let others ← times p n
    return first :: others

/-- The values that a parser makes of the bytes when it is used until none are left. -/
def exhaust (p : Parser α) (bytes : List UInt8) : Option (List α) :=
  if bytes = [] then
    some []
  else
    match p bytes with
    | none => none
    | some (first, rest) =>
      if rest.length < bytes.length then (exhaust p rest).map (first :: ·) else none
termination_by bytes.length

/-! ### What parsers read -/

/-- The parser makes `value` of the bytes, no matter what comes after them. -/
def Reads (p : Parser α) (bytes : List UInt8) (value : α) : Prop :=
  ∀ rest, p (bytes ++ rest) = some (value, rest)

theorem Reads.pure (value : α) :
  Reads (pure value) [] value
  := fun _ => rfl

theorem Reads.bind {p : Parser α} {q : α → Parser β} {bytes bytes' : List UInt8} {a : α} {b : β}
    (hp : Reads p bytes a) (hq : Reads (q a) bytes' b) :
  Reads (p >>= q) (bytes ++ bytes') b
  := by
  intro rest
  have first := hp (bytes' ++ rest)
  have second := hq rest
  rw [List.append_assoc]
  simp only [Bind.bind, StateT.bind, first, Option.bind_some, second]

/-- A parser that takes nothing can stand in front of any other. -/
theorem Reads.bind_nil {p : Parser α} {q : α → Parser β} {bytes : List UInt8} {a : α} {b : β}
    (hp : Reads p [] a) (hq : Reads (q a) bytes b) :
  Reads (p >>= q) bytes b
  := hp.bind hq

/-- A parser that takes nothing can come after any other. -/
theorem Reads.bind_last {p : Parser α} {q : α → Parser β} {bytes : List UInt8} {a : α} {b : β}
    (hp : Reads p bytes a) (hq : Reads (q a) [] b) :
  Reads (p >>= q) bytes b
  := by
  have whole := hp.bind hq
  rwa [List.append_nil] at whole

theorem Reads.ofOption {value : Option α} {a : α} (h : value = some a) :
  Reads (ofOption value) [] a
  := by
  intro rest
  simp [Parser.ofOption, h]

theorem Reads.expect {c : Prop} [Decidable c] (h : c) :
  Reads (expect c) [] ()
  := Reads.ofOption (if_pos h)

theorem Reads.number (o : ByteOrder) {n v : Nat} (h : v < wordValues n) :
  Reads (number o n) (o.encode n v) v
  := by
  intro rest
  have length := o.length_encode n v
  have enough : n ≤ (o.encode n v ++ rest).length := by
    rw [List.length_append, length]
    exact Nat.le_add_right n rest.length
  rw [Parser.number, if_pos enough, List.take_left' length, List.drop_left' length,
    ByteOrder.decode_encode, Nat.mod_eq_of_lt h]

theorem Reads.u16 (o : ByteOrder) (w : UInt16) :
  Reads (Parser.number o 2) (o.u16 w) w.toNat
  := Reads.number o w.toNat_lt

theorem Reads.u32 (o : ByteOrder) (w : UInt32) :
  Reads (Parser.number o 4) (o.u32 w) w.toNat
  := Reads.number o w.toNat_lt

theorem Reads.times {p : Parser α} {parts : List (List UInt8)} {values : List α}
    (h : List.Forall₂ (Reads p) parts values) :
  Reads (times p values.length) parts.flatten values
  := by
  induction h with
  | nil => exact Reads.pure []
  | cons first _ ih => exact first.bind (ih.bind_last (Reads.pure _))

/-- Parts that are not empty are read one after the other up to the last one. -/
theorem exhaust_flatten {p : Parser α} {parts : List (List UInt8)} {values : List α}
    (h : List.Forall₂ (fun part value => part ≠ [] ∧ Reads p part value) parts values) :
  exhaust p parts.flatten = some values
  := by
  induction h with
  | nil =>
    rw [exhaust]
    rfl
  | @cons part value parts values first _ ih =>
    obtain ⟨nonempty, reads⟩ := first
    have positive := List.length_pos_iff.mpr nonempty
    have shorter : parts.flatten.length < (part ++ parts.flatten).length := by
      rw [List.length_append]
      omega
    have filled : part ++ parts.flatten ≠ [] := fun h => nonempty (List.append_eq_nil_iff.mp h).1
    rw [List.flatten_cons, exhaust, if_neg filled, reads]
    simp only [if_pos shorter, ih, Option.map_some]

end Parser

end CompactTypes

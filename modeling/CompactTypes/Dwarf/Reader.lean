import CompactTypes.Bytes.Excerpt
import CompactTypes.Bytes.Order
import CompactTypes.Dwarf.Fault

/-!
# Readers

An `Input` is a place in some bytes.  A `Reader α` takes a value of type `α` from the bytes
at the place, or meets a fault.  The readers of this file read blocks, words,
null-terminated strings and variable-length numbers; each of them only moves forward,
`Reader.Forward`, and all but the empty block move on by at least one byte,
`Reader.Progress`.
-/

namespace CompactTypes.Dwarf

/-- A place in some bytes.  The offset of the first byte is `base`. -/
structure Input where
  bytes : ByteArray
  base : Nat
  place : Nat
  deriving DecidableEq, Inhabited

namespace Input

/-- The start of a section. -/
def ofBytes (bytes : ByteArray) : Input :=
  ⟨bytes, 0, 0⟩

/-- The offset of the next byte. -/
def offset (i : Input) : Nat :=
  i.base + i.place

/-- The number of bytes that are left. -/
def remaining (i : Input) : Nat :=
  i.bytes.size - i.place

/-- The input after the next `n` bytes. -/
def advance (i : Input) (n : Nat) : Input :=
  { i with place := i.place + n }

/-- `i.Before j` holds when `j` is a place in the bytes of `i`, and not in front of `i`. -/
structure Before (i j : Input) : Prop where
  bytes_eq : j.bytes = i.bytes
  base_eq : j.base = i.base
  place_le : i.place ≤ j.place

theorem Before.refl (i : Input) :
  i.Before i
  := ⟨rfl, rfl, Nat.le_refl _⟩

theorem Before.trans {i j k : Input} (hij : i.Before j) (hjk : j.Before k) :
  i.Before k
  := ⟨hjk.bytes_eq.trans hij.bytes_eq, hjk.base_eq.trans hij.base_eq,
    Nat.le_trans hij.place_le hjk.place_le⟩

theorem Before.remaining_le {i j : Input} (h : i.Before j) :
  j.remaining ≤ i.remaining
  := by
  unfold remaining
  rw [h.bytes_eq]
  exact Nat.sub_le_sub_left h.place_le _

theorem before_advance (i : Input) (n : Nat) :
  i.Before (i.advance n)
  := ⟨rfl, rfl, Nat.le_add_right _ _⟩

theorem remaining_advance_lt {i : Input} {n : Nat} (hn : 0 < n) (h : i.place < i.bytes.size) :
  (i.advance n).remaining < i.remaining
  := by
  simp only [remaining, advance]
  omega

end Input

/-- Takes a value from the front of an input, or meets a fault. -/
abbrev Reader (α : Type) : Type :=
  StateT Input (Except Fault) α

namespace Reader

/-- A reader that does not go back. -/
def Forward {α : Type} (r : Reader α) : Prop :=
  ∀ i a j, r i = .ok (a, j) → i.Before j

/-- A reader that takes at least one byte. -/
def Progress {α : Type} (r : Reader α) : Prop :=
  ∀ i a j, r i = .ok (a, j) → i.Before j ∧ j.remaining < i.remaining

theorem Progress.forward {α : Type} {r : Reader α} (h : r.Progress) :
  r.Forward
  := fun i a j hr => (h i a j hr).1

theorem bind_ok {α β : Type} {r : Reader α} {f : α → Reader β} {i k : Input} {b : β}
    (h : (r >>= f) i = .ok (b, k)) :
  ∃ a j, r i = .ok (a, j) ∧ f a j = .ok (b, k)
  := by
  change (r i >>= fun p => f p.1 p.2) = .ok (b, k) at h
  cases hr : r i with
  | error e =>
    rw [hr] at h
    cases h
  | ok p =>
    rw [hr] at h
    exact ⟨p.1, p.2, rfl, h⟩

theorem forward_pure {α : Type} (a : α) :
  (pure a : Reader α).Forward
  := by
  intro i b j h
  cases h
  exact Input.Before.refl i

theorem forward_throw {α : Type} (f : Fault) :
  (throw f : Reader α).Forward
  := by
  intro i a j h
  cases h

theorem Forward.bind {α β : Type} {r : Reader α} {f : α → Reader β}
    (hr : r.Forward) (hf : ∀ a, (f a).Forward) :
  (r >>= f).Forward
  := by
  intro i b k h
  obtain ⟨a, j, hi, hj⟩ := bind_ok h
  exact (hr i a j hi).trans (hf a j b k hj)

theorem Progress.bind {α β : Type} {r : Reader α} {f : α → Reader β}
    (hr : r.Progress) (hf : ∀ a, (f a).Forward) :
  (r >>= f).Progress
  := by
  intro i b k h
  obtain ⟨a, j, hi, hj⟩ := bind_ok h
  have first := hr i a j hi
  have second := hf a j b k hj
  exact ⟨first.1.trans second, Nat.lt_of_le_of_lt second.remaining_le first.2⟩

/-! ### Blocks and words -/

/-- The next byte. -/
def byte : Reader UInt8 := fun i =>
  if h : i.place < i.bytes.size then .ok (i.bytes[i.place], i.advance 1)
  else .error .unexpectedEnd

/-- The next `n` bytes. -/
def block (n : Nat) : Reader ByteArray := fun i =>
  match excerpt? i.bytes i.place n with
  | some bytes => .ok (bytes, i.advance n)
  | none => .error .unexpectedEnd

/-- Passes over the next `n` bytes. -/
def skip (n : Nat) : Reader Unit := fun i =>
  if i.place + n ≤ i.bytes.size then .ok (⟨⟩, i.advance n) else .error .unexpectedEnd

/-- The number stored in the next `n` bytes. -/
def word (order : ByteOrder) (n : Nat) : Reader Nat := do
  let bytes ← block n
  return order.decode (byteList bytes)

/-- The bytes in front of the next null byte, which is passed over too. -/
def nullTerminated : Reader ByteArray := fun i =>
  match nullFrom? i.bytes i.place with
  | some stop => .ok (i.bytes.extract i.place stop, { i with place := stop + 1 })
  | none => .error .unexpectedEnd

/-! ### Variable-length numbers -/

/-- An unsigned number of at most `more + 1` groups of seven bits, the lowest group first.
Every byte but the last has its high bit set; in a number of `more + 1` groups the last
byte is at most `top`. -/
def unsignedGroups (top : UInt8) : Nat → Reader Nat
  | 0 => do
    let b ← byte
    if b ≤ top then return b.toNat
    else throw .badUnsignedLeb128
  | more + 1 => do
    let b ← byte
    if b < 128 then return b.toNat
    else
      let high ← unsignedGroups top more
      return (b.toNat - 128) + 128 * high

/-- An unsigned number of 64 bits. -/
def unsigned : Reader Nat :=
  unsignedGroups 1 9

/-- An unsigned number of 16 bits. -/
def unsigned16 : Reader Nat :=
  unsignedGroups 3 2

/-- A signed number of at most `more + 1` groups of seven bits, the lowest group first.
Every byte but the last has its high bit set; in a number of `more + 1` groups the last
group only repeats the sign. -/
def signedGroups : Nat → Reader Int
  | 0 => do
    let b ← byte
    if b = 0 then return 0
    else if b = 127 then return -1
    else throw .badSignedLeb128
  | more + 1 => do
    let b ← byte
    if b < 64 then return b.toNat
    else if b < 128 then return (b.toNat : Int) - 128
    else
      let high ← signedGroups more
      return ((b.toNat : Int) - 128) + 128 * high

/-- A signed number of 64 bits. -/
def signed : Reader Int :=
  signedGroups 9

/-! ### Progress -/

theorem progress_byte :
  byte.Progress
  := by
  intro i b j h
  unfold byte at h
  split at h
  · rename_i inside
    cases h
    exact ⟨i.before_advance 1, Input.remaining_advance_lt Nat.one_pos inside⟩
  · cases h

theorem block_ok {n : Nat} {i j : Input} {bytes : ByteArray} (h : block n i = .ok (bytes, j)) :
  i.place + n ≤ i.bytes.size ∧ bytes = i.bytes.extract i.place (i.place + n)
    ∧ j = i.advance n
  := by
  unfold block excerpt? at h
  split at h
  · rename_i found hfound
    split at hfound
    · cases hfound
      cases h
      exact ⟨by assumption, rfl, rfl⟩
    · cases hfound
  · cases h

theorem forward_block (n : Nat) :
  (block n).Forward
  := by
  intro i bytes j h
  obtain ⟨-, -, rfl⟩ := block_ok h
  exact i.before_advance n

theorem progress_block {n : Nat} (hn : 0 < n) :
  (block n).Progress
  := by
  intro i bytes j h
  obtain ⟨fits, -, rfl⟩ := block_ok h
  exact ⟨i.before_advance n, Input.remaining_advance_lt hn (by omega)⟩

theorem forward_skip (n : Nat) :
  (skip n).Forward
  := by
  intro i a j h
  unfold skip at h
  split at h
  · cases h
    exact i.before_advance n
  · cases h

theorem forward_word (order : ByteOrder) (n : Nat) :
  (word order n).Forward
  := (forward_block n).bind fun _ => forward_pure _

theorem progress_word (order : ByteOrder) {n : Nat} (hn : 0 < n) :
  (word order n).Progress
  := (progress_block hn).bind fun _ => forward_pure _

theorem progress_nullTerminated :
  nullTerminated.Progress
  := by
  intro i text j h
  unfold nullTerminated at h
  split at h
  · rename_i stop found
    cases h
    obtain ⟨least, inside⟩ := nullFrom?_bounds found
    refine ⟨⟨rfl, rfl, Nat.le_succ_of_le least⟩, ?_⟩
    simp only [Input.remaining]
    omega
  · cases h

theorem progress_unsignedGroups (top : UInt8) (more : Nat) :
  (unsignedGroups top more).Progress
  := by
  induction more with
  | zero =>
    apply progress_byte.bind
    intro b
    split
    · exact forward_pure _
    · exact forward_throw _
  | succ more ih =>
    apply progress_byte.bind
    intro b
    split
    · exact forward_pure _
    · exact ih.forward.bind fun _ => forward_pure _

theorem progress_unsigned :
  unsigned.Progress
  := progress_unsignedGroups 1 9

theorem progress_unsigned16 :
  unsigned16.Progress
  := progress_unsignedGroups 3 2

theorem progress_signedGroups (more : Nat) :
  (signedGroups more).Progress
  := by
  induction more with
  | zero =>
    apply progress_byte.bind
    intro b
    split
    · exact forward_pure _
    · split
      · exact forward_pure _
      · exact forward_throw _
  | succ more ih =>
    apply progress_byte.bind
    intro b
    split
    · exact forward_pure _
    · split
      · exact forward_pure _
      · exact ih.forward.bind fun _ => forward_pure _

theorem progress_signed :
  signed.Progress
  := progress_signedGroups 9

end Reader

end CompactTypes.Dwarf

import CompactTypes.Bytes.Excerpt

/-!
# Bit streams

A `Bits` is a place in a compressed stream, whose bits are taken from the lowest bit of each
byte on.  A `BitReader α` takes a value of type `α` from the bits at the place; it can find
that the stream is broken, or that it ends early.
-/

namespace CompactTypes.Deflate

/-- What can be wrong with a compressed stream. -/
inductive Flaw where
  /-- The stream is broken. -/
  | corrupt
  /-- The stream ends early. -/
  | incomplete
  deriving DecidableEq, Repr, Inhabited

/-- A place in some bytes: `position` is the number of bits in front of it. -/
structure Bits where
  bytes : ByteArray
  position : Nat
  deriving DecidableEq, Inhabited

/-- Takes a value from the front of a stream, or meets a flaw. -/
abbrev BitReader (α : Type) : Type :=
  StateT Bits (Except Flaw) α

namespace Bits

/-- The stream that starts with the first of the given bytes. -/
def ofBytes (bytes : ByteArray) : Bits :=
  ⟨bytes, 0⟩

/-- The number of unread bits. -/
def count (s : Bits) : Nat :=
  8 * s.bytes.size - s.position

/-- The place of the next whole byte. -/
def nextByte (s : Bits) : Nat :=
  (s.position + 7) / 8

/-- The stream from a whole byte on. -/
def fromByte (s : Bits) (place : Nat) : Bits :=
  { s with position := 8 * place }

end Bits

namespace BitReader

/-- The next bit. -/
def bit : BitReader Bool := fun s =>
  let place := s.position / 8
  if h : place < s.bytes.size then
    .ok (s.bytes[place].toNat.testBit (s.position % 8), { s with position := s.position + 1 })
  else
    .error .incomplete

/-- The number stored in the next `n` bits, the lowest bit first. -/
def number : Nat → BitReader Nat
  | 0 => return 0
  | n + 1 => do
    let low ← bit
    let high ← number n
    return low.toNat + 2 * high

/-- The next whole byte; what is left of the byte that is being read is passed over. -/
def byte : BitReader UInt8 := fun s =>
  if h : s.nextByte < s.bytes.size then
    .ok (s.bytes[s.nextByte], s.fromByte (s.nextByte + 1))
  else
    .error .incomplete

end BitReader

end CompactTypes.Deflate

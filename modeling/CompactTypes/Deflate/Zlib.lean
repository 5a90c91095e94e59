import CompactTypes.Bytes.Order
import CompactTypes.Deflate.Inflate

/-!
# The container of compressed streams

A container is a header of two bytes, the blocks of the stream, and a checksum of the bytes
that the blocks stand for.  `decompress` opens one and `compress` makes one whose blocks are
stored as they are; bytes after the container are ignored.
-/

namespace CompactTypes.Deflate

/-- The largest prime below `2 ^ 16`. -/
def checksumModulus : Nat :=
  65521

/-- The sum of the bytes from a place on, added to `low`, and the sum of the sums on the way
there, added to `high`, in one number. -/
def checksumFrom (bytes : ByteArray) (place low high : Nat) : Nat :=
  if h : place < bytes.size then
    let low := (low + bytes[place].toNat) % checksumModulus
    checksumFrom bytes (place + 1) low ((high + low) % checksumModulus)
  else
    high * wordValues 2 + low
termination_by bytes.size - place

/-- The checksum of some bytes: the sum of the bytes and one, and the sum of these sums, both
modulo the largest prime below `2 ^ 16`. -/
def checksum (bytes : ByteArray) : Nat :=
  checksumFrom bytes 0 1 0

/-- The two bytes in front of the blocks: a method, a window size, and a check that makes
them a multiple of 31. -/
def readHeader : BitReader Unit := do
  let method ← BitReader.byte
  let flags ← BitReader.byte
  if method.toNat % 16 = 8 ∧ method.toNat / 16 ≤ 7 ∧ flags.toNat / 32 % 2 = 0
      ∧ (256 * method.toNat + flags.toNat) % 31 = 0 then
    return ⟨⟩
  else
    throw .corrupt

/-- The checksum after the blocks. -/
def readChecksum : BitReader Nat := do
  let bytes := [← BitReader.byte, ← BitReader.byte, ← BitReader.byte, ← BitReader.byte]
  return ByteOrder.big.decode bytes

/-- The bytes in a container, as far as they can be recovered, and the flaw of the
container, if it has one. -/
def unpack (setting : Setting) (bytes : ByteArray) : ByteArray × Option Flaw :=
  match readHeader (Bits.ofBytes bytes) with
  | .error flaw => (.empty, some flaw)
  | .ok (_, s) =>
    match inflateBlocks setting (s.count + 1) .empty s with
    | ⟨output, _, some flaw⟩ => (output, some flaw)
    | ⟨output, s, none⟩ =>
      match readChecksum s with
      | .error flaw => (output, some flaw)
      | .ok (sum, _) => (output, if sum = checksum output then none else some .corrupt)

/-- The bytes in a container, which can refer to null bytes in front of them. -/
def decompress (bytes : ByteArray) : Except Flaw ByteArray :=
  match unpack ⟨.zeros, none⟩ bytes with
  | (output, none) => .ok output
  | (_, some flaw) => .error flaw

/-- The first `size` bytes in a container, which cannot refer to anything in front of them.  A
container that is broken only after them will do, but not one that holds fewer. -/
def decompressAtMost (size : Nat) (bytes : ByteArray) : Except Flaw ByteArray :=
  let (output, flaw) := unpack ⟨.empty, some size⟩ bytes
  if flaw = some .corrupt ∧ output.size ≤ size then .error .corrupt
  else if output.size < size then .error .incomplete
  else .ok (output.extract 0 size)

/-- The number of bytes that a stored block can hold. -/
def maxStored : Nat :=
  65535

/-- A stored block. -/
def storedBlock (last : Bool) (block : List UInt8) : List UInt8 :=
  let length := ByteOrder.little.encode 2 block.length
  (if last then 1 else 0) :: length ++ length.map (~~~ ·) ++ block

/-- Stored blocks that hold the given bytes. -/
def storedBlocks (bytes : List UInt8) : List UInt8 :=
  if bytes.drop maxStored = [] then
    storedBlock true bytes
  else
    storedBlock false (bytes.take maxStored) ++ storedBlocks (bytes.drop maxStored)
termination_by bytes.length
decreasing_by
  rename_i rest_ne
  have longer : maxStored < bytes.length := by
    apply Nat.lt_of_not_le
    intro le
    exact rest_ne (List.drop_of_length_le le)
  rw [List.length_drop]
  exact Nat.sub_lt (Nat.lt_of_le_of_lt (Nat.zero_le _) longer) (by decide)

/-- A container for the given bytes. -/
def compress (bytes : List UInt8) : List UInt8 :=
  [0x78, 0x01] ++ storedBlocks bytes ++ ByteOrder.big.encode 4 (checksum bytes.toByteArray)

end CompactTypes.Deflate

import CompactTypes.Deflate.Zlib
import CompactTypes.Proofs.Bytes.Lists

/-!
# Stored containers

Inflating the container that `compress` makes gives back its bytes, `decompress_compress`.
A stream is looked at as the list of the bytes in front of its next whole byte, and the list
of those from there on; each reader moves bytes from the second list to the first.
-/

namespace CompactTypes.Deflate

/-- `s.Stands front rest` holds when the next whole byte of `s` is the first of `rest`, and
`front` are the bytes before it. -/
structure Bits.Stands (s : Bits) (front rest : List UInt8) : Prop where
  bytes_eq : s.bytes = (front ++ rest).toByteArray
  nextByte_eq : s.nextByte = front.length

theorem Bits.stands_fromByte {bytes : ByteArray} {position : Nat} (front rest : List UInt8)
    (h : bytes = (front ++ rest).toByteArray) :
  (Bits.fromByte ⟨bytes, position⟩ front.length).Stands front rest
  := by
  refine ⟨h, ?_⟩
  simp only [nextByte, fromByte]
  omega

theorem bind_eq {α β : Type} {r : BitReader α} {f : α → BitReader β} {s s' : Bits} {a : α}
    (h : r s = .ok (a, s')) :
  (r >>= f) s = f a s'
  := by
  change (r s >>= fun p => f p.1 p.2) = f a s'
  rw [h]
  rfl

theorem byte_ok {s : Bits} {front rest : List UInt8} {b : UInt8}
    (h : s.Stands front (b :: rest)) :
  BitReader.byte s = .ok (b, s.fromByte (front ++ [b]).length)
    ∧ (s.fromByte (front ++ [b]).length).Stands (front ++ [b]) rest
  := by
  obtain ⟨bytes, position⟩ := s
  obtain ⟨rfl, place⟩ := h
  constructor
  · have inside : front.length < (front ++ b :: rest).toByteArray.size := by simp
    have here := getElem_append_toByteArray front b rest inside
    simp only [BitReader.byte, place]
    rw [dif_pos inside, here, List.length_append, List.length_singleton]
  · apply Bits.stands_fromByte
    rw [List.append_assoc, List.singleton_append]

/-! ### Stored blocks -/

theorem bit_ok (front rest : List UInt8) (b : UInt8) (j : Nat) (hj : j < 8) :
  BitReader.bit ⟨(front ++ b :: rest).toByteArray, 8 * front.length + j⟩
    = .ok (b.toNat.testBit j, ⟨(front ++ b :: rest).toByteArray, 8 * front.length + (j + 1)⟩)
  := by
  have inside : front.length < (front ++ b :: rest).toByteArray.size := by simp
  have here := getElem_append_toByteArray front b rest inside
  have quotient : (8 * front.length + j) / 8 = front.length := by omega
  have remainder : (8 * front.length + j) % 8 = j := by omega
  simp only [BitReader.bit, quotient, remainder]
  rw [dif_pos inside, here]
  rfl

/-- The byte in front of a stored block, which says whether it is the last one. -/
def startByte (last : Bool) : UInt8 :=
  if last then 1 else 0

theorem readBlockStart_ok (front rest : List UInt8) (last : Bool) :
  readBlockStart ⟨(front ++ startByte last :: rest).toByteArray, 8 * front.length⟩
    = .ok ((last, 0), ⟨(front ++ startByte last :: rest).toByteArray, 8 * front.length + 3⟩)
  := by
  have first := bit_ok front rest (startByte last) 0 (by decide)
  have second := bit_ok front rest (startByte last) 1 (by decide)
  have third := bit_ok front rest (startByte last) 2 (by decide)
  simp only [Nat.add_zero] at first
  have number : BitReader.number 2
      ⟨(front ++ startByte last :: rest).toByteArray, 8 * front.length + (0 + 1)⟩
        = .ok (0, ⟨(front ++ startByte last :: rest).toByteArray, 8 * front.length + 3⟩) := by
    unfold BitReader.number BitReader.number
    rw [bind_eq second, bind_eq (bind_eq third)]
    cases last <;> rfl
  unfold readBlockStart
  rw [bind_eq first, bind_eq number]
  cases last <;> rfl

/-- The number of bytes of a stored block, as it is stored. -/
def lengthField (length : Nat) : List UInt8 :=
  ByteOrder.little.encode 2 length ++ (ByteOrder.little.encode 2 length).map (~~~ ·)

theorem readStoredLength_ok {s : Bits} {front rest : List UInt8} {length : Nat}
    (bound : length ≤ maxStored) (h : s.Stands front (lengthField length ++ rest)) :
  readStoredLength s
      = .ok (length, s.fromByte (front ++ lengthField length).length)
    ∧ (s.fromByte (front ++ lengthField length).length).Stands
      (front ++ lengthField length) rest
  := by
  let low := UInt8.ofNat length
  let high := UInt8.ofNat (length / 256)
  have field : lengthField length = [low, high, ~~~low, ~~~high] := rfl
  rw [field] at h ⊢
  obtain ⟨read₁, h₁⟩ := byte_ok h
  obtain ⟨read₂, h₂⟩ := byte_ok h₁
  obtain ⟨read₃, h₃⟩ := byte_ok h₂
  obtain ⟨read₄, h₄⟩ := byte_ok h₃
  have value : low.toNat + 256 * high.toNat = length := by
    simp only [low, high, UInt8.toNat_ofNat']
    unfold maxStored at bound
    omega
  simp only [List.append_assoc, List.cons_append, List.nil_append] at h₄
  constructor
  · unfold readStoredLength
    rw [bind_eq read₁, bind_eq read₂, bind_eq read₃, bind_eq read₄, if_pos ⟨rfl, rfl⟩, value]
    simp only [List.append_assoc]
    rfl
  · exact h₄

theorem inflateStored_ok {s : Bits} {front block rest : List UInt8} (output : ByteArray)
    (bound : block.length ≤ maxStored)
    (h : s.Stands front (lengthField block.length ++ (block ++ rest))) :
  inflateStored output s
    = ⟨output ++ block.toByteArray,
        s.fromByte (front ++ lengthField block.length ++ block).length, none⟩
  := by
  obtain ⟨read, h'⟩ := readStoredLength_ok bound h
  let before := front ++ lengthField block.length
  have total : (before ++ block).length = before.length + block.length := List.length_append
  have stop : min (before.length + block.length) (before ++ (block ++ rest)).length
      = (before ++ block).length := by
    simp only [List.length_append]
    omega
  have stored : (before ++ (block ++ rest)).toByteArray.extract before.length
      (before ++ block).length = block.toByteArray := by
    rw [total, extract_append_toByteArray]
  obtain ⟨bytes_eq, place⟩ := h'
  simp only [inflateStored, read, place, bytes_eq, List.size_toByteArray]
  rw [stop, stored, if_pos total]
  rfl

/-- A stored block is the only thing that is read from where it starts. -/
theorem inflateBlock_stored (front block rest : List UInt8) (last : Bool)
    (output : ByteArray) (bound : block.length ≤ maxStored) :
  readBlockStart
        ⟨(front ++ (storedBlock last block ++ rest)).toByteArray, 8 * front.length⟩
      = .ok ((last, 0),
        ⟨(front ++ (storedBlock last block ++ rest)).toByteArray, 8 * front.length + 3⟩)
    ∧ inflateStored output
        ⟨(front ++ (storedBlock last block ++ rest)).toByteArray, 8 * front.length + 3⟩
      = ⟨output ++ block.toByteArray,
        ⟨(front ++ (storedBlock last block ++ rest)).toByteArray,
          8 * (front ++ storedBlock last block).length⟩, none⟩
  := by
  have split : storedBlock last block
      = startByte last :: (lengthField block.length ++ block) := by
    simp [storedBlock, startByte, lengthField]
  rw [split]
  constructor
  · exact readBlockStart_ok front (lengthField block.length ++ block ++ rest) last
  · let bytes :=
      (front ++ (startByte last :: (lengthField block.length ++ block) ++ rest)).toByteArray
    have stands : Bits.Stands ⟨bytes, 8 * front.length + 3⟩ (front ++ [startByte last])
        (lengthField block.length ++ (block ++ rest)) := by
      constructor
      · simp [bytes]
      · simp only [Bits.nextByte, List.length_append, List.length_singleton]
        omega
    have inflated := inflateStored_ok output bound stands
    simp only [Bits.fromByte, List.append_assoc, List.singleton_append] at inflated
    exact inflated

/-- Inflating stored blocks adds their bytes to the output.  The fuel only has to be as large
as the number of bytes that the blocks take. -/
theorem inflateBlocks_storedBlocks (bytes front rest : List UInt8) (output : ByteArray)
    (fuel : Nat) (h : (storedBlocks bytes).length ≤ fuel) :
  inflateBlocks ⟨.zeros, none⟩ fuel output
      ⟨(front ++ (storedBlocks bytes ++ rest)).toByteArray, 8 * front.length⟩
    = ⟨output ++ bytes.toByteArray,
      ⟨(front ++ (storedBlocks bytes ++ rest)).toByteArray,
        8 * (front ++ storedBlocks bytes).length⟩, none⟩
  := by
  induction bytes using storedBlocks.induct generalizing front output fuel with
  | case1 bytes isLast =>
    have blocks : storedBlocks bytes = storedBlock true bytes := by
      rw [storedBlocks, if_pos isLast]
    have bound : bytes.length ≤ maxStored := List.drop_eq_nil_iff.mp isLast
    rw [blocks] at h ⊢
    obtain ⟨start, inflated⟩ := inflateBlock_stored front bytes rest true output bound
    cases fuel with
    | zero => simp [storedBlock] at h
    | succ fuel =>
      simp only [inflateBlocks, Setting.isSated, start, inflateBlock, inflated,
        Bool.false_eq_true, if_false, if_true]
  | case2 bytes isNotLast ih =>
    have bound : (bytes.take maxStored).length ≤ maxStored := List.length_take_le _ _
    have blocks : storedBlocks bytes
        = storedBlock false (bytes.take maxStored) ++ storedBlocks (bytes.drop maxStored) := by
      rw [storedBlocks, if_neg isNotLast]
    have whole := List.take_append_drop maxStored bytes
    generalize bytes.take maxStored = block at bound blocks whole
    generalize bytes.drop maxStored = later at blocks ih whole
    subst whole
    rw [blocks] at h ⊢
    obtain ⟨start, inflated⟩ :=
      inflateBlock_stored front block (storedBlocks later ++ rest) false output bound
    cases fuel with
    | zero => simp [storedBlock] at h
    | succ fuel =>
      have enough : (storedBlocks later).length ≤ fuel := by
        simp only [storedBlock, List.length_append, List.length_cons] at h
        omega
      have next := ih (front ++ storedBlock false block) (output ++ block.toByteArray) fuel enough
      rw [ByteArray.append_assoc, ← List.toByteArray_append] at next
      simp only [List.append_assoc] at next start inflated ⊢
      simp only [inflateBlocks, Setting.isSated, start, inflateBlock, inflated, next,
        Bool.false_eq_true, if_false]

/-! ### The container -/

theorem checksumFrom_lt (bytes : ByteArray) (place low high : Nat)
    (hlow : low < checksumModulus) (hhigh : high < checksumModulus) :
  checksumFrom bytes place low high < wordValues 4
  := by
  fun_induction checksumFrom bytes place low high with
  | case1 place low high inside low' ih =>
    exact ih (Nat.mod_lt _ (by decide)) (Nat.mod_lt _ (by decide))
  | case2 place low high =>
    simp only [checksumModulus, wordValues_two, wordValues_four] at *
    omega

theorem readChecksum_ok {s : Bits} {front rest : List UInt8} {sum : Nat}
    (bound : sum < wordValues 4)
    (h : s.Stands front (ByteOrder.big.encode 4 sum ++ rest)) :
  readChecksum s = .ok (sum, s.fromByte (front.length + 4))
  := by
  have decoded := ByteOrder.decode_encode .big 4 sum
  rw [Nat.mod_eq_of_lt bound] at decoded
  match hfield : ByteOrder.big.encode 4 sum, ByteOrder.length_encode .big 4 sum with
  | [b₁, b₂, b₃, b₄], _ =>
    rw [hfield] at h decoded
    obtain ⟨read₁, h₁⟩ := byte_ok h
    obtain ⟨read₂, h₂⟩ := byte_ok h₁
    obtain ⟨read₃, h₃⟩ := byte_ok h₂
    obtain ⟨read₄, -⟩ := byte_ok h₃
    unfold readChecksum
    rw [bind_eq read₁, bind_eq read₂, bind_eq read₃, bind_eq read₄, decoded]
    simp only [List.append_assoc, List.length_append]
    rfl

theorem readHeader_ok (rest : List UInt8) :
  readHeader (Bits.ofBytes ([0x78, 0x01] ++ rest).toByteArray)
    = .ok (⟨⟩, ⟨([0x78, 0x01] ++ rest).toByteArray, 8 * [(0x78 : UInt8), 0x01].length⟩)
  := by
  have stands : (Bits.ofBytes ([0x78, 0x01] ++ rest).toByteArray).Stands []
      (0x78 :: 0x01 :: rest) := ⟨rfl, by simp [Bits.nextByte, Bits.ofBytes]⟩
  obtain ⟨read₁, h₁⟩ := byte_ok stands
  obtain ⟨read₂, -⟩ := byte_ok h₁
  unfold readHeader
  rw [bind_eq read₁, bind_eq read₂]
  rfl

/-- Inflating the container of some bytes gives them back. -/
theorem decompress_compress (bytes : List UInt8) :
  decompress (compress bytes).toByteArray = .ok bytes.toByteArray
  := by
  let back := ByteOrder.big.encode 4 (checksum bytes.toByteArray)
  have split : compress bytes = [0x78, 0x01] ++ (storedBlocks bytes ++ back) := by
    simp [compress, back]
  have header := readHeader_ok (storedBlocks bytes ++ back)
  let s : Bits :=
    ⟨([0x78, 0x01] ++ (storedBlocks bytes ++ back)).toByteArray, 8 * [(0x78 : UInt8), 0x01].length⟩
  have enough : (storedBlocks bytes).length ≤ s.count + 1 := by
    simp only [Bits.count, s, List.size_toByteArray, List.length_append, List.length_cons]
    omega
  have inflated := inflateBlocks_storedBlocks bytes [0x78, 0x01] back .empty (s.count + 1) enough
  have small : checksum bytes.toByteArray < wordValues 4 :=
    checksumFrom_lt bytes.toByteArray 0 1 0 (by decide) (by decide)
  have stands : Bits.Stands ⟨s.bytes, 8 * ([0x78, 0x01] ++ storedBlocks bytes).length⟩
      ([0x78, 0x01] ++ storedBlocks bytes) (back ++ []) := by
    constructor
    · simp [s]
    · simp only [Bits.nextByte]
      omega
  have sum := readChecksum_ok small stands
  rw [split]
  simp only [decompress, unpack, header]
  rw [inflated]
  simp only [s] at sum
  simp only [sum, ByteArray.empty_append, if_true]

end CompactTypes.Deflate

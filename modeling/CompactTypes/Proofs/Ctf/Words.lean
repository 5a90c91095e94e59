import CompactTypes.Proofs.Ctf.Document

/-!
# Words of the compact format

What the parsers of the compact format make of the words that an encoder writes: info words,
sizes and other long numbers, the data words of integers and floating-point numbers, padding,
and texts given by their place in a string table.
-/

namespace CompactTypes.Ctf

open CompactTypes.Parser

/-! ### Info words -/

theorem kind?_number (kind : TypeKind) :
  kind? kind.number.toNat = some kind
  := by
  cases kind <;> decide

theorem toNat_infoFront (kind : TypeKind) (isRoot : Bool) :
  (kind.number <<< 11 ||| (if isRoot then (1 : UInt16) else 0) <<< 10).toNat
    = (2 * kind.number.toNat + isRoot.toNat) <<< 10
  := by
  cases kind <;> cases isRoot <;> rfl

/-- The parts of an info word do not overlap. -/
theorem toNat_infoWord (kind : TypeKind) (isRoot : Bool) (count : UInt16)
    (h : count.toNat ≤ maxEntries) :
  (infoWord kind isRoot count).toNat
    = (2 * kind.number.toNat + isRoot.toNat) * 0x400 + count.toNat
  := by
  have small : count.toNat < 2 ^ 10 := Nat.lt_succ_of_le h
  rw [infoWord, UInt16.toNat_or, toNat_infoFront, ← Nat.shiftLeft_add_eq_or_of_lt small,
    Nat.shiftLeft_eq]

theorem ofWord?_infoWord (kind : TypeKind) (isRoot : Bool) (count : UInt16)
    (h : count.toNat ≤ maxEntries) :
  Info.ofWord? (infoWord kind isRoot count).toNat = some ⟨kind, isRoot, count.toNat⟩
  := by
  have small : count.toNat < 0x400 := Nat.lt_succ_of_le h
  have flag := isRoot.toNat_lt
  have word := toNat_infoWord kind isRoot count h
  have code : (infoWord kind isRoot count).toNat / 0x800 = kind.number.toNat := by
    omega
  have root : (infoWord kind isRoot count).toNat / 0x400 % 2 = isRoot.toNat := by
    omega
  have entries : (infoWord kind isRoot count).toNat % 0x400 = count.toNat := by
    omega
  rw [Info.ofWord?, code, kind?_number, root, entries]
  cases isRoot <;> rfl

/-- The info word of a function is not the zero of a placeholder. -/
theorem infoWord_function_ne_zero (count : UInt16) (h : count.toNat ≤ maxEntries) :
  (infoWord .function false count).toNat ≠ 0
  := by
  rw [toNat_infoWord .function false count h]
  have code : TypeKind.function.number.toNat = 5 := rfl
  omega

/-! ### Numbers -/

/-- Two halves of a 64-bit number make up the number. -/
theorem reads_halves (o : ByteOrder) (v : UInt64) :
  Reads (parseHalves o) (halves o v) v.toNat
  := by
  have low : v.toUInt32.toNat = v.toNat % 0x100000000 := UInt64.toNat_toUInt32 v
  have high : (v >>> 32).toUInt32.toNat = v.toNat / 0x100000000 := by
    have small := v.toNat_lt
    rw [UInt64.toNat_toUInt32, UInt64.toNat_shiftRight, Nat.shiftRight_eq_div_pow]
    exact Nat.mod_eq_of_lt (Nat.div_lt_of_lt_mul small)
  have value : (v >>> 32).toUInt32.toNat * wordValues 4 + v.toUInt32.toNat = v.toNat := by
    rw [wordValues_four, low, high]
    omega
  rw [← value]
  exact (Reads.u32 o _).bind ((Reads.u32 o _).bind_last (Reads.pure _))

/-- A size is read back, be it short or long. -/
theorem reads_size (o : ByteOrder) (size : UInt64) :
  Reads (parseSize o) (sizeBytes o size) size.toNat
  := by
  rw [sizeBytes]
  split
  next => exact (Reads.u16 o longSizeMark).bind (reads_halves o size)
  next short =>
    have small : size.toNat ≤ 0xfffe := UInt64.le_iff_toNat_le.mp (UInt64.not_lt.mp short)
    have word : size.toUInt16.toNat = size.toNat := by
      rw [UInt64.toNat_toUInt16]
      exact Nat.mod_eq_of_lt (by omega)
    apply (Reads.u16 o size.toUInt16).bind_last
    rw [word, if_neg (by omega)]
    exact Reads.pure size.toNat

theorem reads_padding (o : ByteOrder) :
  Reads (parsePadding o) (o.u16 0) ()
  := (Reads.u16 o 0).bind_last (Reads.expect rfl)

/-- A number with a sign that is cut off to 32 bits wraps around. -/
theorem reads_signed (o : ByteOrder) (v : Int64) :
  Reads (parseSigned o) (o.u32 v.toUInt64.toUInt32) (v.toInt.bmod (wordValues 4))
  := by
  have low : v.toUInt64.toUInt32.toNat = v.toUInt64.toNat % 0x100000000 :=
    UInt64.toNat_toUInt32 v.toUInt64
  have signed : v.toInt = (v.toUInt64.toNat : Int).bmod 0x10000000000000000 :=
    BitVec.toInt_eq_toNat_bmod v.toBitVec
  have value : ((v.toUInt64.toUInt32.toNat : Nat) : Int).bmod (wordValues 4)
      = v.toInt.bmod (wordValues 4) := by
    rw [low, signed, wordValues_four, Int.bmod_bmod_of_dvd (by decide), Int.natCast_emod]
    apply Int.emod_bmod
  rw [← value]
  exact (Reads.u32 o v.toUInt64.toUInt32).bind_last (Reads.pure _)

/-- The encoding and the bits of a number do not overlap; the encoding is cut off to a byte. -/
theorem toNat_numberWord (encoding : UInt16) (bits : Nat) (short : bits < 0x10000) :
  (encoding.toUInt32 <<< 24 ||| UInt32.ofNat bits).toNat
    = encoding.toNat % 0x100 * 0x1000000 + bits
  := by
  have low : (UInt32.ofNat bits).toNat = bits :=
    UInt32.toNat_ofNat_of_lt' (by rw [UInt32.size]; omega)
  have high : (encoding.toUInt32 <<< 24).toNat = (encoding.toNat % 0x100) <<< 24 := by
    rw [UInt32.toNat_shiftLeft, UInt16.toNat_toUInt32]
    change encoding.toNat <<< 24 % 0x100000000 = (encoding.toNat % 0x100) <<< 24
    rw [Nat.shiftLeft_eq, Nat.shiftLeft_eq]
    omega
  have small : bits < 2 ^ 24 := by omega
  rw [UInt32.toNat_or, low, high, ← Nat.shiftLeft_add_eq_or_of_lt small, Nat.shiftLeft_eq]

/-! ### Texts -/

theorem fromUTF8?_toUTF8 (s : String) :
  String.fromUTF8? s.toUTF8 = some s
  := by
  rw [String.fromUTF8?, String.toUTF8_eq_toByteArray, dif_pos s.isValidUTF8]
  rfl

/-- A text that stands at an offset of the string table is read from there. -/
theorem reads_text (o : ByteOrder) {strings : ByteArray} {place : UInt32} {s : String}
    (h : textAt? strings place.toNat = some s.toUTF8) :
  Reads (parseText o strings) (o.u32 place) s
  := by
  apply (Reads.u32 o place).bind_last
  exact (Reads.ofOption h).bind (Reads.ofOption (fromUTF8?_toUTF8 s))

end CompactTypes.Ctf

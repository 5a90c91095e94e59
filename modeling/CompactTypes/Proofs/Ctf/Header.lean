import CompactTypes.Ctf.Header
import CompactTypes.Proofs.Bytes.Lists

/-!
# Headers as bytes

A header that has been written is read back from the front of a file, `read_toBytes`, and
what follows it is the stored body.  In the other byte order it is no header, `read_other`.
What has been read is written as the bytes that it was read from, `toBytes_ofBytes`, so that
reading accepts exactly what writing produces, `read_as_written`.
-/

namespace CompactTypes.Ctf.Header

/-- A field of a header is what stands after the fields in front of it. -/
theorem decode_extract (o : ByteOrder) (front back : List UInt8) (n v : Nat)
    (h : v < wordValues n) :
  o.decode (byteList
      ((front ++ (o.encode n v ++ back)).toByteArray.extract front.length (front.length + n)))
    = v
  := by
  have field := extract_append_toByteArray front (o.encode n v) back
  rw [ByteOrder.length_encode] at field
  rw [field, byteList_toByteArray, ByteOrder.decode_encode, Nat.mod_eq_of_lt h]

theorem byteAt_append (front back : List UInt8) (b : UInt8) :
  byteAt (front ++ b :: back).toByteArray front.length = b
  := by
  have inside : front.length < (front ++ b :: back).toByteArray.size := by simp
  rw [byteAt, dif_pos inside, getElem_append_toByteArray front b back inside]

theorem length_flatMap_u32 (o : ByteOrder) (words : List UInt32) :
  (words.flatMap o.u32).length = 4 * words.length
  := by
  induction words with
  | nil => rfl
  | cons w words ih =>
    rw [List.flatMap_cons, List.length_append, ih, ByteOrder.length_u32, List.length_cons]
    omega

/-- The word with a given place among the words that follow some bytes. -/
theorem word_eq (o : ByteOrder) (front back : List UInt8) (words : List UInt32) (k place : Nat)
    (hk : k < words.length) (hplace : place = front.length + 4 * k) :
  UInt32.ofNat (o.decode (byteList
      ((front ++ (words.flatMap o.u32 ++ back)).toByteArray.extract place (place + 4))))
    = words[k]
  := by
  let front' := front ++ (words.take k).flatMap o.u32
  let back' := (words.drop (k + 1)).flatMap o.u32 ++ back
  have split : front ++ (words.flatMap o.u32 ++ back)
      = front' ++ (o.encode 4 words[k].toNat ++ back') := by
    have parts : words = words.take k ++ words[k] :: words.drop (k + 1) := by
      rw [List.getElem_cons_drop, List.take_append_drop]
    calc front ++ (words.flatMap o.u32 ++ back)
        = front ++ ((words.take k ++ words[k] :: words.drop (k + 1)).flatMap o.u32 ++ back) := by
          rw [← parts]
      _ = front' ++ (o.encode 4 words[k].toNat ++ back') := by
          rw [List.flatMap_append, List.flatMap_cons]
          simp only [front', back', ByteOrder.u32, List.append_assoc]
  have length : front'.length = place := by
    rw [hplace, List.length_append, length_flatMap_u32, List.length_take_of_le (Nat.le_of_lt hk)]
  rw [split, ← length, decode_extract o front' back' 4 _ words[k].toNat_lt, UInt32.ofNat_toNat]

theorem ofBytes_toBytes (o : ByteOrder) (h : Header) (rest : List UInt8) :
  ofBytes o (h.toBytes o ++ rest).toByteArray = h
  := by
  obtain ⟨magic, version, flags, label, name, labels, objects, functions, types, strings,
    size⟩ := h
  let words := [label, name, labels, objects, functions, types, strings, size]
  let front := o.u16 magic ++ [version, flags]
  have bytes_eq : toBytes o ⟨magic, version, flags, label, name, labels, objects, functions,
      types, strings, size⟩ ++ rest = front ++ (words.flatMap o.u32 ++ rest) := by
    simp [toBytes, front, words]
  have length : front.length = 4 := by simp [front]
  have word (k : Nat) (hk : k < words.length) (place : Nat) (hplace : place = 4 + 4 * k) :=
    word_eq o front rest words k place hk (length ▸ hplace)
  rw [bytes_eq]
  simp only [ofBytes, mk.injEq]
  refine ⟨?_, ?_, ?_, word 0 ?_ _ rfl, word 1 ?_ _ rfl, word 2 ?_ _ rfl, word 3 ?_ _ rfl,
    word 4 ?_ _ rfl, word 5 ?_ _ rfl, word 6 ?_ _ rfl, word 7 ?_ _ rfl⟩
  · have value := decode_extract o [] ([version, flags] ++ (words.flatMap o.u32 ++ rest)) 2
      magic.toNat magic.toNat_lt
    simp only [List.nil_append, List.length_nil, Nat.zero_add] at value
    simp only [front, List.append_assoc, ByteOrder.u16]
    rw [value, UInt16.ofNat_toNat]
  · have value := byteAt_append (o.u16 magic) (flags :: (words.flatMap o.u32 ++ rest)) version
    rw [ByteOrder.length_u16] at value
    simpa [front] using value
  · have value := byteAt_append (o.u16 magic ++ [version]) (words.flatMap o.u32 ++ rest) flags
    rw [List.length_append, ByteOrder.length_u16] at value
    simpa [front] using value
  all_goals simp [words]

/-- What `read` accepts, and the header that it then gives. -/
theorem read_ok_iff {o : ByteOrder} {bytes : ByteArray} {h : Header} :
  read o bytes = .ok h ↔ headerSize ≤ bytes.size ∧ (ofBytes o bytes).magic = magicNumber
    ∧ (ofBytes o bytes).version = formatVersion ∧ ofBytes o bytes = h
  := by
  by_cases long : headerSize ≤ bytes.size
  · by_cases marked : (ofBytes o bytes).magic = magicNumber
      ∧ (ofBytes o bytes).version = formatVersion
    · simp [read, Nat.not_lt.mpr long, long, marked]
    · simp only [read, if_neg (Nat.not_lt.mpr long), if_neg marked, reduceCtorEq, false_iff]
      exact fun ⟨_, magic, version, _⟩ => marked ⟨magic, version⟩
  · simp [read, Nat.not_le.mp long, long]

theorem headerSize_le_size (o : ByteOrder) (h : Header) (rest : List UInt8) :
  headerSize ≤ (h.toBytes o ++ rest).toByteArray.size
  := by
  rw [List.size_toByteArray, List.length_append, length_toBytes]
  exact Nat.le_add_right headerSize rest.length

/-- A header with the magic number and the version of the format is read back. -/
theorem read_toBytes (o : ByteOrder) (h : Header) (rest : List UInt8)
    (magic : h.magic = magicNumber) (version : h.version = formatVersion) :
  read o (h.toBytes o ++ rest).toByteArray = .ok h
  := by
  rw [read_ok_iff, ofBytes_toBytes]
  exact ⟨headerSize_le_size o h rest, magic, version, rfl⟩

/-- The magic number of the format in the other byte order. -/
def swappedMagic : UInt16 :=
  0xf1cf

theorem decode_magicNumber {o o' : ByteOrder} (other : o' ≠ o) :
  UInt16.ofNat (o'.decode (o.u16 magicNumber)) = swappedMagic
  := by
  cases o <;> cases o' <;> first | exact absurd rfl other | rfl

theorem magic_ofBytes (o : ByteOrder) (bytes : ByteArray) :
  (ofBytes o bytes).magic = UInt16.ofNat (o.decode ((byteList bytes).take 2))
  := by
  change UInt16.ofNat (o.decode (byteList (bytes.extract 0 2))) = _
  rw [byteList_extract, List.drop_zero]

theorem take_two_toBytes (o : ByteOrder) (h : Header) (rest : List UInt8) :
  (h.toBytes o ++ rest).take 2 = o.u16 h.magic
  := by
  simp only [toBytes, List.append_assoc]
  exact List.take_left' (o.length_u16 h.magic)

/-- In the other byte order, the magic number of a header is not that of the format. -/
theorem read_other {o o' : ByteOrder} (h : Header) (rest : List UInt8)
    (magic : h.magic = magicNumber) (version : h.version = formatVersion) (other : o' ≠ o) :
  read o' (h.toBytes o ++ rest).toByteArray
    = .error (.unencodable (.badHeader swappedMagic formatVersion))
  := by
  have long := Nat.not_lt.mpr (headerSize_le_size o h rest)
  have swapped : (ofBytes o' (h.toBytes o ++ rest).toByteArray).magic = swappedMagic := by
    rw [magic_ofBytes, byteList_toByteArray, take_two_toBytes, magic, decode_magicNumber other]
  -- The version is a single byte, so the order makes no difference to it.
  have same : (ofBytes o' (h.toBytes o ++ rest).toByteArray).version = formatVersion := by
    change (ofBytes o (h.toBytes o ++ rest).toByteArray).version = formatVersion
    rw [ofBytes_toBytes, version]
  simp only [read, if_neg long, swapped, same]
  rw [if_neg fun both => absurd both.1 (by decide)]

theorem stored_toBytes (o : ByteOrder) (h : Header) (rest : List UInt8) :
  (h.toBytes o ++ rest).toByteArray.extract headerSize (h.toBytes o ++ rest).toByteArray.size
    = rest.toByteArray
  := by
  rw [extract_toByteArray, List.size_toByteArray, List.take_length, ← length_toBytes o h,
    List.drop_left]

/-! ### What has been read -/

/-- A word that has been read is written as the bytes that it was read from. -/
theorem take_append_u32 (o : ByteOrder) (bytes : ByteArray) (place : Nat)
    (inside : place + 4 ≤ bytes.size) :
  (byteList bytes).take place
      ++ o.u32 (UInt32.ofNat (o.decode (byteList (bytes.extract place (place + 4)))))
    = (byteList bytes).take (place + 4)
  := by
  have length : (byteList (bytes.extract place (place + 4))).length = 4 := by
    rw [length_byteList, ByteArray.size_extract]
    omega
  rw [o.u32_decode length, take_append_extract]

/-- The magic number that has been read is written as the first two bytes. -/
theorem u16_magic_ofBytes (o : ByteOrder) (bytes : ByteArray) (inside : 2 ≤ bytes.size) :
  o.u16 (ofBytes o bytes).magic = (byteList bytes).take 2
  := by
  have length : ((byteList bytes).take 2).length = 2 := by
    rw [List.length_take, length_byteList, Nat.min_eq_left inside]
  rw [magic_ofBytes, o.u16_decode length]

/-- A header that has been read, whatever its fields, is written as the bytes that it was read
from. -/
theorem toBytes_ofBytes (o : ByteOrder) (bytes : ByteArray) (long : headerSize ≤ bytes.size) :
  (ofBytes o bytes).toBytes o = (byteList bytes).take headerSize
  := by
  rw [headerSize] at long
  have marks : o.u16 (ofBytes o bytes).magic
      ++ [(ofBytes o bytes).version, (ofBytes o bytes).flags] = (byteList bytes).take 4 := by
    rw [u16_magic_ofBytes o bytes (by omega), List.append_cons]
    change (byteList bytes).take 2 ++ [byteAt bytes 2] ++ [byteAt bytes 3] = _
    rw [take_append_byteAt bytes 2 (by omega), take_append_byteAt bytes 3 (by omega)]
  have word (place : Nat) (inside : place + 4 ≤ 36) :=
    take_append_u32 o bytes place (Nat.le_trans inside long)
  -- The fields follow each other, so that each one prolongs what those in front of it are.
  rw [toBytes, marks]
  simp only [ofBytes]
  rw [word 4, word 8, word 12, word 16, word 20, word 24, word 28, word 32]
  · rfl
  all_goals omega

theorem magic_ofBytes_iff (o : ByteOrder) (bytes : ByteArray) (inside : 2 ≤ bytes.size) :
  (ofBytes o bytes).magic = magicNumber
    ↔ o.decode ((byteList bytes).take 2) = magicNumber.toNat
  := by
  rw [← u16_magic_ofBytes o bytes inside, o.decode_u16, UInt16.toNat_inj]

/-- Bytes are read as a header if and only if there are at least 36 of them, the first two stand
for 0xcff1 and the third one is 2, and the header is then written as the first 36 of them.  A
header of the format is read back from what is written, whatever comes after it, and what is
written is no header in the other byte order. -/
theorem read_as_written (o : ByteOrder) :
  (∀ bytes : ByteArray,
    ((∃ h, read o bytes = .ok h)
      ↔ 36 ≤ bytes.size ∧ o.decode ((byteList bytes).take 2) = 0xcff1 ∧ byteAt bytes 2 = 2)
    ∧ ∀ h, read o bytes = .ok h → h.toBytes o = (byteList bytes).take 36)
  ∧ ∀ (h : Header) (rest : List UInt8), h.magic = magicNumber → h.version = formatVersion →
    read o (h.toBytes o ++ rest).toByteArray = .ok h
    ∧ ∀ o' ≠ o, read o' (h.toBytes o ++ rest).toByteArray
      = .error (.unencodable (.badHeader swappedMagic formatVersion))
  := by
  refine ⟨fun bytes => ⟨⟨?accepted, ?acceptable⟩, fun h accepted => ?written⟩,
    fun h rest magic version => ⟨?back, fun o' other => ?other⟩⟩
  case accepted =>
    rintro ⟨h, accepted⟩
    obtain ⟨long, magic, version, -⟩ := read_ok_iff.mp accepted
    exact ⟨long, (magic_ofBytes_iff o bytes (Nat.le_trans (by decide) long)).mp magic, version⟩
  case acceptable =>
    rintro ⟨long, magic, version⟩
    have marked := (magic_ofBytes_iff o bytes (Nat.le_trans (by decide) long)).mpr magic
    exact ⟨_, read_ok_iff.mpr ⟨long, marked, version, rfl⟩⟩
  case written =>
    obtain ⟨long, -, -, rfl⟩ := read_ok_iff.mp accepted
    exact toBytes_ofBytes o bytes long
  case back => exact read_toBytes o h rest magic version
  case other => exact read_other h rest magic version other

/-- A header with a different number in each of its words. -/
def counted : Header :=
  ⟨magicNumber, formatVersion, compressedFlag, 1, 2, 3, 4, 5, 6, 7, 8⟩

theorem read_as_written_counted :
  counted.toBytes .big
      = [0xcf, 0xf1, 2, 1, 0, 0, 0, 1, 0, 0, 0, 2, 0, 0, 0, 3, 0, 0, 0, 4, 0, 0, 0, 5,
        0, 0, 0, 6, 0, 0, 0, 7, 0, 0, 0, 8]
    ∧ read .big (counted.toBytes .big ++ [0xff]).toByteArray = .ok counted
    ∧ counted.toBytes .big
      = (byteList (counted.toBytes .big ++ [0xff]).toByteArray).take 36
    ∧ read .little (counted.toBytes .big ++ [0xff]).toByteArray
      = .error (.unencodable (.badHeader 0xf1cf 2))
  := by
  obtain ⟨taken, written⟩ := read_as_written .big
  obtain ⟨back, other⟩ := written counted [0xff] rfl rfl
  exact ⟨by decide, back, (taken _).2 counted back, other .little (by decide)⟩

end CompactTypes.Ctf.Header

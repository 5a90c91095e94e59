/-!
# Excerpts

The bytes of a file, or of a section of one, are a `ByteArray`.  `excerpt? bytes place size`
are `size` of them from a place on, `byteAt bytes place` is a single one, and
`textAt? bytes place` are those in front of the next null byte.  `chunks bytes size n` are
the first `n` entries of a table whose entries have `size` bytes each.
-/

namespace CompactTypes

/-- The bytes, one after the other. -/
def byteList (bytes : ByteArray) : List UInt8 :=
  bytes.data.toList

/-- Bytes are equal if they are so one after the other. -/
instance (priority := 2000) instDecidableEqBytes : DecidableEq ByteArray := fun b b' =>
  decidable_of_iff (b.data = b'.data) ⟨ByteArray.ext, congrArg ByteArray.data⟩

/-- The byte at a place, or zero after the last one. -/
def byteAt (bytes : ByteArray) (place : Nat) : UInt8 :=
  if h : place < bytes.size then bytes[place] else 0

/-- The bytes from a place on, if there are as many. -/
def excerpt? (bytes : ByteArray) (place size : Nat) : Option ByteArray :=
  if place + size ≤ bytes.size then some (bytes.extract place (place + size)) else none

/-- The place of the first null byte from a place on. -/
def nullFrom? (bytes : ByteArray) (place : Nat) : Option Nat :=
  if h : place < bytes.size then
    if bytes[place] = 0 then some place else nullFrom? bytes (place + 1)
  else
    none
termination_by bytes.size - place

/-- The bytes from a place up to the next null byte. -/
def textAt? (bytes : ByteArray) (place : Nat) : Option ByteArray :=
  (nullFrom? bytes place).map (bytes.extract place)

/-- The first `n` entries of a table whose entries have `size` bytes each. -/
def chunks (bytes : ByteArray) (size n : Nat) : List ByteArray :=
  (List.range n).map fun k => bytes.extract (k * size) (k * size + size)

/-! ### Laws -/

@[simp]
theorem length_byteList (bytes : ByteArray) :
  (byteList bytes).length = bytes.size
  := Array.length_toList

theorem byteList_extract (bytes : ByteArray) (place stop : Nat) :
  byteList (bytes.extract place stop) = ((byteList bytes).take stop).drop place
  := by
  simp [byteList, ByteArray.data_extract, Array.toList_extract, List.drop_take]

theorem nullFrom?_bounds {bytes : ByteArray} {place stop : Nat}
    (h : nullFrom? bytes place = some stop) :
  place ≤ stop ∧ stop < bytes.size
  := by
  fun_induction nullFrom? bytes place with
  | case1 place inside null =>
    cases h
    exact ⟨Nat.le_refl _, inside⟩
  | case2 place inside other ih =>
    obtain ⟨least, greatest⟩ := ih h
    exact ⟨Nat.le_of_succ_le least, greatest⟩
  | case3 => cases h

end CompactTypes

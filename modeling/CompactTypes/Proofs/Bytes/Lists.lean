import CompactTypes.Bytes.Excerpt
import CompactTypes.Text.Utf8

/-!
# Bytes as lists

`byteList` and `List.toByteArray` are inverse to each other, and parts of bytes are parts of
their list.  A text in front of a null byte is found by `textAt?`, provided that there is no
null byte in it.
-/

namespace CompactTypes

@[simp]
theorem byteList_toByteArray (bytes : List UInt8) :
  byteList bytes.toByteArray = bytes
  := by
  simp [byteList]

@[simp]
theorem toByteArray_byteList (bytes : ByteArray) :
  (byteList bytes).toByteArray = bytes
  := by
  apply ByteArray.ext
  simp [byteList]

theorem byteList_append (bytes bytes' : ByteArray) :
  byteList (bytes ++ bytes') = byteList bytes ++ byteList bytes'
  := by
  simp [byteList]

theorem byteList_push (bytes : ByteArray) (b : UInt8) :
  byteList (bytes.push b) = byteList bytes ++ [b]
  := by
  simp [byteList]

/-- The bytes between two places of a list. -/
theorem extract_toByteArray (bytes : List UInt8) (place stop : Nat) :
  bytes.toByteArray.extract place stop = ((bytes.take stop).drop place).toByteArray
  := by
  rw [← toByteArray_byteList (bytes.toByteArray.extract place stop), byteList_extract,
    byteList_toByteArray]

theorem take_append_extract (bytes : ByteArray) (place n : Nat) :
  (byteList bytes).take place ++ byteList (bytes.extract place (place + n))
    = (byteList bytes).take (place + n)
  := by
  rw [byteList_extract, List.drop_take, Nat.add_sub_cancel_left, List.take_add]

theorem take_append_byteAt (bytes : ByteArray) (place : Nat) (inside : place < bytes.size) :
  (byteList bytes).take place ++ [byteAt bytes place] = (byteList bytes).take (place + 1)
  := by
  rw [byteAt, dif_pos inside]
  exact List.take_append_getElem (by rwa [length_byteList])

theorem extract_append_toByteArray (front text back : List UInt8) :
  (front ++ (text ++ back)).toByteArray.extract front.length (front.length + text.length)
    = text.toByteArray
  := by
  rw [extract_toByteArray, List.take_length_add_append, List.take_left, List.drop_left]

theorem getElem_append_toByteArray (front : List UInt8) (b : UInt8) (back : List UInt8)
    (h : front.length < (front ++ b :: back).toByteArray.size) :
  (front ++ b :: back).toByteArray[front.length] = b
  := by
  rw [List.getElem_toByteArray]
  simp

/-! ### Texts in front of a null byte -/

theorem nullFrom?_eq_some (front text back : List UInt8) (h : 0 ∉ text) :
  nullFrom? (front ++ (text ++ 0 :: back)).toByteArray front.length
    = some (front.length + text.length)
  := by
  induction text generalizing front with
  | nil =>
    have inside : front.length < (front ++ 0 :: back).toByteArray.size := by simp
    rw [List.nil_append, nullFrom?, dif_pos inside,
      if_pos (getElem_append_toByteArray front 0 back inside)]
    rfl
  | cons b text ih =>
    have inside : front.length < (front ++ (b :: text ++ 0 :: back)).toByteArray.size := by
      simp
    have here : (front ++ (b :: text ++ 0 :: back)).toByteArray[front.length] = b :=
      getElem_append_toByteArray front b (text ++ 0 :: back) inside
    have nonzero : b ≠ 0 := fun zero => h (zero ▸ List.mem_cons_self)
    have later := ih (front ++ [b]) fun zero => h (List.mem_cons_of_mem b zero)
    rw [nullFrom?, dif_pos inside, here, if_neg nonzero]
    simp only [List.append_assoc, List.singleton_append, List.length_append,
      List.length_singleton] at later
    rw [List.cons_append, later, List.length_cons]
    congr 1
    omega

/-- A text without null bytes, which a null byte follows, is what stands at its place. -/
theorem textAt?_eq_some (front text back : List UInt8) (h : 0 ∉ text) :
  textAt? (front ++ (text ++ 0 :: back)).toByteArray front.length = some text.toByteArray
  := by
  rw [textAt?, nullFrom?_eq_some front text back h, Option.map_some,
    extract_append_toByteArray]

end CompactTypes

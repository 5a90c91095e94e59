import CompactTypes.Ctf.Encode
import CompactTypes.Proofs.Ctf.Header
import CompactTypes.Proofs.Deflate.Stored

/-!
# Files as sections

`Sections.ofBody?` cuts a body into its sections at the offsets that a header gives.  The
header and the body of a file made from sections are read back, whether or not the body is
compressed, and cutting that body gives the sections, `Sections.ofBody?_body`.
-/

namespace CompactTypes.Ctf.Sections

/-- The header of a file made from sections is the first thing in it. -/
theorem read_toBytes (s : Sections) (o : ByteOrder) (compressed : Bool) :
  Header.read o (s.toBytes o compressed) = .ok (s.header compressed)
  := Header.read_toBytes o (s.header compressed) _ rfl rfl

theorem isCompressed_header (s : Sections) (compressed : Bool) :
  (s.header compressed).isCompressed = compressed
  := by
  cases compressed with
  | false => simp [Header.isCompressed, header, compressedFlag]
  | true => simp [Header.isCompressed, header, compressedFlag]

/-- A body is read back from anything that inflates to it. -/
theorem body_of_decompress (s : Sections) (o : ByteOrder) {packed : List UInt8} {body : ByteArray}
    (inflated : Deflate.decompress packed.toByteArray = .ok body) :
  (s.header true).body ((s.header true).toBytes o ++ packed).toByteArray = .ok body
  := by
  unfold Header.body
  rw [isCompressed_header, if_pos rfl, Header.stored_toBytes, inflated]

/-- The body of a file made from sections is theirs, even if it is compressed. -/
theorem body_toBytes (s : Sections) (o : ByteOrder) (compressed : Bool) :
  (s.header compressed).body (s.toBytes o compressed) = .ok s.body.toByteArray
  := by
  cases compressed with
  | false =>
    unfold Header.body
    rw [isCompressed_header]
    simp only [toBytes, Bool.false_eq_true, if_false]
    rw [Header.stored_toBytes]
  | true =>
    rw [toBytes, if_pos rfl]
    exact s.body_of_decompress o (Deflate.decompress_compress s.body)

/-! ### Cutting a body -/

/-- The bytes from one place up to another one. -/
def between (bytes : List UInt8) (start stop : Nat) : List UInt8 :=
  (bytes.take stop).drop start

/-- The sections of a body, one after the other without gaps, as the header says. -/
def ofBody? (h : Header) (body : List UInt8) : Option Sections :=
  let labels := h.labelOffset.toNat
  let objects := h.objectOffset.toNat
  let functions := h.functionOffset.toNat
  let types := h.typeOffset.toNat
  let strings := h.stringOffset.toNat
  if labels = 0 ∧ labels ≤ objects ∧ objects ≤ functions ∧ functions ≤ types ∧ types ≤ strings
      ∧ strings + h.stringSize.toNat = body.length then
    some {
      labels := between body labels objects
      objects := between body objects functions
      functions := between body functions types
      types := between body types strings
      strings := between body strings body.length }
  else
    none

theorem between_append (front part back : List UInt8) (start stop : Nat)
    (hstart : start = front.length) (hstop : stop = front.length + part.length) :
  between (front ++ (part ++ back)) start stop = part
  := by
  rw [between, hstart, hstop, List.take_length_add_append, List.take_left, List.drop_left]

/-- The sections of a file whose offsets fit into their words can be told apart. -/
theorem ofBody?_body (s : Sections) (compressed : Bool) (short : s.body.length < wordValues 4) :
  ofBody? (s.header compressed) s.body = some s
  := by
  have size : s.body.length = s.labels.length + s.objects.length + s.functions.length
      + s.types.length + s.strings.length := by
    simp only [body, List.length_append]
  rw [wordValues_four] at short
  have fits (n : Nat) (h : n < 0x100000000) : (UInt32.ofNat n).toNat = n :=
    UInt32.toNat_ofNat_of_lt h
  let h := s.header compressed
  have labels : h.labelOffset.toNat = 0 := rfl
  have objects : h.objectOffset.toNat = s.labels.length := fits _ (by omega)
  have functions : h.functionOffset.toNat = s.labels.length + s.objects.length :=
    fits _ (by omega)
  have types : h.typeOffset.toNat = s.labels.length + s.objects.length + s.functions.length :=
    fits _ (by omega)
  have strings : h.stringOffset.toNat
      = s.labels.length + s.objects.length + s.functions.length + s.types.length :=
    fits _ (by omega)
  have stringSize : h.stringSize.toNat = s.strings.length := fits _ (by omega)
  have consecutive : h.labelOffset.toNat = 0 ∧ h.labelOffset.toNat ≤ h.objectOffset.toNat
      ∧ h.objectOffset.toNat ≤ h.functionOffset.toNat
      ∧ h.functionOffset.toNat ≤ h.typeOffset.toNat
      ∧ h.typeOffset.toNat ≤ h.stringOffset.toNat
      ∧ h.stringOffset.toNat + h.stringSize.toNat = s.body.length := by
    omega
  have first : between s.body h.labelOffset.toNat h.objectOffset.toNat = s.labels := by
    rw [labels, objects]
    simpa [body] using between_append [] s.labels
      (s.objects ++ s.functions ++ s.types ++ s.strings) 0 s.labels.length rfl (by simp)
  have second : between s.body h.objectOffset.toNat h.functionOffset.toNat = s.objects := by
    rw [objects, functions]
    simpa [body] using between_append s.labels s.objects
      (s.functions ++ s.types ++ s.strings) _ _ rfl rfl
  have third : between s.body h.functionOffset.toNat h.typeOffset.toNat = s.functions := by
    rw [functions, types]
    simpa [body] using between_append (s.labels ++ s.objects) s.functions
      (s.types ++ s.strings) _ _ (by simp) (by simp)
  have fourth : between s.body h.typeOffset.toNat h.stringOffset.toNat = s.types := by
    rw [types, strings]
    simpa [body] using between_append (s.labels ++ s.objects ++ s.functions) s.types s.strings
      _ _ (by simp; omega) (by simp; omega)
  have fifth : between s.body h.stringOffset.toNat s.body.length = s.strings := by
    rw [strings, size]
    simpa [body] using
      between_append (s.labels ++ s.objects ++ s.functions ++ s.types) s.strings []
        _ _ (by simp; omega) (by simp; omega)
  simp only [ofBody?]
  rw [if_pos consecutive, first, second, third, fourth, fifth]

end CompactTypes.Ctf.Sections

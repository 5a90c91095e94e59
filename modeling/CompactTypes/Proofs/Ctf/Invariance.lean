import CompactTypes.Proofs.Ctf.RoundTrip

/-!
# What the byte order leaves alone

The entries of a graph have the same lengths in both byte orders, and whatever the offsets of the
texts are, so the two orders have the same errors and the same offsets of sections.  That is
`Graph.together_sections`.  All the files that encode a graph under a label share their header then,
apart from the flag of compression, and the files in one byte order share their body as well:
`Graph.encode_invariant`.
-/

namespace CompactTypes

namespace Ctf

/-! ### Lengths -/

/-- Two lists of bytes have the same length. -/
def SameLength (bytes bytes' : List UInt8) : Prop :=
  bytes.length = bytes'.length

theorem SameLength.refl (bytes : List UInt8) :
  SameLength bytes bytes
  := rfl

theorem SameLength.append {bytes bytes' more more' : List UInt8} (first : SameLength bytes bytes')
    (second : SameLength more more') :
  SameLength (bytes ++ more) (bytes' ++ more')
  := by
  rw [SameLength, List.length_append, List.length_append, first, second]

theorem SameLength.flatten {parts parts' : List (List UInt8)}
    (h : List.Forall₂ SameLength parts parts') :
  SameLength parts.flatten parts'.flatten
  := by
  induction h with
  | nil => rfl
  | cons first _ ih => exact first.append ih

variable {o o' : ByteOrder}

theorem sameLength_u16 (w w' : UInt16) :
  SameLength (o.u16 w) (o'.u16 w')
  := (o.length_u16 w).trans (o'.length_u16 w').symm

theorem sameLength_u32 (w w' : UInt32) :
  SameLength (o.u32 w) (o'.u32 w')
  := (o.length_u32 w).trans (o'.length_u32 w').symm

theorem sameLength_halves (v : UInt64) :
  SameLength (halves o v) (halves o' v)
  := (sameLength_u32 _ _).append (sameLength_u32 _ _)

theorem sameLength_sizeBytes (size : UInt64) :
  SameLength (sizeBytes o size) (sizeBytes o' size)
  := by
  rw [sizeBytes, sizeBytes]
  split
  · exact (sameLength_u16 _ _).append (sameLength_halves size)
  · exact sameLength_u16 _ _

end Ctf

namespace Graph

open Ctf

variable {g : Graph} {o o' : ByteOrder} {strings strings' : StringTable} {id : TypeId}

/-! ### Entries -/

theorem together_argumentBytes (r : TypeRecord) :
  Together SameLength (g.argumentBytes o r) (g.argumentBytes o' r)
  := by
  apply together_self.bind
  rintro words _ rfl
  apply Together.ok
  rw [List.flatMap_def, List.flatMap_def]
  apply SameLength.flatten
  rw [List.forall₂_map_left_iff, List.forall₂_map_right_iff, List.forall₂_same]
  exact fun word _ => sameLength_u16 word word

theorem together_objectEntry (id : TypeId) :
  Together SameLength (g.objectEntry o id) (g.objectEntry o' id)
  := by
  apply together_self.bind
  rintro word _ rfl
  exact .ok (sameLength_u16 word word)

/-- What is made of the types that a function returns and takes. -/
theorem together_signature {f f' : UInt16 → UInt16 → List UInt8 → List UInt8}
    (h : ∀ count returned arguments arguments', SameLength arguments arguments' →
      SameLength (f count returned arguments) (f' count returned arguments')) :
  Together SameLength
    (do
      let count ← countWord (g.get id) (g.get id).members.size
      let returned ← g.referencedWord id
      let arguments ← g.argumentBytes o (g.get id)
      return f count returned arguments)
    (do
      let count ← countWord (g.get id) (g.get id).members.size
      let returned ← g.referencedWord id
      let arguments ← g.argumentBytes o' (g.get id)
      return f' count returned arguments)
  := by
  apply together_self.bind
  rintro count _ rfl
  apply together_self.bind
  rintro returned _ rfl
  apply (together_argumentBytes (g.get id)).bind
  intro arguments arguments' same
  exact .ok (h count returned arguments arguments' same)

theorem together_functionEntry (id : TypeId) :
  Together SameLength (g.functionEntry o id) (g.functionEntry o' id)
  := by
  rw [functionEntry, functionEntry]
  split
  · exact .ok (sameLength_u16 0 0)
  · exact together_signature fun _ _ _ _ same =>
      ((sameLength_u16 _ _).append (sameLength_u16 _ _)).append same

theorem together_memberEntry (r : TypeRecord) (m : Member) :
  Together SameLength (g.memberEntry o strings r m) (g.memberEntry o' strings' r m)
  := by
  apply together_self.bind
  rintro word _ rfl
  have front : SameLength (o.u32 (strings.offset m.name) ++ o.u16 word)
      (o'.u32 (strings'.offset m.name) ++ o'.u16 word) :=
    (sameLength_u32 _ _).append (sameLength_u16 _ _)
  split <;> apply together_self.bind <;> rintro bits _ rfl
  · exact .ok ((front.append (sameLength_u16 _ _)).append (sameLength_halves _))
  · exact .ok (front.append (sameLength_u16 _ _))

theorem sameLength_enumeratorEntry (e : Enumerator) :
  SameLength (enumeratorEntry o strings e) (enumeratorEntry o' strings' e)
  := (sameLength_u32 _ _).append (sameLength_u32 _ _)

/-- What follows the name of a type has the same length in both byte orders. -/
theorem together_typeData (id : TypeId) :
  Together SameLength (g.typeData o strings id) (g.typeData o' strings' id)
  := by
  cases kind : (g.get id).kind with
  | unknown =>
    simp only [typeData, kind]
    exact .error _
  | integer | float =>
    simp only [typeData, kind]
    apply together_self.bind
    rintro bits _ rfl
    exact .ok (((sameLength_u16 _ _).append (sameLength_sizeBytes _)).append (sameLength_u32 _ _))
  | pointer | typedef | volatile | const | restrict =>
    simp only [typeData, kind]
    apply together_self.bind
    rintro target _ rfl
    exact .ok ((sameLength_u16 _ _).append (sameLength_u16 _ _))
  | array =>
    simp only [typeData, kind]
    apply together_self.bind
    rintro content _ rfl
    apply together_self.bind
    rintro index _ rfl
    exact .ok (((((sameLength_u16 _ _).append (sameLength_u16 _ _)).append
      (sameLength_u16 _ _)).append (sameLength_u16 _ _)).append (sameLength_u32 _ _))
  | function =>
    simp only [typeData, kind]
    have padding : SameLength (if (g.get id).members.size % 2 = 1 then o.u16 0 else [])
        (if (g.get id).members.size % 2 = 1 then o'.u16 0 else []) := by
      split
      · exact sameLength_u16 0 0
      · exact .refl []
    exact together_signature fun _ _ _ _ same =>
      (((sameLength_u16 _ _).append (sameLength_u16 _ _)).append same).append padding
  | struct | union =>
    simp only [typeData, kind]
    apply together_self.bind
    rintro count _ rfl
    apply (Together.mapM fun m _ => together_memberEntry (g.get id) m).bind
    intro members members' same
    exact .ok (((sameLength_u16 _ _).append (sameLength_sizeBytes _)).append (.flatten same))
  | enum =>
    simp only [typeData, kind]
    apply together_self.bind
    rintro count _ rfl
    have enumerators : List.Forall₂ SameLength
        ((g.get id).enumerators.toList.map (enumeratorEntry o strings))
        ((g.get id).enumerators.toList.map (enumeratorEntry o' strings')) := by
      rw [List.forall₂_map_left_iff, List.forall₂_map_right_iff, List.forall₂_same]
      exact fun e _ => sameLength_enumeratorEntry e
    exact .ok (((sameLength_u16 _ _).append (sameLength_sizeBytes _)).append (.flatten enumerators))

theorem together_typeEntry (id : TypeId) :
  Together SameLength (g.typeEntry o strings id) (g.typeEntry o' strings' id)
  := by
  apply together_self.bind
  rintro _ _ -
  apply (together_typeData id).bind
  intro data data' same
  exact .ok ((sameLength_u32 _ _).append same)

end Graph

/-! ### Sections -/

namespace Ctf

/-- Sections of two bodies have the same sizes, apart from those that hold texts. -/
structure Sections.SameSizes (s s' : Sections) : Prop where
  labels : SameLength s.labels s'.labels
  objects : SameLength s.objects s'.objects
  functions : SameLength s.functions s'.functions
  types : SameLength s.types s'.types

/-- A header in front of a body that is compressed or not. -/
def Header.flagged (h : Header) (compressed : Bool) : Header :=
  { h with flags := if compressed then 1 else 0 }

/-- The sections that a header tells stand one after the other, from the start of the body on. -/
structure Header.Consecutive (h : Header) : Prop where
  labels : h.labelOffset = 0
  objects : h.labelOffset ≤ h.objectOffset
  functions : h.objectOffset ≤ h.functionOffset
  types : h.functionOffset ≤ h.typeOffset
  strings : h.typeOffset ≤ h.stringOffset

/-- The header does not depend on more than the sizes of the sections. -/
theorem Sections.header_eq {s s' : Sections} (sizes : s.SameSizes s')
    (strings : s.strings = s'.strings) (compressed : Bool) :
  s'.header compressed = (s.header false).flagged compressed
  := by
  have labels : s.labels.length = s'.labels.length := sizes.labels
  have objects : s.objects.length = s'.objects.length := sizes.objects
  have functions : s.functions.length = s'.functions.length := sizes.functions
  have types : s.types.length = s'.types.length := sizes.types
  simp only [header, Header.flagged, labels, objects, functions, types, strings]
  rfl

/-- The offsets in a header are in order and lead up to the end of the body. -/
theorem Sections.consecutive_header {s : Sections} (short : s.body.length < wordValues 4)
    (compressed : Bool) :
  (s.header compressed).Consecutive
    ∧ (s.header compressed).stringOffset.toNat + (s.header compressed).stringSize.toNat
      = s.body.length
  := by
  have cut := s.ofBody?_body compressed short
  rw [ofBody?] at cut
  simp only [Option.ite_none_right_eq_some] at cut
  obtain ⟨labels, objects, functions, types, strings, size⟩ := cut.1
  exact ⟨⟨rfl, UInt32.le_iff_toNat_le.mpr objects, UInt32.le_iff_toNat_le.mpr functions,
    UInt32.le_iff_toNat_le.mpr types, UInt32.le_iff_toNat_le.mpr strings⟩, size⟩

/-- The bytes of a file in a byte order: its header and body are read in this order, and in the
other one it has no header. -/
structure IsFile (h : Header) (body : ByteArray) (o : ByteOrder) (bytes : ByteArray) : Prop where
  header_eq : Header.read o bytes = .ok h
  body_eq : h.body bytes = .ok body
  other : ∀ o', o' ≠ o → ∃ e, Header.read o' bytes = .error e

/-- Sections that have been written are a file, however they have been compressed. -/
theorem Sections.isFile (s : Sections) (o : ByteOrder) {compressed : Bool} {stored : List UInt8}
    {body : ByteArray}
    (read : (s.header compressed).body ((s.header compressed).toBytes o ++ stored).toByteArray
      = .ok body) :
  IsFile (s.header compressed) body o ((s.header compressed).toBytes o ++ stored).toByteArray
  := ⟨Header.read_toBytes o _ stored rfl rfl, read, fun _ other =>
    ⟨_, Header.read_other _ stored rfl rfl other⟩⟩

end Ctf

namespace Graph

open Ctf

/-- The byte order and the label have no influence on the errors, and on the sizes of all sections
except for that of the texts, which depends on the label only. -/
theorem together_sections (g : Graph) (label label' : String) (o o' : ByteOrder) :
  Together (fun s s' => s.SameSizes s' ∧ (label = label' → s.strings = s'.strings))
    (g.sections label o) (g.sections label' o')
  := by
  apply together_self.bind
  rintro _ _ -
  apply (Together.mapM fun id _ => together_objectEntry id).bind
  intro objects objects' sameObjects
  apply (Together.mapM fun id _ => together_functionEntry id).bind
  intro functions functions' sameFunctions
  apply (Together.mapM fun id _ => together_typeEntry id).bind
  intro types types' sameTypes
  refine .ok ⟨⟨(sameLength_u32 _ _).append (sameLength_u32 _ _), .flatten sameObjects,
    .flatten sameFunctions, .flatten sameTypes⟩, ?_⟩
  rintro rfl
  rfl

/-- If a graph has an encoding under a label, and if its body is shorter than the offsets in a
header can tell, then it has one in either byte order, compressed or not.  Apart from the flag of
compression, all of these have the same header, whose offsets are in order and lead up to the end of
the body.  They are files in their byte order and in no other, and the body does not depend on
whether it is compressed, nor on how, as long as it can be inflated. -/
theorem encode_invariant (g : Graph) (label : String) (o₀ : ByteOrder) (compressed₀ : Bool)
    (bytes₀ : ByteArray) (encoded : g.encode label o₀ compressed₀ = .ok bytes₀)
    (short : ∀ s, g.sections label o₀ = .ok s → s.body.length < wordValues 4) :
  ∃ h : Header, h.version = 2 ∧ h.Consecutive
    ∧ ∀ o, ∃ body : ByteArray, h.stringOffset.toNat + h.stringSize.toNat = body.size
      ∧ (∀ compressed, ∃ bytes, g.encode label o compressed = .ok bytes
        ∧ IsFile (h.flagged compressed) body o bytes)
      ∧ ∀ packed : List UInt8, Deflate.decompress packed.toByteArray = .ok body →
        IsFile (h.flagged true) body o ((h.flagged true).toBytes o ++ packed).toByteArray
  := by
  obtain ⟨s₀, sections₀, -⟩ := ok_of_bind encoded
  obtain ⟨consecutive, size⟩ := Sections.consecutive_header (short s₀ sections₀) false
  refine ⟨s₀.header false, rfl, consecutive, fun o => ?_⟩
  obtain ⟨s, sections, sizes, strings⟩ := (together_sections g label label o₀ o).of_ok sections₀
  have header (compressed : Bool) := Sections.header_eq sizes (strings rfl) compressed
  have same : s.body.length = s₀.body.length := by
    simp only [Sections.body, List.length_append, ← strings rfl]
    rw [← sizes.labels, ← sizes.objects, ← sizes.functions, ← sizes.types]
  refine ⟨s.body.toByteArray, ?_, fun compressed => ⟨s.toBytes o compressed, ?_, ?_⟩,
    fun packed inflated => ?_⟩
  · rw [size, List.size_toByteArray, same]
  · rw [encode, sections]
    rfl
  · rw [← header]
    exact s.isFile o (s.body_toBytes o compressed)
  · rw [← header]
    exact s.isFile o (s.body_of_decompress o inflated)

/-- The sample graph, compressed with the least significant bytes first, is a file with the other
order as well. -/
theorem encode_invariant_sample :
  ∃ bytes₀, sample.encode "l" .little true = .ok bytes₀
    ∧ ∃ (h : Header) (body bytes : ByteArray), h.Consecutive
      ∧ sample.encode "l" .big false = .ok bytes ∧ IsFile (h.flagged false) body .big bytes
  := by
  obtain ⟨bytes₀, encoded⟩ : ∃ bytes₀, sample.encode "l" .little true = .ok bytes₀ := ⟨_, rfl⟩
  have short (s : Sections) (h : sample.sections "l" .little = .ok s) :
      s.body.length < wordValues 4 :=
    short_of_sections h (by decide +kernel)
  obtain ⟨h, -, consecutive, files⟩ := encode_invariant sample "l" .little true bytes₀ encoded short
  obtain ⟨body, -, written, -⟩ := files .big
  obtain ⟨bytes, encoded', file⟩ := written false
  exact ⟨bytes₀, encoded, h, body, bytes, consecutive, encoded', file⟩

end Graph

end CompactTypes

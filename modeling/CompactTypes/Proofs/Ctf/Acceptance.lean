import CompactTypes.Proofs.Ctf.Invariance

/-!
# Which graphs have an encoding

`Graph.Encodable` says, in terms of the records of a graph alone, that all numbers in its encoding
fit.  A graph has an encoding if and only if it is encodable; this, and the error if it is not, do
not depend on the label, on the byte order, or on whether the body is compressed,
`Graph.encode_ok_iff_encodable`.  For every step of the encoder there is a lemma that says when it
succeeds.
-/

namespace CompactTypes

namespace Graph

/-- The record at a position refers to a type whose number fits into 16 bits. -/
def RefersWithin (g : Graph) (id : TypeId) : Prop :=
  ∃ target ∈ (g.get id).reference, g.numberOf target ≤ 0xffff

/-- A function has few enough arguments, and the numbers of their types and of the type that it
returns fit into 16 bits. -/
structure SignatureFits (g : Graph) (id : TypeId) : Prop where
  returned : g.RefersWithin id
  few : (g.get id).members.size ≤ 0x3ff
  arguments : ∀ m ∈ (g.get id).members, g.numberOf m.reference ≤ 0xffff

/-- The offset of a member, in bits, fits into 16 bits, or in a large struct or union into 64. -/
def OffsetFits (r : TypeRecord) (m : Member) : Prop :=
  if r.size.toNat < 8192 then m.offset.toNat ≤ 8191 else m.offset.toNat < 0x2000000000000000

/-- A struct or union has few enough members, and their offsets and the numbers of their types
fit. -/
structure MembersFit (g : Graph) (id : TypeId) : Prop where
  few : (g.get id).members.size ≤ 0x3ff
  types : ∀ m ∈ (g.get id).members, g.numberOf m.reference ≤ 0xffff
  offsets : ∀ m ∈ (g.get id).members, OffsetFits (g.get id) m

/-- What is written about a type of the given kind fits.  A type of no kind cannot be written. -/
def FitsAs (g : Graph) (id : TypeId) : TypeKind → Prop
  | .unknown => False
  | .integer | .float => (g.get id).size.toNat ≤ 8191
  | .pointer | .typedef | .volatile | .const | .restrict => g.RefersWithin id
  | .array => g.RefersWithin id ∧ ∀ index ∈ g.indexType, g.numberOf index ≤ 0xffff
  | .function => g.SignatureFits id
  | .struct | .union => g.MembersFit id
  | .enum => (g.get id).enumerators.size ≤ 0x3ff

/-- What is written about the types, objects and functions of a graph fits. -/
structure Encodable (g : Graph) : Prop where
  numbers : ∀ id ∈ g.emittedTypes, g.numberOf id ≤ 0xffff
  types : ∀ id ∈ g.emittedTypes, g.FitsAs id (g.get id).kind
  objects : ∀ id ∈ g.objects, g.RefersWithin id
  functions : ∀ id ∈ g.functions, (g.get id).kind ≠ .unknown → g.SignatureFits id

variable {g : Graph} {id : TypeId}

theorem signatureFits_iff :
  g.SignatureFits id ↔ (g.get id).members.size ≤ 0x3ff ∧ g.RefersWithin id
    ∧ ∀ m ∈ (g.get id).members, g.numberOf m.reference ≤ 0xffff
  := by
  constructor
  · rintro ⟨returned, few, arguments⟩
    exact ⟨few, returned, arguments⟩
  · rintro ⟨few, returned, arguments⟩
    exact ⟨returned, few, arguments⟩

theorem membersFit_iff :
  g.MembersFit id ↔ (g.get id).members.size ≤ 0x3ff
    ∧ ∀ m ∈ (g.get id).members, g.numberOf m.reference ≤ 0xffff ∧ OffsetFits (g.get id) m
  := by
  constructor
  · rintro ⟨few, types, offsets⟩
    exact ⟨few, fun m mem => ⟨types m mem, offsets m mem⟩⟩
  · rintro ⟨few, both⟩
    exact ⟨few, fun m mem => (both m mem).1, fun m mem => (both m mem).2⟩

theorem encodable_iff :
  g.Encodable ↔ (∀ id ∈ g.emittedTypes, g.numberOf id ≤ 0xffff ∧ g.FitsAs id (g.get id).kind)
    ∧ (∀ id ∈ g.objects, g.RefersWithin id)
    ∧ ∀ id ∈ g.functions, (g.get id).kind ≠ .unknown → g.SignatureFits id
  := by
  constructor
  · rintro ⟨numbers, types, objects, functions⟩
    exact ⟨fun id mem => ⟨numbers id mem, types id mem⟩, objects, functions⟩
  · rintro ⟨both, objects, functions⟩
    exact ⟨fun id mem => (both id mem).1, fun id mem => (both id mem).2, objects, functions⟩

/-! ### Deciding whether a graph is encodable -/

instance (g : Graph) (id : TypeId) : Decidable (g.RefersWithin id) :=
  inferInstanceAs (Decidable (∃ target ∈ (g.get id).reference, g.numberOf target ≤ 0xffff))

instance (g : Graph) (id : TypeId) : Decidable (g.SignatureFits id) :=
  decidable_of_iff _ signatureFits_iff.symm

instance (r : TypeRecord) (m : Member) : Decidable (OffsetFits r m) :=
  inferInstanceAs (Decidable (if r.size.toNat < 8192 then m.offset.toNat ≤ 8191
    else m.offset.toNat < 0x2000000000000000))

instance (g : Graph) (id : TypeId) : Decidable (g.MembersFit id) :=
  decidable_of_iff _ membersFit_iff.symm

instance (g : Graph) (id : TypeId) : (kind : TypeKind) → Decidable (g.FitsAs id kind)
  | .unknown => inferInstanceAs (Decidable False)
  | .integer | .float => inferInstanceAs (Decidable ((g.get id).size.toNat ≤ 8191))
  | .pointer | .typedef | .volatile | .const | .restrict =>
    inferInstanceAs (Decidable (g.RefersWithin id))
  | .array => inferInstanceAs (Decidable (g.RefersWithin id
    ∧ ∀ index ∈ g.indexType, g.numberOf index ≤ 0xffff))
  | .function => inferInstanceAs (Decidable (g.SignatureFits id))
  | .struct | .union => inferInstanceAs (Decidable (g.MembersFit id))
  | .enum => inferInstanceAs (Decidable ((g.get id).enumerators.size ≤ 0x3ff))

instance (g : Graph) : Decidable g.Encodable :=
  decidable_of_iff _ encodable_iff.symm

end Graph

namespace Ctf

/-! ### Words -/

theorem succeeds_typeWord (index : UInt32) :
  Succeeds (typeWord index) ↔ index.toNat ≤ 0xffff
  := (succeeds_check _ _ _).trans Nat.lt_succ_iff

theorem succeeds_countWord (r : TypeRecord) (count : Nat) :
  Succeeds (countWord r count) ↔ count ≤ 0x3ff
  := succeeds_check _ _ _

theorem succeeds_bitsBelow (bound : Nat) (r : TypeRecord) (quantity : Quantity) (value : UInt64) :
  Succeeds (bitsBelow bound r quantity value) ↔ 8 * value.toNat < bound
  := succeeds_check _ _ _

end Ctf

namespace Graph

open Ctf

variable {g : Graph} {o : ByteOrder} {strings : StringTable} {id : TypeId}

theorem succeeds_referencedWord (g : Graph) (id : TypeId) :
  Succeeds (g.referencedWord id) ↔ g.RefersWithin id
  := by
  rw [referencedWord, referenced, RefersWithin]
  cases (g.get id).reference with
  | none => exact iff_of_false (not_succeeds_error _) (by simp)
  | some target =>
    apply (succeeds_typeWord _).trans
    simp only [Option.mem_some, exists_eq_left', numberOf]

/-! ### Entries -/

theorem succeeds_argumentBytes (r : TypeRecord) :
  Succeeds (g.argumentBytes o r) ↔ ∀ m ∈ r.members, g.numberOf m.reference ≤ 0xffff
  := by
  apply (succeeds_bind_ok _).trans
  apply succeeds_mapM.trans
  simp only [Array.mem_toList_iff]
  exact forall₂_congr fun m _ => succeeds_typeWord _

/-- What is made of the types that a function returns and takes. -/
theorem succeeds_signature (f : UInt16 → UInt16 → List UInt8 → List UInt8) :
  Succeeds (do
      let count ← countWord (g.get id) (g.get id).members.size
      let returned ← g.referencedWord id
      let arguments ← g.argumentBytes o (g.get id)
      return f count returned arguments)
    ↔ g.SignatureFits id
  := by
  rw [signatureFits_iff, ← succeeds_countWord (g.get id), ← succeeds_referencedWord,
    ← @succeeds_argumentBytes g o (g.get id)]
  exact succeeds_bind fun _ => succeeds_bind fun _ => succeeds_bind_ok _

theorem succeeds_objectEntry (id : TypeId) :
  Succeeds (g.objectEntry o id) ↔ g.RefersWithin id
  := (succeeds_bind_ok _).trans (succeeds_referencedWord g id)

theorem succeeds_functionEntry (id : TypeId) :
  Succeeds (g.functionEntry o id) ↔ ((g.get id).kind ≠ .unknown → g.SignatureFits id)
  := by
  rw [functionEntry]
  by_cases kind : (g.get id).kind = .unknown
  · rw [if_pos kind]
    exact iff_of_true (succeeds_ok _) fun known => absurd kind known
  · rw [if_neg kind, forall_prop_of_true kind]
    exact succeeds_signature _

theorem succeeds_memberEntry (r : TypeRecord) (m : Member) :
  Succeeds (g.memberEntry o strings r m) ↔ g.numberOf m.reference ≤ 0xffff ∧ OffsetFits r m
  := by
  have wide : wideMemberSize ≤ r.size ↔ ¬r.size.toNat < 8192 :=
    UInt64.le_iff_toNat_le.trans Nat.not_lt.symm
  have word : Succeeds (g.memberWord m) ↔ g.numberOf m.reference ≤ 0xffff := succeeds_typeWord _
  rw [← word]
  apply succeeds_bind
  intro _
  rw [OffsetFits]
  split
  next long =>
    rw [if_neg (wide.mp long)]
    apply (succeeds_bind_ok _).trans
    rw [succeeds_bitsBelow, wordValues_eight]
    omega
  next short =>
    rw [if_pos (Decidable.not_not.mp (mt wide.mpr short))]
    apply (succeeds_bind_ok _).trans
    rw [succeeds_bitsBelow, wordValues_two]
    omega

/-- What is made of the members of a struct or union. -/
theorem succeeds_members (f : UInt16 → List (List UInt8) → List UInt8) :
  Succeeds (do
      let count ← countWord (g.get id) (g.get id).members.size
      let members ← (g.get id).members.toList.mapM (g.memberEntry o strings (g.get id))
      return f count members)
    ↔ g.MembersFit id
  := by
  have each : Succeeds ((g.get id).members.toList.mapM (g.memberEntry o strings (g.get id)))
      ↔ ∀ m ∈ (g.get id).members, g.numberOf m.reference ≤ 0xffff ∧ OffsetFits (g.get id) m := by
    apply succeeds_mapM.trans
    simp only [Array.mem_toList_iff]
    exact forall₂_congr fun m _ => succeeds_memberEntry _ m
  rw [membersFit_iff, ← succeeds_countWord (g.get id), ← each]
  exact succeeds_bind fun _ => succeeds_bind_ok _

/-- What is written about a type of some kind can be written if and only if it fits. -/
theorem succeeds_typeData (id : TypeId) :
  Succeeds (g.typeData o strings id) ↔ g.FitsAs id (g.get id).kind
  := by
  cases kind : (g.get id).kind with
  | unknown =>
    simp only [typeData, kind]
    exact iff_of_false (not_succeeds_error _) not_false
  | integer | float =>
    simp only [typeData, kind]
    apply (succeeds_bind_ok _).trans
    rw [succeeds_bitsBelow, wordValues_two, FitsAs]
    omega
  | pointer | typedef | volatile | const | restrict =>
    simp only [typeData, kind]
    exact (succeeds_bind_ok _).trans (succeeds_referencedWord g id)
  | array =>
    have index : Succeeds (typeWord g.indexTypeNumber)
        ↔ ∀ index ∈ g.indexType, g.numberOf index ≤ 0xffff := by
      rw [succeeds_typeWord, toNat_indexTypeNumber]
      cases g.indexType <;> simp
    simp only [typeData, kind]
    rw [FitsAs, ← succeeds_referencedWord, ← index]
    exact succeeds_bind fun _ => succeeds_bind_ok _
  | function =>
    simp only [typeData, kind]
    exact succeeds_signature _
  | struct | union =>
    simp only [typeData, kind]
    exact succeeds_members _
  | enum =>
    simp only [typeData, kind]
    exact (succeeds_bind_ok _).trans (succeeds_countWord _ _)

theorem succeeds_typeEntry (id : TypeId) :
  Succeeds (g.typeEntry o strings id)
    ↔ g.numberOf id ≤ 0xffff ∧ g.FitsAs id (g.get id).kind
  := by
  have number : Succeeds (typeWord (g.get id).index) ↔ g.numberOf id ≤ 0xffff :=
    succeeds_typeWord _
  rw [← number]
  exact succeeds_bind fun _ => (succeeds_bind_ok _).trans (succeeds_typeData id)

/-! ### Graphs -/

theorem succeeds_sections (g : Graph) (label : String) (o : ByteOrder) :
  Succeeds (g.sections label o) ↔ g.Encodable
  := by
  let strings := StringTable.ofTexts (g.texts label)
  have steps : Succeeds (g.sections label o)
      ↔ Succeeds (typeWord g.lastNumber) ∧ Succeeds (g.objects.toList.mapM (g.objectEntry o))
        ∧ Succeeds (g.functions.toList.mapM (g.functionEntry o))
        ∧ Succeeds (g.emittedTypes.mapM (g.typeEntry o strings)) :=
    succeeds_bind fun _ => succeeds_bind fun _ => succeeds_bind fun _ => succeeds_bind_ok _
  simp only [steps, succeeds_typeWord, lastNumber_le_iff, succeeds_mapM, succeeds_objectEntry,
    succeeds_functionEntry, succeeds_typeEntry, Array.mem_toList_iff, encodable_iff]
  -- That the last number fits says nothing new, as all numbers are checked again.
  constructor
  · rintro ⟨-, objects, functions, types⟩
    exact ⟨types, objects, functions⟩
  · rintro ⟨types, objects, functions⟩
    exact ⟨fun id mem => (types id mem).1, objects, functions, types⟩

/-- A graph has an encoding if and only if everything that is written about it fits.  This, and
which error there is if something does not fit, are independent of the label, of the byte order and
of whether the body is compressed. -/
theorem encode_ok_iff_encodable (g : Graph) :
  (∀ (label : String) (o : ByteOrder) (compressed : Bool),
    (∃ bytes, g.encode label o compressed = .ok bytes) ↔ g.Encodable)
  ∧ ∀ (label label' : String) (o o' : ByteOrder) (compressed compressed' : Bool) (e : Error),
    g.encode label o compressed = .error e ↔ g.encode label' o' compressed' = .error e
  := by
  constructor
  · exact fun label o compressed => (succeeds_bind_ok _).trans (succeeds_sections g label o)
  · intro label label' o o' compressed compressed' e
    apply Together.error_iff (R := fun _ _ => True)
    exact (together_sections g label label' o o').bind fun _ _ _ => .ok trivial

example : sample.Encodable := by
  decide

end Graph

end CompactTypes

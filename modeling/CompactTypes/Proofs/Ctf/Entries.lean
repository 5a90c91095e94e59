import CompactTypes.Proofs.Ctf.Document
import CompactTypes.Proofs.Results

/-!
# What the encoder writes

If a step of the encoder succeeds, then what it writes has a certain form.  There is one lemma for
each step, and for the entry of a type one for each shape that a type can have; whatever reads the
bytes again is compared to these forms.
-/

namespace CompactTypes

namespace Ctf

/-! ### Words -/

theorem toNat_typeWord {index : UInt32} {word : UInt16} (h : typeWord index = .ok word) :
  word.toNat = index.toNat
  := by
  rw [typeWord] at h
  split at h
  next small =>
    cases h
    rw [UInt32.toNat_toUInt16]
    exact Nat.mod_eq_of_lt small
  next => cases h

theorem countWord_ok {r : TypeRecord} {count : Nat} {word : UInt16}
    (h : countWord r count = .ok word) :
  word.toNat = count ∧ count ≤ maxEntries
  := by
  rw [countWord] at h
  split at h
  next few =>
    cases h
    have small : count < UInt16.size := Nat.lt_of_le_of_lt few (by decide)
    exact ⟨UInt16.toNat_ofNat_of_lt' small, few⟩
  next => cases h

theorem bitsBelow_ok {bound : Nat} {r : TypeRecord} {quantity : Quantity} {value : UInt64}
    {bits : Nat} (h : bitsBelow bound r quantity value = .ok bits) :
  bits = 8 * value.toNat ∧ bits < bound
  := by
  rw [bitsBelow] at h
  split at h
  next small =>
    cases h
    exact ⟨rfl, small⟩
  next => cases h

end Ctf

namespace Graph

open Ctf

variable {g : Graph} {o : ByteOrder} {strings : StringTable} {id : TypeId} {bytes : List UInt8}

theorem refersTo_of_referencedWord {id : TypeId} {word : UInt16}
    (h : g.referencedWord id = .ok word) :
  g.RefersTo id word.toNat
  := by
  obtain ⟨target, found, h⟩ := ok_of_bind h
  rw [toNat_typeWord h]
  rw [referenced] at found
  split at found
  next place reference =>
    cases found
    exact ⟨place, reference, rfl⟩
  next => cases found

theorem toNat_indexTypeNumber (g : Graph) :
  g.indexTypeNumber.toNat = (g.indexType.map g.numberOf).getD 0
  := by
  rw [indexTypeNumber]
  cases g.indexType <;> rfl

/-! ### The last number -/

theorem toNat_foldl_max (ids : List TypeId) (n : UInt32) :
  (ids.foldl (fun last id => max last (g.get id).index) n).toNat
    = (ids.map g.numberOf).foldl max n.toNat
  := by
  induction ids generalizing n with
  | nil => rfl
  | cons id ids ih =>
    rw [List.foldl_cons, ih, List.map_cons, List.foldl_cons]
    congr 1
    have order : n ≤ (g.get id).index ↔ n.toNat ≤ g.numberOf id := UInt32.le_iff_toNat_le
    rw [UInt32.max_def, Nat.max_def]
    by_cases less : n ≤ (g.get id).index
    · rw [if_pos less, if_pos (order.mp less), numberOf]
    · rw [if_neg less, if_neg (mt order.mpr less)]

/-- The number of the last type is the greatest one. -/
theorem toNat_lastNumber (g : Graph) :
  g.lastNumber.toNat = (g.emittedTypes.map g.numberOf).max?.getD 0
  := by
  rw [lastNumber, toNat_foldl_max]
  cases g.emittedTypes.map g.numberOf with
  | nil => rfl
  | cons n ns => rw [List.foldl_cons, UInt32.toNat_zero, Nat.zero_max, List.max?_cons']; rfl

/-- The last number is below a bound if and only if all numbers are. -/
theorem lastNumber_le_iff (bound : Nat) :
  g.lastNumber.toNat ≤ bound ↔ ∀ id ∈ g.emittedTypes, g.numberOf id ≤ bound
  := by
  rw [toNat_lastNumber]
  constructor
  · exact fun h id mem => Nat.le_trans (List.le_max?_getD_of_mem (List.mem_map_of_mem mem)) h
  · intro h
    cases greatest : (g.emittedTypes.map g.numberOf).max? with
    | none => exact Nat.zero_le bound
    | some number =>
      obtain ⟨mem, -⟩ := List.max?_eq_some_iff.mp greatest
      obtain ⟨id, emitted, rfl⟩ := List.mem_map.mp mem
      exact h id emitted

/-! ### Members -/

/-- The entry of a member has a long offset if its struct or union is large. -/
theorem memberEntry_ok {r : TypeRecord} {m : Member} (h : g.memberEntry o strings r m = .ok bytes) :
  ∃ word : UInt16, word.toNat = g.numberOf m.reference
    ∧ ((8192 ≤ r.size.toNat ∧ 8 * m.offset.toNat < wordValues 8
        ∧ bytes = o.u32 (strings.offset m.name)
          ++ (o.u16 word ++ (o.u16 0 ++ halves o (UInt64.ofNat (8 * m.offset.toNat)))))
      ∨ (¬8192 ≤ r.size.toNat ∧ 8 * m.offset.toNat < wordValues 2
        ∧ bytes = o.u32 (strings.offset m.name)
          ++ (o.u16 word ++ o.u16 (UInt16.ofNat (8 * m.offset.toNat)))))
  := by
  have wide : wideMemberSize ≤ r.size ↔ 8192 ≤ r.size.toNat := UInt64.le_iff_toNat_le
  obtain ⟨word, written, h⟩ := ok_of_bind h
  refine ⟨word, toNat_typeWord written, ?_⟩
  split at h
  next long =>
    obtain ⟨bits, fits, h⟩ := ok_of_bind h
    obtain ⟨rfl, small⟩ := bitsBelow_ok fits
    cases h
    exact .inl ⟨wide.mp long, small, by simp only [List.append_assoc]⟩
  next short =>
    obtain ⟨bits, fits, h⟩ := ok_of_bind h
    obtain ⟨rfl, small⟩ := bitsBelow_ok fits
    cases h
    exact .inr ⟨mt wide.mpr short, small, by simp only [List.append_assoc]⟩

/-! ### Types -/

theorem typeData_number_ok (kind : (g.get id).kind = .integer ∨ (g.get id).kind = .float)
    (h : g.typeData o strings id = .ok bytes) :
  8 * (g.get id).size.toNat < wordValues 2
    ∧ bytes = o.u16 (infoWord (g.get id).kind true 0) ++ (sizeBytes o (g.get id).size
      ++ o.u32 ((g.get id).encoding.toUInt32 <<< 24 ||| UInt32.ofNat (8 * (g.get id).size.toNat)))
  := by
  have data : g.typeData o strings id = do
      let bits ← bitsBelow (wordValues 2) (g.get id) .size (g.get id).size
      return o.u16 (infoWord (g.get id).kind true 0) ++ sizeBytes o (g.get id).size
        ++ o.u32 ((g.get id).encoding.toUInt32 <<< 24 ||| UInt32.ofNat bits) := by
    rcases kind with kind | kind <;> simp only [typeData, kind]
  rw [data] at h
  obtain ⟨bits, fits, h⟩ := ok_of_bind h
  obtain ⟨rfl, small⟩ := bitsBelow_ok fits
  cases h
  exact ⟨small, List.append_assoc _ _ _⟩

theorem typeData_reference_ok
    (kind : (g.get id).kind ∈ [TypeKind.pointer, .typedef, .volatile, .const, .restrict])
    (h : g.typeData o strings id = .ok bytes) :
  ∃ target : UInt16, g.RefersTo id target.toNat
    ∧ bytes = o.u16 (infoWord (g.get id).kind true 0) ++ o.u16 target
  := by
  have data : g.typeData o strings id = do
      let target ← g.referencedWord id
      return o.u16 (infoWord (g.get id).kind true 0) ++ o.u16 target := by
    simp only [List.mem_cons, List.not_mem_nil, or_false] at kind
    rcases kind with kind | kind | kind | kind | kind <;> simp only [typeData, kind]
  rw [data] at h
  obtain ⟨target, found, h⟩ := ok_of_bind h
  cases h
  exact ⟨target, refersTo_of_referencedWord found, rfl⟩

theorem typeData_array_ok (kind : (g.get id).kind = .array)
    (h : g.typeData o strings id = .ok bytes) :
  ∃ content index : UInt16, g.RefersTo id content.toNat
    ∧ index.toNat = (g.indexType.map g.numberOf).getD 0
    ∧ bytes = o.u16 (infoWord (g.get id).kind true 0)
      ++ (o.u16 0 ++ (o.u16 content ++ (o.u16 index ++ o.u32 (g.get id).elementCount)))
  := by
  simp only [typeData, kind] at h
  obtain ⟨content, found, h⟩ := ok_of_bind h
  obtain ⟨index, written, h⟩ := ok_of_bind h
  cases h
  refine ⟨content, index, refersTo_of_referencedWord found, ?_, ?_⟩
  · rw [toNat_typeWord written, toNat_indexTypeNumber]
  · rw [kind]
    simp only [List.append_assoc]

/-- The entry of a function is padded if it has an odd number of arguments. -/
theorem typeData_function_ok (kind : (g.get id).kind = .function)
    (h : g.typeData o strings id = .ok bytes) :
  ∃ (count returned : UInt16) (arguments : List UInt8),
    (count.toNat = (g.get id).members.size ∧ (g.get id).members.size ≤ maxEntries)
    ∧ g.referencedWord id = .ok returned ∧ g.argumentBytes o (g.get id) = .ok arguments
    ∧ bytes = o.u16 (infoWord (g.get id).kind true count) ++ ((o.u16 returned ++ arguments)
      ++ if (g.get id).members.size % 2 = 1 then o.u16 0 else [])
  := by
  simp only [typeData, kind] at h
  obtain ⟨count, counted, h⟩ := ok_of_bind h
  obtain ⟨returned, found, h⟩ := ok_of_bind h
  obtain ⟨arguments, written, h⟩ := ok_of_bind h
  cases h
  refine ⟨count, returned, arguments, countWord_ok counted, found, written, ?_⟩
  rw [kind]
  simp only [List.append_assoc]

theorem typeData_aggregate_ok (kind : (g.get id).kind = .struct ∨ (g.get id).kind = .union)
    (h : g.typeData o strings id = .ok bytes) :
  ∃ (count : UInt16) (entries : List (List UInt8)),
    (count.toNat = (g.get id).members.size ∧ (g.get id).members.size ≤ maxEntries)
    ∧ List.Forall₂ (fun m entry => m ∈ (g.get id).members.toList
      ∧ g.memberEntry o strings (g.get id) m = .ok entry) (g.get id).members.toList entries
    ∧ bytes = o.u16 (infoWord (g.get id).kind true count)
      ++ (sizeBytes o (g.get id).size ++ entries.flatten)
  := by
  have data : g.typeData o strings id = do
      let count ← countWord (g.get id) (g.get id).members.size
      let members ← (g.get id).members.toList.mapM (g.memberEntry o strings (g.get id))
      return o.u16 (infoWord (g.get id).kind true count) ++ sizeBytes o (g.get id).size
        ++ members.flatten := by
    rcases kind with kind | kind <;> simp only [typeData, kind]
  rw [data] at h
  obtain ⟨count, counted, h⟩ := ok_of_bind h
  obtain ⟨entries, written, h⟩ := ok_of_bind h
  cases h
  exact ⟨count, entries, countWord_ok counted, forall₂_of_mapM written, List.append_assoc _ _ _⟩

theorem typeData_enumeration_ok (kind : (g.get id).kind = .enum)
    (h : g.typeData o strings id = .ok bytes) :
  ∃ count : UInt16,
    (count.toNat = (g.get id).enumerators.size ∧ (g.get id).enumerators.size ≤ maxEntries)
    ∧ bytes = o.u16 (infoWord (g.get id).kind true count) ++ (sizeBytes o (g.get id).size
      ++ ((g.get id).enumerators.toList.map (enumeratorEntry o strings)).flatten)
  := by
  simp only [typeData, kind] at h
  obtain ⟨count, counted, h⟩ := ok_of_bind h
  cases h
  refine ⟨count, countWord_ok counted, ?_⟩
  rw [kind]
  apply List.append_assoc

end Graph

end CompactTypes

import CompactTypes.Proofs.Ctf.Summary
import CompactTypes.Proofs.Dwarf.Decoded
import CompactTypes.Proofs.Resolution.Numbered

/-!
# Values of enumerators

A file has 32 bits for the value of an enumerator, one of which is its sign, and a value that needs
more wraps around.  So the values of an enumeration are read back from the file if and only if all
of them fit, `Graph.enumerators_encode`.  Values that do not fit are no error: in `highUnit` there
is an enumerator whose value 0x100000000 is read back as zero.
-/

namespace CompactTypes

/-- A value has an absolute value small enough for 32 bits, one of which is a sign. -/
def Enumerator.Fits (e : Enumerator) : Prop :=
  -0x80000000 ≤ e.value.toInt ∧ e.value.toInt < 0x80000000

instance (e : Enumerator) : Decidable e.Fits :=
  inferInstanceAs (Decidable (_ ∧ _))

/-- The values of the enumerators of a record. -/
def TypeRecord.values (r : TypeRecord) : List Int :=
  r.enumerators.toList.map fun e => e.value.toInt

namespace Graph

open Ctf

variable {g : Graph} {id : TypeId}

/-- Exactly the values that fit are left alone. -/
theorem wrappedValue_eq_iff (e : Enumerator) :
  wrappedValue e = e.value.toInt ↔ e.Fits
  := by
  rw [wrappedValue, wordValues_four, Enumerator.Fits]
  constructor
  · intro same
    have lower : -((0x100000000 : Nat) / 2 : Int) ≤ e.value.toInt.bmod 0x100000000 :=
      Int.le_bmod (by decide)
    have upper : e.value.toInt.bmod 0x100000000 < ((0x100000000 : Nat) + 1) / 2 :=
      Int.bmod_lt (by decide)
    omega
  · rintro ⟨lower, upper⟩
    apply Int.bmod_eq_of_le <;> omega

theorem map_wrappedValue_eq_iff (r : TypeRecord) :
  r.enumerators.toList.map wrappedValue = r.values ↔ ∀ e ∈ r.enumerators, e.Fits
  := by
  rw [TypeRecord.values, List.map_inj_left]
  simp only [Array.mem_toList_iff]
  exact forall₂_congr fun e _ => wrappedValue_eq_iff e

/-- What a file says about an enumeration. -/
theorem HasOutlinedType.eq_enumeration {t : OutlinedType} (h : g.HasOutlinedType id t)
    (kind : (g.get id).kind = .enum) :
  t = ⟨.enum, .enumeration (g.get id).size.toNat ((g.get id).enumerators.toList.map wrappedValue)⟩
  := by
  obtain ⟨kind', outline⟩ := t
  obtain ⟨same, described⟩ := h
  have same : kind' = .enum := same.trans kind
  subst same
  congr 1
  cases outline with
  | number | reference | array | function | aggregate =>
    have other := described.1
    rw [kind] at other
    simp at other
  | enumeration size values =>
    obtain ⟨-, rfl, rfl⟩ := described
    rfl

/-- If a graph has an encoding, then the values of an enumeration that has a place in the output are
written as numbers with 32 bits, one of which is a sign.  What is read back are the values
themselves if and only if all of them fit. -/
theorem enumerators_encode (g : Graph) (label : String) (o : ByteOrder) (compressed : Bool)
    (bytes : ByteArray) (encoded : g.encode label o compressed = .ok bytes) :
  ∃ s summary, g.sections label o = .ok s ∧ bytes = s.toBytes o compressed
    ∧ (s.body.length < wordValues 4 → Sections.read? o bytes = some s)
    ∧ s.summary? o = some summary
    ∧ List.Forall₂ (fun id t => (g.get id).kind = .enum → ∃ values : List Int,
        t = ⟨.enum, .enumeration (g.get id).size.toNat values⟩
        ∧ values = (g.get id).values.map (·.bmod 0x100000000)
        ∧ (values = (g.get id).values ↔ ∀ e ∈ (g.get id).enumerators, e.Fits))
      g.emittedTypes summary.types
  := by
  obtain ⟨s, summary, sections, rfl, read, summarizes⟩ := summarizes_encode encoded
  refine ⟨s, summary, sections, rfl, s.read?_toBytes o compressed, read, ?_⟩
  apply summarizes.types.imp
  intro id t described kind
  refine ⟨_, described.eq_enumeration kind, ?_, map_wrappedValue_eq_iff _⟩
  rw [TypeRecord.values, List.map_map]
  rfl

/-- A negative value, and one that takes 33 bits. -/
def colors : Graph where
  records := #[
    { TypeRecord.ofKind .enum (some "color") with
      index := 1, size := 8, enumerators := #[⟨"RED", -2⟩, ⟨"BLUE", 0x100000007⟩] }]
  allTypes := #[0]
  functions := #[]
  objects := #[]
  indexType := none

theorem enumerators_encode_colors :
  ∃ (bytes : ByteArray) (s : Sections) (summary : Summary),
    colors.encode "l" .big true = .ok bytes ∧ bytes = s.toBytes .big true
    ∧ s.summary? .big = some summary ∧ summary.types[0]? = some ⟨.enum, .enumeration 8 [-2, 7]⟩
  := by
  obtain ⟨bytes, encoded⟩ : ∃ bytes, colors.encode "l" .big true = .ok bytes := ⟨_, rfl⟩
  obtain ⟨s, summary, -, written, -, read, types⟩ :=
    enumerators_encode colors "l" .big true bytes encoded
  refine ⟨bytes, s, summary, encoded, written, read, ?_⟩
  obtain ⟨t, found, values⟩ :=
    exists_getElem?_of_forall₂ types (show colors.emittedTypes[0]? = some 0 by decide)
  obtain ⟨_, rfl, rfl, -⟩ := values rfl
  rw [found]
  decide

end Graph

namespace Dwarf.Sections

open Ctf

/-- A unit with an enumeration of eight bytes that has the single value 0x100000000. -/
def highUnit : Sections where
  order := .little
  abbreviations := ⟨#[
    1, 0x11, 1, 0, 0,
    2, 0x04, 1, 3, 8, 0x0b, 0x0b, 0, 0,
    3, 0x28, 0, 3, 8, 0x1c, 0x0f, 0, 0,
    0]⟩
  info := ⟨#[
    29, 0, 0, 0, 4, 0, 0, 0, 0, 0, 8,
    1,
    2, 102, 108, 97, 103, 115, 0, 8,
    3, 72, 73, 71, 72, 0, 128, 128, 128, 128, 16,
    0,
    0]⟩
  strings := .empty
  stringOffsets := .empty
  lineStrings := .empty

/-- The value of the only enumerator of the unit is lost without an error. -/
theorem wraps_highUnit :
  let g := (highUnit.decode .empty).graph.withSymbols []
  (highUnit.decode .empty).error = none
  ∧ g.emittedTypes[2]? = some 2 ∧ (g.get 2).kind = .enum ∧ (g.get 2).values = [0x100000000]
  ∧ ∃ (bytes : ByteArray) (s : Ctf.Sections) (summary : Summary),
    g.encode "unit" .little true = .ok bytes ∧ Ctf.Sections.read? .little bytes = some s
    ∧ s.summary? .little = some summary ∧ summary.types[2]? = some ⟨.enum, .enumeration 8 [0]⟩
  := by
  intro g
  have decoded : (highUnit.decode .empty).error = none := by decide +kernel
  have emitted : g.emittedTypes[2]? = some 2 := by decide +kernel
  have record : (g.get 2).kind = .enum ∧ (g.get 2).size = 8
      ∧ (g.get 2).enumerators = #[⟨"HIGH", 0x100000000⟩] := by
    decide +kernel
  obtain ⟨kind, size, enumerators⟩ := record
  have written : (g.encode "unit" .little true).isOk = true := by decide +kernel
  obtain ⟨bytes, encoded⟩ := exists_of_isOk written
  obtain ⟨s, summary, sections, rfl, read, summarizes⟩ := Graph.summarizes_encode encoded
  have short : s.body.length < wordValues 4 := Graph.short_of_sections sections (by decide +kernel)
  obtain ⟨t, found, described⟩ := exists_getElem?_of_forall₂ summarizes.types emitted
  refine ⟨decoded, emitted, kind, ?_, _, s, summary, encoded, s.read?_toBytes .little true short,
    read, ?_⟩
  · rw [TypeRecord.values, enumerators]
    rfl
  · rw [found, described.eq_enumeration kind, size, enumerators]
    rfl

end Dwarf.Sections

end CompactTypes

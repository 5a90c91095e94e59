import CompactTypes.Ctf.Encode
import CompactTypes.Proofs.Dwarf.Decoded
import CompactTypes.Proofs.Listing
import CompactTypes.Proofs.Resolution.Numbered

/-!
# No internal errors

Decoding into an empty graph does not end with a reference that is missing, and a graph that has
been decoded without an error can be listed whatever its symbols are.  It can be encoded as well,
unless the compact format cannot represent it.  So the errors about records that lack a reference
or have an unexpected kind are never met, `output_withSymbols`.
-/

namespace CompactTypes

namespace Graph

open Ctf

variable {g₀ g : Graph} {symbols : List Symbol} {id target : TypeId}

/-! ### Listings -/

/-- The listing of a numbered graph consists of the lines of the objects, those of the functions
and those of the types, all of which can be shown. -/
theorem Numbered.listing_eq (h : Numbered g₀ symbols g) (complete : g₀.Complete) :
  ∃ objects functions types : List String,
    numberedLines g.objectLine g.objects.toList = objects.map .ok
    ∧ numberedLines g.functionLine g.functions.toList = functions.map .ok
    ∧ g.emittedTypes.map g.typeLines = types.map .ok
    ∧ g.listing = ⟨String.join objects ++ "\n" ++ String.join functions ++ "\n"
      ++ String.join types, none⟩
  := by
  have lines (c : SymbolClass) {line : TypeId → Nat → Except Error String}
      (step : ∀ id target place, (g.get id).reference = some target →
        ∃ text, line id place = .ok text) :
      ∃ texts : List String, numberedLines line (g.taken c).toList = texts.map .ok := by
    apply numberedLines_ok
    intro id mem place
    obtain ⟨target, reference⟩ := h.taken_refers complete (Array.mem_toList_iff.mp mem)
    exact step id target place reference
  obtain ⟨objects, hobjects⟩ := lines .object fun _ _ place h => objectLine_ok h place
  obtain ⟨functions, hfunctions⟩ := lines .function fun _ _ place h => functionLine_ok h place
  obtain ⟨types, htypes⟩ :
      ∃ types : List String, g.emittedTypes.map g.typeLines = types.map .ok := by
    apply Listing.exists_texts
    intro item mem
    obtain ⟨id, emitted, rfl⟩ := List.mem_map.mp mem
    rw [h.emittedTypes_eq] at emitted
    exact typeLines_ok (h.kind_ne_unknown complete emitted) (h.refers complete emitted)
  exact ⟨objects, functions, types, hobjects, hfunctions, htypes,
    listing_eq_of_lines hobjects hfunctions htypes⟩

/-! ### Encodings -/

/-- A computation fails only because the compact format cannot represent something. -/
def OnlyUnencodable {α : Type} (x : Except Error α) : Prop :=
  ∀ e, x = .error e → ∃ failure, e = .unencodable failure

theorem onlyUnencodable_ok {α : Type} (a : α) :
  OnlyUnencodable (.ok a)
  := by
  intro e failed
  cases failed

/-- A check of whether the compact format can represent something. -/
theorem onlyUnencodable_check {α : Type} (p : Prop) [Decidable p] (a : α) (failure : Failure) :
  OnlyUnencodable (if p then .ok a else .error (.unencodable failure))
  := by
  intro e failed
  split at failed
  · cases failed
  · cases failed
    exact ⟨failure, rfl⟩

theorem OnlyUnencodable.bind {α β : Type} {x : Except Error α} {f : α → Except Error β}
    (first : OnlyUnencodable x) (second : ∀ a, OnlyUnencodable (f a)) :
  OnlyUnencodable (x >>= f)
  := by
  intro e failed
  rcases error_of_bind failed with failed | ⟨a, -, failed⟩
  · exact first e failed
  · exact second a e failed

theorem onlyUnencodable_mapM {α β : Type} {f : α → Except Error β} {as : List α}
    (h : ∀ a ∈ as, OnlyUnencodable (f a)) :
  OnlyUnencodable (as.mapM f)
  := by
  intro e failed
  obtain ⟨a, mem, failed⟩ := error_of_mapM failed
  exact h a mem e failed

theorem onlyUnencodable_typeWord (index : UInt32) :
  OnlyUnencodable (typeWord index)
  := onlyUnencodable_check _ _ _

theorem onlyUnencodable_countWord (r : TypeRecord) (count : Nat) :
  OnlyUnencodable (countWord r count)
  := onlyUnencodable_check _ _ _

theorem onlyUnencodable_bitsBelow (bound : Nat) (r : TypeRecord) (quantity : Quantity)
    (value : UInt64) :
  OnlyUnencodable (bitsBelow bound r quantity value)
  := onlyUnencodable_check _ _ _

variable {o : ByteOrder} {strings : StringTable}

theorem onlyUnencodable_referencedWord (h : (g.get id).reference = some target) :
  OnlyUnencodable (g.referencedWord id)
  := by
  have word : g.referencedWord id = typeWord (g.get target).index := by
    rw [referencedWord, referenced, h]
    rfl
  rw [word]
  exact onlyUnencodable_typeWord _

theorem onlyUnencodable_argumentBytes (r : TypeRecord) :
  OnlyUnencodable (g.argumentBytes o r)
  := (onlyUnencodable_mapM fun _ _ => onlyUnencodable_typeWord _).bind fun _ =>
    onlyUnencodable_ok _

theorem onlyUnencodable_objectEntry (h : (g.get id).reference = some target) :
  OnlyUnencodable (g.objectEntry o id)
  := (onlyUnencodable_referencedWord h).bind fun _ => onlyUnencodable_ok _

theorem onlyUnencodable_functionEntry (h : (g.get id).reference = some target) :
  OnlyUnencodable (g.functionEntry o id)
  := by
  rw [functionEntry]
  split
  · exact onlyUnencodable_ok _
  · apply (onlyUnencodable_countWord _ _).bind
    intro count
    apply (onlyUnencodable_referencedWord h).bind
    intro returned
    exact (onlyUnencodable_argumentBytes _).bind fun _ => onlyUnencodable_ok _

theorem onlyUnencodable_memberEntry (r : TypeRecord) (m : Member) :
  OnlyUnencodable (g.memberEntry o strings r m)
  := by
  apply (onlyUnencodable_typeWord _).bind
  intro word
  split <;> exact (onlyUnencodable_bitsBelow _ _ _ _).bind fun _ => onlyUnencodable_ok _

/-- A type of some kind has an entry if the compact format can represent it and if it refers to
another type in case it has to. -/
theorem onlyUnencodable_typeEntry (kind : (g.get id).kind ≠ .unknown)
    (refers : (g.get id).kind.needsReference → ∃ target, (g.get id).reference = some target) :
  OnlyUnencodable (g.typeEntry o strings id)
  := by
  apply (onlyUnencodable_typeWord _).bind
  intro _
  refine OnlyUnencodable.bind ?_ fun _ => onlyUnencodable_ok _
  cases hkind : (g.get id).kind with
  | unknown => exact absurd hkind kind
  | integer | float =>
    simp only [typeData, hkind]
    exact (onlyUnencodable_bitsBelow _ _ _ _).bind fun _ => onlyUnencodable_ok _
  | enum =>
    simp only [typeData, hkind]
    exact (onlyUnencodable_countWord _ _).bind fun _ => onlyUnencodable_ok _
  | struct | union =>
    simp only [typeData, hkind]
    apply (onlyUnencodable_countWord _ _).bind
    intro count
    exact (onlyUnencodable_mapM fun _ _ => onlyUnencodable_memberEntry _ _).bind fun _ =>
      onlyUnencodable_ok _
  | pointer | typedef | volatile | const | restrict =>
    obtain ⟨target, reference⟩ := refers (by rw [hkind]; rfl)
    simp only [typeData, hkind]
    exact (onlyUnencodable_referencedWord reference).bind fun _ => onlyUnencodable_ok _
  | array =>
    obtain ⟨target, reference⟩ := refers (by rw [hkind]; rfl)
    simp only [typeData, hkind]
    apply (onlyUnencodable_referencedWord reference).bind
    intro content
    exact (onlyUnencodable_typeWord _).bind fun _ => onlyUnencodable_ok _
  | function =>
    obtain ⟨target, reference⟩ := refers (by rw [hkind]; rfl)
    simp only [typeData, hkind]
    apply (onlyUnencodable_countWord _ _).bind
    intro count
    apply (onlyUnencodable_referencedWord reference).bind
    intro returned
    exact (onlyUnencodable_argumentBytes _).bind fun _ => onlyUnencodable_ok _

/-- A numbered graph has an encoding unless the compact format cannot represent it. -/
theorem Numbered.onlyUnencodable_encode (h : Numbered g₀ symbols g) (complete : g₀.Complete)
    (label : String) (o : ByteOrder) (compressed : Bool) :
  OnlyUnencodable (g.encode label o compressed)
  := by
  have entries (c : SymbolClass) {entry : TypeId → Except Error (List UInt8)}
      (step : ∀ id target, (g.get id).reference = some target → OnlyUnencodable (entry id)) :
      OnlyUnencodable ((g.taken c).toList.mapM entry) := by
    apply onlyUnencodable_mapM
    intro id mem
    obtain ⟨target, reference⟩ := h.taken_refers complete (Array.mem_toList_iff.mp mem)
    exact step id target reference
  have types (strings : StringTable) :
      OnlyUnencodable (g.emittedTypes.mapM (g.typeEntry o strings)) := by
    apply onlyUnencodable_mapM
    intro id mem
    rw [h.emittedTypes_eq] at mem
    exact onlyUnencodable_typeEntry (h.kind_ne_unknown complete mem) (h.refers complete mem)
  have sections : OnlyUnencodable (g.sections label o) := by
    apply (onlyUnencodable_typeWord _).bind
    intro _
    apply (entries .object fun _ _ reference => onlyUnencodable_objectEntry reference).bind
    intro objects
    apply (entries .function fun _ _ reference => onlyUnencodable_functionEntry reference).bind
    intro functions
    exact (types _).bind fun _ => onlyUnencodable_ok _
  exact sections.bind fun _ => onlyUnencodable_ok _

end Graph

namespace Dwarf.Sections

/-- Decoding never ends with the error that a record lacks its reference, since references are
either all set or lead nowhere. -/
theorem error_decode_ne_unresolvedReference (s : Sections) (kind : TypeKind)
    (name : Option String) :
  (s.decode .empty).error ≠ some (.unresolvedReference kind name)
  := by
  intro failed
  have before := failed
  rw [decode] at failed
  split at failed
  next => cases failed
  next size width =>
    simp only at failed
    split at failed
    next => cases failed
    next d walked =>
      rw [(decode_of_walk width walked).2] at before
      rcases (Decoding.tracks_walk walked).finish_cases with
        ⟨-, success, -⟩ | ⟨_, _, _, _, -, -, -, -, -, failure⟩
      · rw [success] at before
        cases before
      · rw [failure] at before
        cases before

/-- Decoding does not end with the error that a record lacks its reference.  If it succeeds, then
with the symbols of any table the graph can be listed, and it can be encoded unless the compact
format cannot represent it. -/
theorem output_withSymbols (s : Sections) :
  (∀ kind name, (s.decode .empty).error ≠ some (.unresolvedReference kind name))
  ∧ ((s.decode .empty).error = none → ∀ symbols : List Symbol,
    let g := (s.decode .empty).graph.withSymbols symbols
    g.listing.error = none
    ∧ ∀ (label : String) (o : ByteOrder) (compressed : Bool),
      (∃ bytes, g.encode label o compressed = .ok bytes)
      ∨ ∃ failure, g.encode label o compressed = .error (.unencodable failure))
  := by
  refine ⟨s.error_decode_ne_unresolvedReference, fun decoded symbols => ?_⟩
  have complete := complete_decode decoded
  have numbered := complete.numbered symbols
  refine ⟨?_, fun label o compressed => ?_⟩
  · obtain ⟨_, _, _, -, -, -, listing⟩ := numbered.listing_eq complete
    rw [listing]
  · have only := numbered.onlyUnencodable_encode complete label o compressed
    cases encoded : ((s.decode .empty).graph.withSymbols symbols).encode label o compressed with
    | ok bytes => exact .inl ⟨bytes, rfl⟩
    | error e =>
      obtain ⟨failure, rfl⟩ := only e encoded
      exact .inr ⟨failure, rfl⟩

/-- The sample unit with a function, a local copy of it, and a symbol without type information. -/
theorem output_withSymbols_sampleUnit :
  let symbols : List Symbol := [⟨1, "f", .function, .defined⟩, ⟨2, "f.1", .function, .defined⟩,
    ⟨3, "w", .object, .defined⟩]
  let g := (sampleUnit.decode .empty).graph.withSymbols symbols
  (sampleUnit.decode .empty).error = none ∧ g.functions.size = 2 ∧ g.listing.error = none
  := by
  intro symbols g
  obtain ⟨listed, -⟩ := (output_withSymbols sampleUnit).2 decode_sampleUnit symbols
  exact ⟨decode_sampleUnit, by decide +kernel, listed⟩

end Dwarf.Sections

end CompactTypes

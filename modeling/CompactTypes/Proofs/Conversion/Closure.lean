import CompactTypes.Proofs.Conversion.Captions
import CompactTypes.Proofs.Dwarf.Decoded
import CompactTypes.Proofs.Resolution.Numbered

/-!
# Numbers of types

In a graph that has been decoded and numbered, every number of a type that is shown or written
designates a type by its place in the output, `Graph.Designates`: whatever a record mentions has a
place.  The only exceptions are placeholders, for which the number is zero.  The numbers are those
of a summary that is `Ctf.Summary.Closed`: one of which the listing is made, and one that is read
from the sections of a file.  This is `Dwarf.Sections.closed_withSymbols`.
-/

namespace CompactTypes

/-- The numbers of types that are part of what a summary says about a type. -/
def Ctf.Outline.typeNumbers : Ctf.Outline → List Nat
  | number .. | enumeration .. => []
  | reference target => [target]
  | array content index _ => [content, index]
  | function signature => signature.returned :: signature.arguments
  | aggregate _ parts => parts.map Part.type

namespace Graph

open Ctf

/-- The types that are mentioned when a record is shown or written: those that it refers to, and
with an array the type of array indices. -/
def mentioned (g : Graph) (id : TypeId) : List TypeId :=
  (g.get id).referents ++ if (g.get id).kind = .array then g.indexType.toList else []

/-- The types on which a type is built, in the order in which they are shown and written. -/
def components (g : Graph) (id : TypeId) : List TypeId :=
  let r := g.get id
  let members := r.members.toList.map Member.reference
  match r.kind with
  | .unknown | .integer | .float | .enum => []
  | .pointer | .typedef | .volatile | .const | .restrict => r.reference.toList
  | .array => r.reference.toList ++ g.indexType.toList
  | .function => r.reference.toList ++ members
  | .struct | .union => members

/-- A number is that of a type by its place in the output, counted from one. -/
def Designates (g : Graph) (number : Nat) (id : TypeId) : Prop :=
  1 ≤ number ∧ number ≤ g.typeCount ∧ g.emittedTypes[number - 1]? = some id

/-- A record is among all types, or a symbol has taken it and it is no placeholder. -/
def Counts (g : Graph) (id : TypeId) : Prop :=
  id ∈ g.allTypes ∨ ((∃ c, id ∈ g.taken c) ∧ ¬g.IsPlaceholder id)

/-- The number written for an object designates what its record refers to; it is zero for
placeholders only. -/
def ObjectNumber (g : Graph) (id : TypeId) (number : Nat) : Prop :=
  (g.IsPlaceholder id ∧ number = 0)
    ∨ (¬g.IsPlaceholder id ∧ ∃ target, (g.get id).reference = some target
      ∧ g.Designates number target)

/-- The numbers written for a function designate what its record refers to; placeholders, and
no other records, are written without any. -/
def FunctionNumbers (g : Graph) (id : TypeId) : Option Signature → Prop
  | none => g.IsPlaceholder id
  | some s => ¬g.IsPlaceholder id
    ∧ (∃ target, (g.get id).reference = some target ∧ g.Designates s.returned target)
    ∧ List.Forall₂ (fun number m => g.Designates number m.reference) s.arguments
      (g.get id).members.toList

end Graph

/-- Every number of a type in a summary designates a type of a graph: with objects and functions
what their records refer to, and with a type its components. -/
structure Ctf.Summary.Closed (summary : Ctf.Summary) (g : Graph) : Prop where
  objects : List.Forall₂ g.ObjectNumber g.objects.toList summary.objects
  functions : List.Forall₂ g.FunctionNumbers g.functions.toList summary.functions
  types : List.Forall₂ (fun id t => t.kind = (g.get id).kind
      ∧ List.Forall₂ g.Designates t.outline.typeNumbers (g.components id))
    g.emittedTypes summary.types

namespace Graph

open Ctf

variable {g₀ g : Graph} {symbols : List Symbol} {id target : TypeId}

/-! ### Mentioned types -/

theorem mem_mentioned :
  target ∈ g.mentioned id ↔ target ∈ (g.get id).referents
    ∨ ((g.get id).kind = .array ∧ g.indexType = some target)
  := by
  rw [mentioned, List.mem_append]
  by_cases array : (g.get id).kind = .array
  · rw [if_pos array, Option.mem_toList, and_iff_right array]
  · rw [if_neg array]
    simp [array]

theorem mem_mentioned_of_reference (h : (g.get id).reference = some target) :
  target ∈ g.mentioned id
  := mem_mentioned.mpr (.inl (TypeRecord.mem_referents.mpr (.inl h)))

theorem mem_mentioned_of_member {m : Member} (mem : m ∈ (g.get id).members) :
  m.reference ∈ g.mentioned id
  := mem_mentioned.mpr (.inl (TypeRecord.mem_referents.mpr (.inr ⟨m, mem, rfl⟩)))

/-- Whatever a record refers to has a place in the output, unless the record is a placeholder. -/
theorem Numbered.mem_emittedTypes_of_mentioned (h : Numbered g₀ symbols g) (complete : g₀.Complete)
    (counts : g.Counts id) (mem : target ∈ g.mentioned id) :
  target ∈ g.emittedTypes
  := by
  rw [h.emittedTypes_eq]
  rcases mem_mentioned.mp mem with referent | ⟨-, indexType⟩
  · rcases counts with listed | ⟨⟨c, taken⟩, genuine⟩
    · rw [h.referents_eq (h.allTypes_eq ▸ listed)] at referent
      exact complete.referent id target referent
    · rcases h.taken_cases complete taken with ⟨placeholder, -⟩ | ⟨-, first, -, -, same⟩
      · exact absurd placeholder genuine
      · rw [TypeRecord.field_of_unclaimed TypeRecord.referents (fun _ => rfl) same] at referent
        exact complete.referent first target referent
  · obtain ⟨other, emitted, found, -⟩ := h.exists_indexType complete
    rw [indexType] at found
    cases found
    exact emitted

/-! ### Places -/

theorem Numbered.numberOf_of_place (h : Numbered g₀ symbols g) (complete : g₀.Complete)
    {place : Nat} (found : g.emittedTypes[place]? = some target)
    (small : place + 1 < wordValues 4) :
  g.numberOf target = place + 1
  := by
  rw [numberOf, h.index_of_place complete found]
  exact UInt32.toNat_ofNat_of_lt' small

/-- As long as 32 bits can count the types, the number of each designates it. -/
theorem Numbered.designates_numberOf (h : Numbered g₀ symbols g) (complete : g₀.Complete)
    (small : g.typeCount < wordValues 4) (mem : target ∈ g.emittedTypes) :
  g.Designates (g.numberOf target) target
  := by
  obtain ⟨place, found⟩ := List.mem_iff_getElem?.mp mem
  have inside : place < g.typeCount := (List.getElem?_eq_some_iff.mp found).1
  rw [h.numberOf_of_place complete found (Nat.lt_of_le_of_lt inside small)]
  exact ⟨Nat.le_add_left 1 place, inside, found⟩

theorem Numbered.designates_mentioned (h : Numbered g₀ symbols g) (complete : g₀.Complete)
    (small : g.typeCount < wordValues 4) (counts : g.Counts id) (mem : target ∈ g.mentioned id) :
  g.Designates (g.numberOf target) target
  := h.designates_numberOf complete small (h.mem_emittedTypes_of_mentioned complete counts mem)

/-! ### The last number -/

theorem numberOf_le_lastNumber (mem : target ∈ g.emittedTypes) :
  g.numberOf target ≤ g.lastNumber.toNat
  := (lastNumber_le_iff _).mp (Nat.le_refl _) target mem

/-- If the last number fits into a word, then it is the number of types. -/
theorem Numbered.lastNumber_eq (h : Numbered g₀ symbols g) (complete : g₀.Complete)
    (fits : g.lastNumber.toNat < wordValues 2) :
  g.typeCount < wordValues 2 ∧ g.lastNumber = UInt32.ofNat g.typeCount
  := by
  have small : g.typeCount < wordValues 2 := by
    apply Nat.lt_of_not_le
    intro many
    -- The type at this place would have a number that does not fit.
    have inside : wordValues 2 - 1 < g.emittedTypes.length :=
      Nat.lt_of_lt_of_le (by decide) many
    have found := List.getElem?_eq_getElem inside
    have number := h.numberOf_of_place complete found (by decide)
    have bound := numberOf_le_lastNumber (List.getElem_mem inside)
    rw [number] at bound
    exact Nat.not_lt_of_le bound fits
  have small' : g.typeCount < wordValues 4 := Nat.lt_trans small (by decide)
  refine ⟨small, UInt32.toNat_inj.mp ?_⟩
  rw [UInt32.toNat_ofNat_of_lt' small']
  apply Nat.le_antisymm
  · rw [lastNumber_le_iff]
    exact fun target emitted => (h.designates_numberOf complete small' emitted).2.1
  · cases count : g.typeCount with
    | zero => exact Nat.zero_le _
    | succ place =>
      have inside : place < g.emittedTypes.length :=
        Nat.lt_of_lt_of_eq (Nat.lt_succ_self _) count.symm
      have number := h.numberOf_of_place complete (List.getElem?_eq_getElem inside)
        (Nat.lt_of_le_of_lt inside small')
      rw [← number]
      exact numberOf_le_lastNumber (List.getElem_mem inside)

/-! ### Summaries -/

theorem Complete.kind_of_symbolClass? (complete : g₀.Complete) (listed : id ∈ g₀.allTypes)
    (hclass : (g₀.get id).symbolClass? = some .function) :
  (g₀.get id).kind = .function
  := by
  have regular := complete.regular id (complete.inside id listed)
  rwa [TypeRecord.Regular, hclass] at regular

/-- The record that a symbol has taken is of no kind only if it is a placeholder, in case the
symbol is that of a function. -/
theorem Numbered.isPlaceholder_of_function (h : Numbered g₀ symbols g) (complete : g₀.Complete)
    (mem : id ∈ g.functions) (kind : (g.get id).kind = .unknown) :
  g.IsPlaceholder id
  := by
  rcases h.taken_cases (c := .function) complete mem with
    ⟨placeholder, -⟩ | ⟨-, first, listed, hclass, same⟩
  · exact placeholder
  · rw [TypeRecord.field_of_unclaimed TypeRecord.kind (fun _ => rfl) same,
      complete.kind_of_symbolClass? listed hclass] at kind
    cases kind

theorem Numbered.objectNumber (h : Numbered g₀ symbols g) (complete : g₀.Complete)
    (small : g.typeCount < wordValues 4) (mem : id ∈ g.objects) {number : Nat}
    (refers : g.RefersTo id number) :
  g.ObjectNumber id number
  := by
  obtain ⟨target, reference, rfl⟩ := refers
  rcases h.taken_cases (c := .object) complete mem with ⟨placeholder, zero⟩ | ⟨genuine, -⟩
  · refine .inl ⟨placeholder, ?_⟩
    have itself := placeholder.2
    rw [reference] at itself
    cases itself
    rw [numberOf, zero]
    rfl
  · refine .inr ⟨genuine, target, reference, ?_⟩
    exact h.designates_mentioned complete small (.inr ⟨⟨.object, mem⟩, genuine⟩)
      (mem_mentioned_of_reference reference)

theorem Numbered.functionNumbers (h : Numbered g₀ symbols g) (complete : g₀.Complete)
    (small : g.typeCount < wordValues 4) (mem : id ∈ g.functions) {signature : Option Signature}
    (described : g.HasFunction id signature) :
  g.FunctionNumbers id signature
  := by
  cases signature with
  | none => exact h.isPlaceholder_of_function complete mem described
  | some s =>
    obtain ⟨kind, ⟨target, reference, returned⟩, arguments⟩ := described
    have genuine : ¬g.IsPlaceholder id := fun placeholder => kind placeholder.1
    have counts : g.Counts id := .inr ⟨⟨.function, mem⟩, genuine⟩
    refine ⟨genuine, ⟨target, reference, ?_⟩, ?_⟩
    · rw [returned]
      exact h.designates_mentioned complete small counts (mem_mentioned_of_reference reference)
    · rw [arguments, List.forall₂_map_left_iff, List.forall₂_same]
      exact fun m listed => h.designates_mentioned complete small counts
        (mem_mentioned_of_member (Array.mem_toList_iff.mp listed))

/-- What a type is built on is mentioned. -/
theorem mem_mentioned_of_component (mem : target ∈ g.components id) :
  target ∈ g.mentioned id
  := by
  have referred (here : target ∈ (g.get id).reference.toList) : target ∈ g.mentioned id :=
    mem_mentioned_of_reference (Option.mem_toList.mp here)
  have member (here : target ∈ (g.get id).members.toList.map Member.reference) :
      target ∈ g.mentioned id := by
    obtain ⟨m, listed, rfl⟩ := List.mem_map.mp here
    exact mem_mentioned_of_member (Array.mem_toList_iff.mp listed)
  rw [components] at mem
  cases kind : (g.get id).kind <;> simp only [kind] at mem
  case pointer | typedef | volatile | const | restrict => exact referred mem
  case struct | union => exact member mem
  case function => exact (List.mem_append.mp mem).elim referred member
  case array =>
    rcases List.mem_append.mp mem with here | indexType
    · exact referred here
    · exact mem_mentioned.mpr (.inr ⟨kind, Option.mem_toList.mp indexType⟩)
  all_goals cases mem

/-- The numbers in what a summary says about a type are those of its components. -/
theorem typeNumbers_eq {t : OutlinedType} (h : g.HasOutlinedType id t)
    (indexed : g.indexType = some target) :
  t.outline.typeNumbers = (g.components id).map g.numberOf
  := by
  obtain ⟨kind', outline⟩ := t
  have described := h.outline
  rw [components]
  cases outline with
  | number size encoding bits =>
    obtain ⟨kind | kind, -⟩ := described <;> simp only [kind] <;> rfl
  | enumeration size values =>
    obtain ⟨kind, -⟩ := described
    simp only [kind]
    rfl
  | reference number =>
    obtain ⟨kind, target', reference, rfl⟩ := described
    simp only [List.mem_cons, List.not_mem_nil, or_false] at kind
    rcases kind with kind | kind | kind | kind | kind <;> simp only [kind, reference] <;> rfl
  | array content index count =>
    obtain ⟨kind, ⟨target', reference, rfl⟩, rfl, -⟩ := described
    simp only [kind, reference, toNat_indexTypeNumber, indexed]
    rfl
  | function signature =>
    obtain ⟨kind, ⟨target', reference, returned⟩, arguments⟩ := described
    simp only [kind, reference, Outline.typeNumbers, returned, arguments, List.map_append,
      List.map_map]
    rfl
  | aggregate size parts =>
    obtain ⟨kind | kind, -, rfl⟩ := described <;>
      simp only [kind, Outline.typeNumbers, List.map_map] <;> rfl

/-- A summary that tells the numbers that a numbered graph holds is closed. -/
theorem Numbered.closed (h : Numbered g₀ symbols g) (complete : g₀.Complete)
    (small : g.typeCount < wordValues 4) {summary : Summary} (summarizes : summary.Summarizes g) :
  summary.Closed g
  := by
  constructor
  · apply (forall₂_and_mem summarizes.objects).imp
    rintro id number ⟨mem, refers⟩
    exact h.objectNumber complete small (Array.mem_toList_iff.mp mem) refers
  · apply (forall₂_and_mem summarizes.functions).imp
    rintro id signature ⟨mem, described⟩
    exact h.functionNumbers complete small (Array.mem_toList_iff.mp mem) described
  · apply (forall₂_and_mem summarizes.types).imp
    rintro id t ⟨emitted, described⟩
    have counts : g.Counts id := .inl ((g.mem_emittedTypes id).mp emitted).1
    obtain ⟨index, -, indexType, -⟩ := h.exists_indexType complete
    refine ⟨described.kind, ?_⟩
    rw [typeNumbers_eq described indexType, List.forall₂_map_left_iff, List.forall₂_same]
    exact fun target component =>
      h.designates_mentioned complete small counts (mem_mentioned_of_component component)

/-! ### Listings -/

theorem exists_outlinedType (known : (g.get id).kind ≠ .unknown)
    (refers : (g.get id).kind.needsReference → ∃ target, (g.get id).reference = some target) :
  ∃ t, g.HasOutlinedType id t
  := by
  have refersTo (needs : (g.get id).kind.needsReference) : ∃ number, g.RefersTo id number := by
    obtain ⟨target, reference⟩ := refers needs
    exact ⟨_, target, reference, rfl⟩
  suffices described : ∃ outline, g.HasOutline id outline by
    obtain ⟨outline, described⟩ := described
    exact ⟨⟨(g.get id).kind, outline⟩, rfl, described⟩
  cases kind : (g.get id).kind with
  | unknown => exact absurd kind known
  | integer => exact ⟨.number _ _ _, .inl kind, rfl, rfl, rfl⟩
  | float => exact ⟨.number _ _ _, .inr kind, rfl, rfl, rfl⟩
  | struct => exact ⟨.aggregate _ _, .inl kind, rfl, rfl⟩
  | union => exact ⟨.aggregate _ _, .inr kind, rfl, rfl⟩
  | enum => exact ⟨.enumeration _ _, kind, rfl, rfl⟩
  | pointer | typedef | volatile | const | restrict =>
    obtain ⟨number, refers⟩ := refersTo (by rw [kind]; rfl)
    exact ⟨.reference number, by rw [kind]; decide, refers⟩
  | array =>
    obtain ⟨number, refers⟩ := refersTo (by rw [kind]; rfl)
    exact ⟨.array number _ _, kind, refers, rfl, rfl⟩
  | function =>
    obtain ⟨number, refers⟩ := refersTo (by rw [kind]; rfl)
    exact ⟨.function ⟨number, _⟩, kind, refers, rfl⟩

/-- The numbers that a numbered graph holds make up a summary, whether or not they can be written
to a file. -/
theorem Numbered.exists_summary (h : Numbered g₀ symbols g) (complete : g₀.Complete) :
  ∃ summary : Summary, summary.Summarizes g
  := by
  have taken (c : SymbolClass) (id : TypeId) (mem : id ∈ (g.taken c).toList) :
      ∃ number, g.RefersTo id number := by
    obtain ⟨target, reference⟩ := h.taken_refers complete (Array.mem_toList_iff.mp mem)
    exact ⟨_, target, reference, rfl⟩
  obtain ⟨objects, hobjects⟩ := exists_forall₂_of_mem (taken .object)
  obtain ⟨functions, hfunctions⟩ : ∃ signatures, List.Forall₂ g.HasFunction g.functions.toList
      signatures := by
    apply exists_forall₂_of_mem
    intro id mem
    by_cases unknown : (g.get id).kind = .unknown
    · exact ⟨none, unknown⟩
    · obtain ⟨number, refers⟩ := taken .function id mem
      exact ⟨some ⟨number, _⟩, unknown, refers, rfl⟩
  obtain ⟨types, htypes⟩ : ∃ types, List.Forall₂ g.HasOutlinedType g.emittedTypes types := by
    apply exists_forall₂_of_mem
    intro id emitted
    rw [h.emittedTypes_eq] at emitted
    exact exists_outlinedType (h.kind_ne_unknown complete emitted) (h.refers complete emitted)
  exact ⟨⟨objects, functions, types⟩, hobjects, hfunctions, htypes⟩

/-- The taken functions without a line are those of no kind. -/
theorem Numbered.isSilent_iff (h : Numbered g₀ symbols g) (complete : g₀.Complete)
    (mem : id ∈ g.functions) :
  isSilent (g.get id) = true ↔ (g.get id).kind = .unknown
  := by
  rw [isSilent, Bool.and_eq_true, decide_eq_true_iff, decide_eq_true_iff]
  refine ⟨And.left, fun unknown => ⟨unknown, ?_⟩⟩
  obtain ⟨s, record⟩ := h.exists_symbol (c := .function) mem
  rw [recordFor] at record
  split at record
  next first found =>
    obtain ⟨listed, hclass, -⟩ := of_firstNamed? found
    have function : (g.get id).kind = .function := by
      rw [record]
      exact complete.kind_of_symbolClass? listed hclass
    rw [function] at unknown
    cases unknown
  next =>
    rw [record]
    rfl

/-- The listing of a numbered graph is made of a summary that tells the numbers that it holds. -/
theorem Numbered.listing_eq_listing (h : Numbered g₀ symbols g) (complete : g₀.Complete)
    (small : g.typeCount < wordValues 4) {summary : Summary} (summarizes : summary.Summarizes g) :
  g.listing = summary.listing (g.captions g.objects.toList) (g.captions g.functions.toList)
    (g.captions g.emittedTypes)
  := by
  apply listing_eq_of_lines
  · apply map_zipIdx_eq_captioned _ _ _ (fun id => (g.get id).caption) summarizes.objects
    exact fun place id number _ refers => objectLine_eq refers (place + 1)
  · apply map_zipIdx_eq_captioned _ _ _ (fun id => (g.get id).caption)
      (forall₂_and_mem summarizes.functions)
    rintro place id signature - ⟨mem, described⟩
    exact functionLine_eq (h.isSilent_iff complete (Array.mem_toList_iff.mp mem)) described
      (place + 1)
  · rw [map_eq_map_zipIdx]
    apply map_zipIdx_eq_captioned (fun id _ => g.typeLines id) _ _ (fun id => (g.get id).caption)
      summarizes.types
    intro place id t found described
    -- The number of a type is its place, since there are so few of them.
    have inside : place < g.typeCount := (List.getElem?_eq_some_iff.mp found).1
    apply typeLines_eq described
    apply h.numberOf_of_place complete found
    exact Nat.lt_of_le_of_lt inside small

/-! ### Sections -/

/-- In the sections that encode a numbered graph, the label is followed by the number of types. -/
theorem Numbered.labels_eq (h : Numbered g₀ symbols g) (complete : g₀.Complete) {label : String}
    {o : ByteOrder} {s : Sections} (encoded : g.sections label o = .ok s) :
  g.typeCount < wordValues 2
    ∧ s.labels = o.u32 ((StringTable.ofTexts (g.texts label)).offset (some label))
      ++ o.u32 (UInt32.ofNat g.typeCount)
  := by
  obtain ⟨word, fits, encoded⟩ := ok_of_bind encoded
  obtain ⟨objects, -, encoded⟩ := ok_of_bind encoded
  obtain ⟨functions, -, encoded⟩ := ok_of_bind encoded
  obtain ⟨types, -, encoded⟩ := ok_of_bind encoded
  cases encoded
  have small : g.lastNumber.toNat < wordValues 2 := by
    rw [← toNat_typeWord fits]
    exact word.toNat_lt
  obtain ⟨few, last⟩ := h.lastNumber_eq complete small
  exact ⟨few, by rw [last]⟩

end Graph

namespace Dwarf.Sections

/-- In a graph that has been decoded without an error, whatever a record mentions has a place in
the output, and types are numbered by their places.  So, as long as 32 bits can count the types, the
listing is made of a summary in which every number of a type designates a type.  If there is an
encoding, then its sections have such a summary too, and its label names the number of types as the
last number. -/
theorem closed_withSymbols (s : Sections) (decoded : (s.decode .empty).error = none)
    (symbols : List Symbol) :
  let g := (s.decode .empty).graph.withSymbols symbols
  (∀ id, g.Counts id → ∀ target ∈ g.mentioned id, target ∈ g.emittedTypes)
  ∧ (∀ (place : Nat) (target : TypeId), g.emittedTypes[place]? = some target →
    (g.get target).index = UInt32.ofNat (place + 1))
  ∧ (g.typeCount < wordValues 4 → ∃ summary : Ctf.Summary, summary.Closed g
    ∧ g.listing = summary.listing (g.captions g.objects.toList) (g.captions g.functions.toList)
      (g.captions g.emittedTypes))
  ∧ ∀ (label : String) (o : ByteOrder) (sections : Ctf.Sections),
    g.sections label o = .ok sections →
      g.typeCount < wordValues 2
      ∧ sections.labels = o.u32 ((Ctf.StringTable.ofTexts (g.texts label)).offset (some label))
        ++ o.u32 (UInt32.ofNat g.typeCount)
      ∧ ∃ summary, sections.summary? o = some summary ∧ summary.Closed g
  := by
  intro g
  have complete := complete_decode decoded
  have numbered : Graph.Numbered _ symbols g := complete.numbered symbols
  refine ⟨?_, ?_, ?_, ?_⟩
  · exact fun id counts target mem => numbered.mem_emittedTypes_of_mentioned complete counts mem
  · exact fun place target found => numbered.index_of_place complete found
  · intro small
    obtain ⟨summary, summarizes⟩ := numbered.exists_summary complete
    exact ⟨summary, numbered.closed complete small summarizes,
      numbered.listing_eq_listing complete small summarizes⟩
  · intro label o sections encoded
    obtain ⟨few, labels⟩ := numbered.labels_eq complete encoded
    obtain ⟨summary, read, summarizes⟩ := Graph.summarizes_sections encoded
    have small : g.typeCount < wordValues 4 := Nat.lt_trans few (by decide)
    exact ⟨few, labels, summary, read, numbered.closed complete small summarizes⟩

/-- The six types of the sample unit, and a function and a variable of which each stands beside a
symbol without type information. -/
theorem closed_withSymbols_sampleUnit :
  let symbols : List Symbol := [⟨1, "f", .function, .defined⟩, ⟨2, "g", .function, .defined⟩,
    ⟨3, "v", .object, .defined⟩, ⟨4, "w", .object, .defined⟩]
  let g := (sampleUnit.decode .empty).graph.withSymbols symbols
  (sampleUnit.decode .empty).error = none ∧ g.typeCount = 6
  ∧ (∃ summary : Ctf.Summary, summary.Closed g
    ∧ g.listing = summary.listing (g.captions g.objects.toList) (g.captions g.functions.toList)
      (g.captions g.emittedTypes))
  ∧ ∃ sections summary, g.sections "l" .little = .ok sections
    ∧ sections.summary? .little = some summary ∧ summary.Closed g
    ∧ summary.objects = [6, 0] ∧ summary.functions = [some ⟨3, [4]⟩, none]
    ∧ summary.types.map (fun t => t.outline.typeNumbers) = [[], [], [], [5], [4], [3, 2]]
  := by
  intro symbols g
  obtain ⟨-, -, shown, written⟩ := closed_withSymbols sampleUnit decode_sampleUnit symbols
  have count : g.typeCount = 6 := by decide +kernel
  have small : g.typeCount < wordValues 4 := by
    rw [count]
    decide
  have encoded : (g.sections "l" .little).isOk = true := by decide +kernel
  obtain ⟨sections, hsections⟩ := exists_of_isOk encoded
  obtain ⟨-, -, summary, read, closed⟩ := written "l" .little sections hsections
  -- What is read from the sections, evaluated.
  have numbers : ((g.sections "l" .little).toOption.bind (·.summary? .little)).map
      (fun s => (s.objects, s.functions, s.types.map fun t => t.outline.typeNumbers))
      = some ([6, 0], [some ⟨3, [4]⟩, none], [[], [], [], [5], [4], [3, 2]]) := by
    decide +kernel
  rw [hsections] at numbers
  have numbers : (sections.summary? .little).map
      (fun s => (s.objects, s.functions, s.types.map fun t => t.outline.typeNumbers)) = _ := numbers
  rw [read, Option.map_some, Option.some.injEq, Prod.mk.injEq, Prod.mk.injEq] at numbers
  exact ⟨decode_sampleUnit, count, shown small, sections, summary, hsections, read, closed, numbers⟩

end Dwarf.Sections

end CompactTypes

import CompactTypes.Proofs.Ctf.Summary
import CompactTypes.Proofs.Listing

/-!
# Listings of summaries

What a summary does not say about a record is in its `Caption`: the name, the encoding, and which
symbol has taken the record.  `Ctf.Summary.listing` is the listing that a summary and captions make
up.  If what a summary says about a record is what the record says, then the lines of the record are
those of its entry in the summary.
-/

namespace CompactTypes

/-! ### Listings of files -/

/-- What a listing says about a record besides the numbers that are in a file. -/
structure Caption where
  name : Option String
  encoding : UInt16
  /-- The position of the symbol that took the record. -/
  slot : Nat
  members : List (Option String)
  deriving DecidableEq, Repr, Inhabited

/-- The caption of a record. -/
def TypeRecord.caption (r : TypeRecord) : Caption :=
  ⟨r.name, r.encoding, r.symbolSlot, r.members.toList.map Member.name⟩

/-- One text for each entry, with the caption at its place.  The entries are counted from one. -/
def captioned {α γ : Type} [Inhabited γ] (text : γ → Nat → α → String) (captions : List γ)
    (entries : List α) : List String :=
  entries.zipIdx.map fun entry => text (captions[entry.2]?.getD default) (entry.2 + 1) entry.1

namespace Caption

open Ctf

/-- The numbers of the types of arguments, with the bracket that closes their list. -/
def argumentList (numbers : List Nat) : String :=
  String.intercalate ", " (numbers.map toString) ++ ")\n"

/-- The line of the object at a place, by the number of its type. -/
def objectText (c : Caption) (place number : Nat) : String :=
  let front := "  [" ++ toString place ++ "] " ++ toString number
  let width := front.length
  let padding := (objectColumn - width) + (width - objectColumn)
  front ++ String.ofList (List.replicate padding ' ') ++ " " ++ c.name.getD "(anon)" ++ " ("
    ++ toString c.slot ++ ")\n"

/-- The line of the function at a place, by its signature.  A placeholder has no line. -/
def functionText (c : Caption) (place : Nat) : Option Signature → String
  | none => ""
  | some s =>
    "  [" ++ toString place ++ "] FUNC (" ++ c.name.getD "unknown" ++ ") returns: "
      ++ toString s.returned ++ " args: (" ++ argumentList s.arguments

/-- The line of a member with a given name. -/
def memberText (name : Option String) (_place : Nat) (part : Part) : String :=
  "\t" ++ name.getD "unknown" ++ " type=" ++ toString part.type ++ " off=" ++ toString part.offset
    ++ "\n"

/-- The lines of the type at a place. -/
def typeText (c : Caption) (place : Nat) (t : OutlinedType) : String :=
  let name := c.name.getD "(anon)"
  let square := "  [" ++ toString place ++ "] " ++ kindWord t.kind ++ " "
  let angle := "  <" ++ toString place ++ "> " ++ kindWord t.kind ++ " "
  match t.outline with
  | .number _ _ bits =>
    square ++ name ++ " encoding=" ++ encodingName c.encoding ++ " offset=0 bits="
      ++ toString bits ++ "\n"
  | .reference target => angle ++ name ++ " refers to " ++ toString target ++ "\n"
  | .array content index count =>
    square ++ name ++ " content: " ++ toString content ++ " index: " ++ toString index
      ++ " nelems: " ++ toString count ++ "\n\n"
  | .aggregate size parts =>
    square ++ name ++ " (" ++ toString size ++ " bytes)\n"
      ++ String.join (captioned memberText c.members parts) ++ "\n"
  | .enumeration _ _ => square ++ name ++ "\n\n"
  | .function s =>
    square ++ "(" ++ c.name.getD "anon" ++ ") returns: " ++ toString s.returned ++ " args: ("
      ++ argumentList s.arguments

end Caption

/-- The listing of a file whose objects, functions and types have the given captions. -/
def Ctf.Summary.listing (summary : Ctf.Summary) (objects functions types : List Caption) :
    Listing :=
  ⟨String.join (captioned Caption.objectText objects summary.objects) ++ "\n"
    ++ String.join (captioned Caption.functionText functions summary.functions) ++ "\n"
    ++ String.join (captioned Caption.typeText types summary.types), none⟩

/-- The captions of records. -/
def Graph.captions (g : Graph) (ids : List TypeId) : List Caption :=
  ids.map fun id => (g.get id).caption

/-! ### Entries with captions -/

section

variable {α β γ δ : Type} [Inhabited γ]

theorem getElem?_captioned (text : γ → Nat → α → String) (captions : List γ) (entries : List α)
    (place : Nat) :
  (captioned text captions entries)[place]?
    = entries[place]?.map (text (captions[place]?.getD default) (place + 1))
  := by
  rw [captioned, List.getElem?_map, List.getElem?_zipIdx, Option.map_map, Nat.zero_add]
  rfl

/-- Lines that are counted from one are the texts of entries, if each of them is. -/
theorem map_zipIdx_eq_captioned {R : β → α → Prop} (line : β → Nat → δ) (made : String → δ)
    (text : γ → Nat → α → String) (caption : β → γ) {items : List β} {entries : List α}
    (related : List.Forall₂ R items entries)
    (each : ∀ place item entry, items[place]? = some item → R item entry →
      line item (place + 1) = made (text (caption item) (place + 1) entry)) :
  (items.zipIdx 1).map (fun item => line item.1 item.2)
    = (captioned text (items.map caption) entries).map made
  := by
  apply List.ext_getElem?
  intro place
  rw [List.getElem?_map, List.getElem?_zipIdx, List.getElem?_map, getElem?_captioned,
    List.getElem?_map]
  cases found : items[place]? with
  | none =>
    have outside : entries[place]? = none := by
      rw [List.getElem?_eq_none_iff] at found ⊢
      rwa [← related.length_eq]
    rw [outside]
    rfl
  | some item =>
    obtain ⟨entry, found', holds⟩ := exists_getElem?_of_forall₂ related found
    rw [found']
    simp only [Option.map_some, Option.getD_some, Nat.add_comm 1 place]
    rw [each place item entry found holds]

theorem map_eq_map_zipIdx (f : β → δ) (items : List β) :
  items.map f = (items.zipIdx 1).map fun item => f item.1
  := by
  conv_lhs => rw [← List.zipIdx_map_fst 1 items, List.map_map]
  rfl

end

namespace Graph

open Ctf

variable {g : Graph} {id : TypeId}

/-! ### Lines -/

theorem objectLine_eq {number : Nat} (refers : g.RefersTo id number) (place : Nat) :
  g.objectLine id place = .ok ((g.get id).caption.objectText place number)
  := by
  obtain ⟨target, reference, rfl⟩ := refers
  rw [objectLine, referencedNumber_ok reference]
  rfl

theorem argumentText_eq (r : TypeRecord) :
  g.argumentText r = Caption.argumentList (r.members.toList.map fun m => g.numberOf m.reference)
  := by
  rw [argumentText, Caption.argumentList, List.map_map]
  rfl

theorem functionLine_eq {signature : Option Signature}
    (silent : isSilent (g.get id) = true ↔ (g.get id).kind = .unknown)
    (described : g.HasFunction id signature) (place : Nat) :
  g.functionLine id place = .ok ((g.get id).caption.functionText place signature)
  := by
  rw [functionLine]
  cases signature with
  | none =>
    have unknown : (g.get id).kind = .unknown := described
    rw [if_pos (silent.mpr unknown)]
    rfl
  | some s =>
    obtain ⟨known, ⟨target, reference, returned⟩, arguments⟩ := described
    rw [if_neg (mt silent.mp known), referencedNumber_ok reference, argumentText_eq, ← arguments,
      Caption.functionText, returned]
    rfl

theorem memberLines_eq (r : TypeRecord) :
  r.members.toList.map g.memberLine
    = captioned Caption.memberText (r.members.toList.map Member.name)
      (r.members.toList.map g.partOf)
  := by
  have same : List.Forall₂ (fun m part => part = g.partOf m) r.members.toList
      (r.members.toList.map g.partOf) := by
    rw [List.forall₂_map_right_iff, List.forall₂_same]
    exact fun _ _ => rfl
  rw [map_eq_map_zipIdx, ← List.map_id (captioned _ _ _)]
  apply map_zipIdx_eq_captioned (fun m _ => g.memberLine m) id Caption.memberText Member.name same
  rintro place m part - rfl
  rfl

/-- The lines of a type are those of what the numbers in a file say about it. -/
theorem typeLines_eq {t : OutlinedType} (h : g.HasOutlinedType id t) {place : Nat}
    (number : g.numberOf id = place) :
  g.typeLines id = .ok ((g.get id).caption.typeText place t)
  := by
  obtain ⟨kind', outline⟩ := t
  obtain ⟨same, described⟩ := h
  have same : kind' = (g.get id).kind := same
  subst same number
  cases outline with
  | number size encoding bits =>
    obtain ⟨kind, -, -, rfl⟩ := described
    rcases kind with kind | kind <;> simp only [typeLines, kind] <;> rfl
  | reference target =>
    obtain ⟨kind, target', reference, rfl⟩ := described
    simp only [List.mem_cons, List.not_mem_nil, or_false] at kind
    rcases kind with kind | kind | kind | kind | kind <;>
      simp only [typeLines, kind, referencedNumber_ok reference] <;> rfl
  | array content index count =>
    obtain ⟨kind, ⟨target, reference, rfl⟩, rfl, rfl⟩ := described
    simp only [typeLines, kind, referencedNumber_ok reference]
    rfl
  | function s =>
    obtain ⟨kind, ⟨target, reference, returned⟩, arguments⟩ := described
    simp only [typeLines, kind, referencedNumber_ok reference, argumentText_eq, ← arguments,
      Caption.typeText, returned]
    rfl
  | aggregate size parts =>
    obtain ⟨kind, rfl, rfl⟩ := described
    rcases kind with kind | kind <;> simp only [typeLines, kind, memberLines_eq] <;> rfl
  | enumeration size values =>
    obtain ⟨kind, -, -⟩ := described
    simp only [typeLines, kind]
    rfl

end Graph

end CompactTypes

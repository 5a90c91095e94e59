import CompactTypes.Listing
import CompactTypes.Proofs.Results

/-!
# Listings that stop

The listing of a graph shows its `Graph.listedItems` in order.  An item that has an `obstacle?`
cannot be shown: it lacks a reference, or it is a type of no kind.  The listing stops at the first
such item, and what has been written up to there are the complete lines of all items in front of
it, `Graph.listing_stops`.  This holds although the lines of an item are written piece by piece,
`Graph.writes`, since whatever can be missing is looked up in front of the first piece.
-/

namespace CompactTypes

/-- What a listing shows. -/
inductive ListedItem where
  /-- The object with a place in the list of objects. -/
  | object (id : TypeId) (place : Nat)
  /-- The function with a place in the list of functions. -/
  | function (id : TypeId) (place : Nat)
  | type (id : TypeId)
  /-- The empty line after the objects, or after the functions. -/
  | emptyLine
  deriving DecidableEq, Repr, Inhabited

/-! ### Items one after the other -/

namespace Listing

/-- A listing whose items can all be shown is their concatenation. -/
theorem ofItems_ok (texts : List String) :
  ofItems (texts.map .ok) = ⟨String.join texts, none⟩
  := by
  have all : shown (texts.map .ok) = (texts, none) := by
    induction texts with
    | nil => rfl
    | cons text texts ih => rw [List.map_cons, shown, ih]
  rw [ofItems, all]

/-- Items that can all be shown are texts. -/
theorem exists_texts {items : List (Except Error String)}
    (h : ∀ item ∈ items, ∃ text, item = .ok text) :
  ∃ texts : List String, items = texts.map .ok
  := by
  induction items with
  | nil => exact ⟨[], rfl⟩
  | cons item items ih =>
    obtain ⟨⟨text, rfl⟩, others⟩ := List.forall_mem_cons.mp h
    obtain ⟨texts, rfl⟩ := ih others
    exact ⟨text :: texts, rfl⟩

/-- Items after texts are listed after them. -/
theorem ofItems_append (texts : List String) (items : List (Except Error String)) :
  ofItems (texts.map .ok ++ items)
    = ⟨String.join texts ++ (ofItems items).text, (ofItems items).error⟩
  := by
  have all : shown (texts.map .ok ++ items) = (texts ++ (shown items).1, (shown items).2) := by
    induction texts with
    | nil => rfl
    | cons text texts ih => rw [List.map_cons, List.cons_append, shown, ih, List.cons_append]
  simp only [ofItems, all, String.join_append]

/-- Nothing is listed from an item on that cannot be shown. -/
theorem ofItems_error (texts : List String) (e : Error) (items : List (Except Error String)) :
  ofItems (texts.map .ok ++ .error e :: items) = ⟨String.join texts, some e⟩
  := by
  rw [ofItems_append]
  exact congrArg (Listing.mk · (some e)) String.append_empty

/-- Of texts that are written one after the other, either all can be written and make up what is
shown, or the first one cannot. -/
inductive Whole : List (Except Error String) → Except Error String → Prop where
  | shown (texts : List String) : Whole (texts.map .ok) (.ok (String.join texts))
  | stopped (e : Error) (texts : List (Except Error String)) : Whole (.error e :: texts) (.error e)

theorem whole_texts (texts : List String) {text : String} (same : text = String.join texts) :
  Whole (texts.map .ok) (.ok text)
  := same ▸ .shown texts

theorem whole_single (item : Except Error String) :
  Whole [item] item
  := by
  cases item with
  | error e => exact .stopped e []
  | ok text => exact whole_texts [text] (by simp)

/-- Only the first of some texts depends on a number that may be missing. -/
theorem whole_looked {number : Except Error UInt32} {first whole : UInt32 → String}
    (texts : List String) (same : ∀ n, whole n = first n ++ String.join texts) :
  Whole (number.map first :: texts.map .ok) (number.map whole)
  := by
  cases number with
  | error e => exact .stopped e _
  | ok n => exact whole_texts (first n :: texts) (by simp [same])

/-- A listing whose items are written piece by piece is the same as if each of them was written at
once. -/
theorem ofItems_flatMap {α : Type} {items : List α} {pieces : α → List (Except Error String)}
    {lines : α → Except Error String} (whole : ∀ item ∈ items, Whole (pieces item) (lines item)) :
  ofItems (items.flatMap pieces) = ofItems (items.map lines)
  := by
  induction items with
  | nil => rfl
  | cons item items ih =>
    obtain ⟨here, others⟩ := List.forall_mem_cons.mp whole
    rw [List.flatMap_cons, List.map_cons]
    generalize pieces item = written at here ⊢
    generalize lines item = line at here ⊢
    cases here with
    | shown texts =>
      have once := ofItems_append [String.join texts] (items.map lines)
      rw [List.map_singleton, List.singleton_append, String.join_cons, String.join_nil,
        String.append_empty] at once
      rw [ofItems_append, once, ih others]
    | stopped e rest => rfl

end Listing

namespace Graph

variable {g : Graph} {id target : TypeId}

/-! ### Lines -/

theorem referencedNumber_ok (h : (g.get id).reference = some target) :
  g.referencedNumber id = .ok (g.get target).index
  := by
  rw [referencedNumber, referenced, h]
  rfl

theorem objectLine_ok (h : (g.get id).reference = some target) (place : Nat) :
  ∃ text, g.objectLine id place = .ok text
  := by
  rw [objectLine, referencedNumber_ok h]
  exact ⟨_, rfl⟩

theorem functionLine_ok (h : (g.get id).reference = some target) (place : Nat) :
  ∃ text, g.functionLine id place = .ok text
  := by
  rw [functionLine, referencedNumber_ok h]
  split <;> exact ⟨_, rfl⟩

/-- A type of some kind can be shown if it refers to another type in case it has to. -/
theorem typeLines_ok (kind : (g.get id).kind ≠ .unknown)
    (refers : (g.get id).kind.needsReference → ∃ target, (g.get id).reference = some target) :
  ∃ text, g.typeLines id = .ok text
  := by
  cases hkind : (g.get id).kind with
  | unknown => exact absurd hkind kind
  | integer | float | struct | union | enum =>
    simp only [typeLines, hkind]
    exact ⟨_, rfl⟩
  | pointer | typedef | volatile | const | restrict | array | function =>
    obtain ⟨target, reference⟩ := refers (by rw [hkind]; rfl)
    simp only [typeLines, hkind, referencedNumber_ok reference]
    exact ⟨_, rfl⟩

theorem numberedLines_ok {line : TypeId → Nat → Except Error String} {ids : List TypeId}
    (h : ∀ id ∈ ids, ∀ place, ∃ text, line id place = .ok text) :
  ∃ texts : List String, numberedLines line ids = texts.map .ok
  := by
  apply Listing.exists_texts
  intro item mem
  obtain ⟨⟨id, place⟩, listed, rfl⟩ := List.mem_map.mp mem
  exact h id (List.fst_mem_of_mem_zipIdx listed) place

/-- If all lines can be shown, then the listing consists of them. -/
theorem listing_eq_of_lines {objects functions types : List String}
    (hobjects : numberedLines g.objectLine g.objects.toList = objects.map .ok)
    (hfunctions : numberedLines g.functionLine g.functions.toList = functions.map .ok)
    (htypes : g.emittedTypes.map g.typeLines = types.map .ok) :
  g.listing = ⟨String.join objects ++ "\n" ++ String.join functions ++ "\n" ++ String.join types,
    none⟩
  := by
  have items : g.listingItems
      = (objects ++ ["\n"] ++ functions ++ ["\n"] ++ types).map .ok := by
    rw [listingItems, htypes, hobjects, hfunctions]
    simp only [List.map_append, List.map_cons, List.map_nil]
  rw [listing, items, Listing.ofItems_ok]
  simp only [String.join_append, String.join_cons, String.join_nil, String.append_empty]

/-! ### What is listed -/

/-- What the listing shows, in order. -/
def listedItems (g : Graph) : List ListedItem :=
  (g.objects.toList.zipIdx 1).map (fun entry => .object entry.1 entry.2)
    ++ [.emptyLine]
    ++ (g.functions.toList.zipIdx 1).map (fun entry => .function entry.1 entry.2)
    ++ [.emptyLine]
    ++ g.emittedTypes.map .type

/-- The lines of an item. -/
def linesOf (g : Graph) : ListedItem → Except Error String
  | .object id place => g.objectLine id place
  | .function id place => g.functionLine id place
  | .type id => g.typeLines id
  | .emptyLine => .ok "\n"

theorem listingItems_eq (g : Graph) :
  g.listingItems = g.listedItems.map g.linesOf
  := by
  simp only [listingItems, listedItems, numberedLines, List.map_append, List.map_map,
    List.map_cons, List.map_nil]
  rfl

/-! ### Obstacles -/

/-- The error about a record that refers to no other one. -/
def missingReference? (g : Graph) (id : TypeId) : Option Error :=
  if (g.get id).reference = none then
    some (.unresolvedReference (g.get id).kind (g.get id).name)
  else none

/-- Why an item cannot be shown.  Objects have to refer to a type, and so do functions that have a
line, and types of the kinds that are built on another one; and a type has to be of some kind. -/
def obstacle? (g : Graph) : ListedItem → Option Error
  | .object id _ => g.missingReference? id
  | .function id _ => if isSilent (g.get id) then none else g.missingReference? id
  | .type id =>
    if (g.get id).kind = .unknown then some (.unexpectedKind .unknown)
    else if (g.get id).kind.needsReference then g.missingReference? id
    else none
  | .emptyLine => none

theorem exists_reference (h : g.missingReference? id = none) :
  ∃ target, (g.get id).reference = some target
  := by
  rw [missingReference?] at h
  split at h
  next => cases h
  next found => exact Option.ne_none_iff_exists'.mp found

theorem referencedNumber_error {e : Error} (h : g.missingReference? id = some e) :
  g.referencedNumber id = .error e
  := by
  rw [missingReference?] at h
  split at h
  next missing =>
    cases h
    rw [referencedNumber, referenced, missing]
    rfl
  next => cases h

/-- An item without an obstacle can be shown. -/
theorem linesOf_ok {item : ListedItem} (h : g.obstacle? item = none) :
  ∃ text, g.linesOf item = .ok text
  := by
  cases item with
  | object id place =>
    obtain ⟨target, reference⟩ := exists_reference h
    exact objectLine_ok reference place
  | function id place =>
    rw [obstacle?] at h
    split at h
    next silent => exact ⟨"", if_pos silent⟩
    next =>
      obtain ⟨target, reference⟩ := exists_reference h
      exact functionLine_ok reference place
  | type id =>
    rw [obstacle?] at h
    split at h
    next => cases h
    next kind =>
      apply typeLines_ok kind
      intro needs
      rw [if_pos needs] at h
      exact exists_reference h
  | emptyLine => exact ⟨_, rfl⟩

/-- The obstacle of an item is the error that is met instead of its lines. -/
theorem linesOf_error {item : ListedItem} {e : Error} (h : g.obstacle? item = some e) :
  g.linesOf item = .error e
  := by
  cases item with
  | object id place =>
    rw [linesOf, objectLine, referencedNumber_error h]
    rfl
  | function id place =>
    rw [obstacle?] at h
    split at h
    next => cases h
    next shown =>
      rw [linesOf, functionLine, if_neg shown, referencedNumber_error h]
      rfl
  | type id =>
    rw [linesOf]
    cases kind : (g.get id).kind with
    | unknown =>
      rw [obstacle?, if_pos kind] at h
      cases h
      simp only [typeLines, kind]
      rfl
    | integer | float | struct | union | enum =>
      simp [obstacle?, kind, TypeKind.needsReference] at h
    | pointer | typedef | volatile | const | restrict | array | function =>
      simp only [obstacle?, kind, TypeKind.needsReference, reduceCtorEq, if_true, if_false] at h
      simp only [typeLines, kind, referencedNumber_error h]
      rfl
  | emptyLine => cases h

/-! ### Pieces -/

/-- The pieces in which the lines of a type are written. -/
def typeWrites (g : Graph) (id : TypeId) : List (Except Error String) :=
  let r := g.get id
  let name := r.name.getD "(anon)"
  let square := "  [" ++ numberText r.index ++ "] " ++ kindWord r.kind ++ " "
  match r.kind with
  | .array =>
    [(g.referencedNumber id).map fun target => square ++ name ++ " content: " ++ numberText target
      ++ " index: " ++ numberText g.indexTypeNumber ++ " nelems: "
      ++ toString r.elementCount.toNat ++ "\n",
      .ok "\n"]
  | .struct | .union =>
    let first := square ++ name ++ " (" ++ toString r.size.toNat ++ " bytes)\n"
    (first :: r.members.toList.map g.memberLine ++ ["\n"]).map .ok
  | .enum =>
    [.ok (square ++ name ++ "\n"), .ok "\n"]
  | .function =>
    [(g.referencedNumber id).map fun target => square ++ "(" ++ r.name.getD "anon"
      ++ ") returns: " ++ numberText target ++ " args: (",
      .ok (g.argumentText r)]
  | .integer | .float | .pointer | .typedef | .volatile | .const | .restrict | .unknown =>
    [g.typeLines id]

/-- The pieces in which the lines of an item are written, one after the other.  What a piece shows
is looked up before the piece is written, but after the pieces in front of it. -/
def writes (g : Graph) : ListedItem → List (Except Error String)
  | .object id place => [g.objectLine id place]
  | .function id place =>
    let r := g.get id
    if isSilent r then
      []
    else
      [(g.referencedNumber id).map fun target => "  [" ++ toString place ++ "] FUNC ("
        ++ r.name.getD "unknown" ++ ") returns: " ++ numberText target ++ " args: (",
        .ok (g.argumentText r)]
  | .type id => g.typeWrites id
  | .emptyLine => [.ok "\n"]

open Listing in
theorem whole_typeWrites (g : Graph) (id : TypeId) :
  Whole (g.typeWrites id) (g.typeLines id)
  := by
  cases kind : (g.get id).kind with
  | integer | float | pointer | typedef | volatile | const | restrict | unknown =>
    simp only [typeWrites, kind]
    exact whole_single _
  | array =>
    simp only [typeWrites, typeLines, kind]
    exact whole_looked ["\n"] fun n => by simp [String.append_assoc]
  | function =>
    simp only [typeWrites, typeLines, kind]
    exact whole_looked [g.argumentText (g.get id)] fun n => by simp
  | struct | union =>
    simp only [typeWrites, typeLines, kind]
    exact whole_texts _ (by simp [String.append_assoc])
  | enum =>
    simp only [typeWrites, typeLines, kind]
    exact whole_texts [_, "\n"] (by simp [String.append_assoc])

/-- The pieces of an item make up its lines, or the first of them cannot be written. -/
theorem whole_writes (g : Graph) (item : ListedItem) :
  Listing.Whole (g.writes item) (g.linesOf item)
  := by
  cases item with
  | object id place => exact Listing.whole_single _
  | function id place =>
    rw [writes, linesOf, functionLine]
    split
    next silent => exact .shown []
    next => exact Listing.whole_looked [g.argumentText (g.get id)] fun n => by simp
  | type id => exact g.whole_typeWrites id
  | emptyLine => exact Listing.whole_single _

/-- The listing is what is written piece by piece up to the first look-up that fails.  Either no
item has an obstacle, the listing ends without an error and it consists of the lines of all items;
or it ends with the obstacle of the first item that has one, and it consists of the lines of the
items in front of this one.  So no part of an item that cannot be shown is ever written. -/
theorem listing_stops (g : Graph) :
  g.listing = .ofItems (g.listedItems.flatMap g.writes)
  ∧ (((∀ item ∈ g.listedItems, g.obstacle? item = none)
      ∧ g.listing.error = none
      ∧ ∃ texts, List.Forall₂ (fun item text => g.linesOf item = .ok text) g.listedItems texts
        ∧ g.listing.text = String.join texts)
    ∨ ∃ front item back e, g.listedItems = front ++ item :: back
      ∧ (∀ other ∈ front, g.obstacle? other = none) ∧ g.obstacle? item = some e
      ∧ g.listing.error = some e
      ∧ ∃ texts, List.Forall₂ (fun item text => g.linesOf item = .ok text) front texts
        ∧ g.listing.text = String.join texts)
  := by
  have listing_eq : g.listing = .ofItems (g.listedItems.map g.linesOf) := by
    rw [listing, listingItems_eq]
  have written : g.listing = .ofItems (g.listedItems.flatMap g.writes) := by
    rw [listing_eq, Listing.ofItems_flatMap fun item _ => g.whole_writes item]
  have shown {front : List ListedItem} (free : ∀ item ∈ front, g.obstacle? item = none) :
      ∃ texts : List String, front.map g.linesOf = texts.map .ok
        ∧ List.Forall₂ (fun item text => g.linesOf item = .ok text) front texts := by
    have succeed : ∀ lines ∈ front.map g.linesOf, ∃ text, lines = .ok text :=
      List.forall_mem_map.mpr fun item mem => linesOf_ok (free item mem)
    obtain ⟨texts, lines⟩ := Listing.exists_texts succeed
    refine ⟨texts, lines, ?_⟩
    rw [← List.forall₂_eq_eq_eq, List.forall₂_map_left_iff, List.forall₂_map_right_iff] at lines
    exact lines
  refine ⟨written, ?_⟩
  cases first : g.listedItems.find? fun item => (g.obstacle? item).isSome with
  | none =>
    have free (item : ListedItem) (mem : item ∈ g.listedItems) : g.obstacle? item = none := by
      simpa using List.find?_eq_none.mp first item mem
    obtain ⟨texts, lines, all⟩ := shown free
    rw [listing_eq, lines, Listing.ofItems_ok]
    exact .inl ⟨free, rfl, texts, all, rfl⟩
  | some item =>
    obtain ⟨obstructed, front, back, items, before⟩ := List.find?_eq_some_iff_append.mp first
    obtain ⟨e, obstacle⟩ := Option.isSome_iff_exists.mp obstructed
    have free (other : ListedItem) (mem : other ∈ front) : g.obstacle? other = none := by
      simpa using before other mem
    obtain ⟨texts, lines, all⟩ := shown free
    rw [listing_eq, items, List.map_append, List.map_cons, lines, linesOf_error obstacle,
      Listing.ofItems_error]
    exact .inr ⟨front, item, back, e, rfl, free, obstacle, rfl, texts, all, rfl⟩

/-- A type definition without a reference between two enumerations. -/
example :
    let g := (((empty.push (.ofKind .enum none)).push (.ofKind .typedef (some "t"))).push
      (.ofKind .enum none)).assignIndices
    g.listing = ⟨"\n\n  [1] ENUM (anon)\n\n", some (.unresolvedReference .typedef (some "t"))⟩
  := by
  decide +kernel

end Graph

end CompactTypes

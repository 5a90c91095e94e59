import CompactTypes.Listing
import CompactTypes.Proofs.Ctf.RoundTrip

/-!
# Summaries

A `Summary` is what the numbers in a file say: it leaves out the label and the names.  To read it
takes no string table, so unlike a document it can be read whatever the texts are and wherever they
stand; a sections' summary can be read even if they are too large for the offsets in a header.  If a
graph has an encoding, then its summary tells the numbers that the graph holds,
`Graph.summarizes_sections`.
-/

namespace CompactTypes

namespace Ctf

/-- A member of a struct or union without its name.  Its offset is in bytes. -/
structure Part where
  type : Nat
  offset : Nat
  deriving DecidableEq, Repr

/-- What the numbers in a file say about a type besides its kind. -/
inductive Outline where
  | number (size encoding bits : Nat)
  | reference (target : Nat)
  | array (content index count : Nat)
  | function (signature : Signature)
  | aggregate (size : Nat) (parts : List Part)
  | enumeration (size : Nat) (values : List Int)
  deriving DecidableEq, Repr

/-- What the numbers in a file say about a type. -/
structure OutlinedType where
  kind : TypeKind
  outline : Outline
  deriving DecidableEq, Repr

/-- What the numbers in a file say. -/
structure Summary where
  objects : List Nat
  /-- The signatures of the functions; a placeholder has none. -/
  functions : List (Option Signature)
  types : List OutlinedType
  deriving DecidableEq, Repr

/-! ### Reading a summary -/

section

variable (o : ByteOrder)

/-- Reads the place of a text, and forgets about it. -/
def skipText : Parser Unit := do
  let _ ← Parser.number o 4
  return ()

/-- Reads the offset of a member of a struct or union of a given size, in bits. -/
def parseBitOffset (size : Nat) : Parser Nat :=
  if 8192 ≤ size then do
    parsePadding o
    parseHalves o
  else
    Parser.number o 2

/-- Reads a member of a struct or union of a given size.  It has to start with a byte. -/
def parsePart (size : Nat) : Parser Part := do
  skipText o
  let type ← Parser.number o 2
  let bits ← parseBitOffset o size
  Parser.expect (bits % 8 = 0)
  return ⟨type, bits / 8⟩

/-- Reads the value of a constant. -/
def parseValue : Parser Int := do
  skipText o
  parseSigned o

/-- Reads what follows the info word of a type. -/
def parseOutline (kind : TypeKind) (count : Nat) : Parser Outline :=
  match kind with
  | .integer | .float => do
    Parser.expect (count = 0)
    let size ← parseSize o
    let word ← Parser.number o 4
    Parser.expect (word / 0x10000 % 0x100 = 0)
    return .number size (word / 0x1000000) (word % 0x10000)
  | .pointer | .typedef | .volatile | .const | .restrict => do
    Parser.expect (count = 0)
    let target ← Parser.number o 2
    return .reference target
  | .array => do
    Parser.expect (count = 0)
    parsePadding o
    let content ← Parser.number o 2
    let index ← Parser.number o 2
    let length ← Parser.number o 4
    return .array content index length
  | .function => do
    let signature ← parseSignature o count
    if count % 2 = 1 then do
      parsePadding o
      return .function signature
    else
      return .function signature
  | .struct | .union => do
    let size ← parseSize o
    let parts ← Parser.times (parsePart o size) count
    return .aggregate size parts
  | .enum => do
    let size ← parseSize o
    let values ← Parser.times (parseValue o) count
    return .enumeration size values
  | .unknown => Parser.ofOption none

/-- Reads the entry of a type, which has to be a root. -/
def parseOutlinedType : Parser OutlinedType := do
  skipText o
  let word ← Parser.number o 2
  let info ← Parser.ofOption (Info.ofWord? word)
  Parser.expect (info.isRoot = true)
  let outline ← parseOutline o info.kind info.count
  return ⟨info.kind, outline⟩

end

/-- What the numbers in sections say. -/
def Sections.summary? (s : Sections) (o : ByteOrder) : Option Summary := do
  let objects ← Parser.exhaust (Parser.number o 2) s.objects
  let functions ← Parser.exhaust (parseFunction o) s.functions
  let types ← Parser.exhaust (parseOutlinedType o) s.types
  return ⟨objects, functions, types⟩

/-- The sections of a file. -/
def Sections.read? (o : ByteOrder) (bytes : ByteArray) : Option Sections := do
  let header ← (Header.read o bytes).toOption
  let body ← (header.body bytes).toOption
  Sections.ofBody? header (byteList body)

/-- The sections of a file are read back if its body is shorter than the offsets in its header can
tell. -/
theorem Sections.read?_toBytes (s : Sections) (o : ByteOrder) (compressed : Bool)
    (short : s.body.length < wordValues 4) :
  Sections.read? o (s.toBytes o compressed) = some s
  := by
  rw [Sections.read?, s.read_toBytes o compressed]
  change (((s.header compressed).body (s.toBytes o compressed)).toOption >>= _) = _
  rw [s.body_toBytes o compressed]
  change Sections.ofBody? (s.header compressed) (byteList s.body.toByteArray) = _
  rw [byteList_toByteArray, s.ofBody?_body compressed short]

end Ctf

/-! ### Summarizing a graph -/

namespace Graph

open Ctf CompactTypes.Parser

variable (g : Graph)

/-- A member without its name. -/
def partOf (m : Member) : Part :=
  ⟨g.numberOf m.reference, m.offset.toNat⟩

/-- The value of an enumerator as a number with 32 bits, one of which is a sign. -/
def wrappedValue (e : Enumerator) : Int :=
  e.value.toInt.bmod (wordValues 4)

/-- What follows the kind of a type is what the record at a position says.  Of the encoding of a
number there is the last byte only. -/
def HasOutline (id : TypeId) (outline : Outline) : Prop :=
  let r := g.get id
  match outline with
  | .number size encoding bits =>
    (r.kind = .integer ∨ r.kind = .float) ∧ size = r.size.toNat
      ∧ encoding = r.encoding.toNat % 0x100 ∧ bits = bitCount r.size
  | .reference target =>
    r.kind ∈ [.pointer, .typedef, .volatile, .const, .restrict] ∧ g.RefersTo id target
  | .array content index count =>
    r.kind = .array ∧ g.RefersTo id content ∧ index = g.indexTypeNumber.toNat
      ∧ count = r.elementCount.toNat
  | .function signature =>
    r.kind = .function ∧ g.HasSignature id signature
  | .aggregate size parts =>
    (r.kind = .struct ∨ r.kind = .union) ∧ size = r.size.toNat
      ∧ parts = r.members.toList.map g.partOf
  | .enumeration size values =>
    r.kind = .enum ∧ size = r.size.toNat ∧ values = r.enumerators.toList.map wrappedValue

/-- What the numbers in a file say about a type is what the record at a position says. -/
structure HasOutlinedType (id : TypeId) (t : OutlinedType) : Prop where
  kind : t.kind = (g.get id).kind
  outline : g.HasOutline id t.outline

end Graph

/-- A summary tells the numbers that a graph holds, entry by entry. -/
structure Ctf.Summary.Summarizes (summary : Ctf.Summary) (g : Graph) : Prop where
  objects : List.Forall₂ g.RefersTo g.objects.toList summary.objects
  functions : List.Forall₂ g.HasFunction g.functions.toList summary.functions
  types : List.Forall₂ g.HasOutlinedType g.emittedTypes summary.types

namespace Graph

open Ctf CompactTypes.Parser

variable {g : Graph} {o : ByteOrder} {strings : StringTable} {id : TypeId} {bytes : List UInt8}

/-! ### Members and enumerators -/

theorem reads_skipText (o : ByteOrder) (place : UInt32) :
  Reads (skipText o) (o.u32 place) ()
  := (Reads.u32 o place).bind_last (Reads.pure ())

theorem reads_part {r : TypeRecord} {m : Member} (h : g.memberEntry o strings r m = .ok bytes) :
  Reads (parsePart o r.size.toNat) bytes (g.partOf m)
  := by
  have whole {offset : List UInt8} {word : UInt16} (number : word.toNat = g.numberOf m.reference)
      (reads : Reads (parseBitOffset o r.size.toNat) offset (8 * m.offset.toNat)) :
      Reads (parsePart o r.size.toNat) (o.u32 (strings.offset m.name) ++ (o.u16 word ++ offset))
        (g.partOf m) := by
    apply (reads_skipText o _).bind
    apply (Reads.u16 o word).bind
    apply reads.bind_last
    apply (Reads.expect (Nat.mul_mod_right 8 _)).bind_nil
    rw [Nat.mul_div_cancel_left _ (by decide), number]
    exact Reads.pure _
  obtain ⟨word, number, ⟨wide, small, rfl⟩ | ⟨narrow, small, rfl⟩⟩ := memberEntry_ok h
  · apply whole number
    rw [parseBitOffset, if_pos wide]
    have offset := reads_halves o (UInt64.ofNat (8 * m.offset.toNat))
    rw [UInt64.toNat_ofNat_of_lt' small] at offset
    exact (reads_padding o).bind offset
  · apply whole number
    rw [parseBitOffset, if_neg narrow]
    have offset := Reads.u16 o (UInt16.ofNat (8 * m.offset.toNat))
    rwa [UInt16.toNat_ofNat_of_lt' small] at offset

theorem reads_value (e : Enumerator) :
  Reads (parseValue o) (enumeratorEntry o strings e) (wrappedValue e)
  := (reads_skipText o _).bind (reads_signed o e.value)

/-! ### Types -/

/-- Bytes are the info word of the record at a position, and what is read as its outline. -/
def HasNumbers (g : Graph) (o : ByteOrder) (id : TypeId) (bytes : List UInt8) : Prop :=
  ∃ (count : UInt16) (rest : List UInt8) (outline : Outline), count.toNat ≤ maxEntries
    ∧ bytes = o.u16 (infoWord (g.get id).kind true count) ++ rest
    ∧ Reads (parseOutline o (g.get id).kind count.toNat) rest outline
    ∧ g.HasOutline id outline

theorem hasNumbers_number (kind : (g.get id).kind = .integer ∨ (g.get id).kind = .float)
    (h : g.typeData o strings id = .ok bytes) :
  g.HasNumbers o id bytes
  := by
  have parser : parseOutline o (g.get id).kind 0 = do
      expect (0 = 0)
      let size ← parseSize o
      let word ← number o 4
      expect (word / 0x10000 % 0x100 = 0)
      return .number size (word / 0x1000000) (word % 0x10000) := by
    rcases kind with kind | kind <;> simp only [parseOutline, kind]
  obtain ⟨small, rfl⟩ := typeData_number_ok kind h
  have count : bitCount (g.get id).size = 8 * (g.get id).size.toNat :=
    Nat.min_eq_left (Nat.le_trans (Nat.le_of_lt small) (by decide))
  refine ⟨0, _, .number (g.get id).size.toNat ((g.get id).encoding.toNat % 0x100) _,
    Nat.zero_le _, rfl, ?_, kind, rfl, rfl, rfl⟩
  rw [count]
  change Reads (parseOutline o (g.get id).kind 0) _ _
  rw [parser]
  apply (Reads.expect rfl).bind_nil
  apply (reads_size o (g.get id).size).bind
  apply (Reads.u32 o _).bind_last
  rw [toNat_numberWord _ _ small]
  generalize (g.get id).encoding.toNat % 0x100 = encoding
  generalize 8 * (g.get id).size.toNat = bits at small
  rw [wordValues_two] at small
  have high : (encoding * 0x1000000 + bits) / 0x1000000 = encoding := by omega
  have middle : (encoding * 0x1000000 + bits) / 0x10000 % 0x100 = 0 := by omega
  have low : (encoding * 0x1000000 + bits) % 0x10000 = bits := by omega
  rw [high, low]
  exact (Reads.expect middle).bind_nil (Reads.pure _)

theorem hasNumbers_reference
    (kind : (g.get id).kind ∈ [TypeKind.pointer, .typedef, .volatile, .const, .restrict])
    (h : g.typeData o strings id = .ok bytes) :
  g.HasNumbers o id bytes
  := by
  have parser : parseOutline o (g.get id).kind 0 = do
      expect (0 = 0)
      let target ← number o 2
      return .reference target := by
    simp only [List.mem_cons, List.not_mem_nil, or_false] at kind
    rcases kind with kind | kind | kind | kind | kind <;> simp only [parseOutline, kind]
  obtain ⟨target, refers, rfl⟩ := typeData_reference_ok kind h
  refine ⟨0, _, .reference target.toNat, Nat.zero_le _, rfl, ?_, kind, refers⟩
  change Reads (parseOutline o (g.get id).kind 0) _ _
  rw [parser]
  apply reads_reference

theorem hasNumbers_array (kind : (g.get id).kind = .array)
    (h : g.typeData o strings id = .ok bytes) :
  g.HasNumbers o id bytes
  := by
  obtain ⟨content, index, refers, number, rfl⟩ := typeData_array_ok kind h
  rw [← toNat_indexTypeNumber] at number
  refine ⟨0, _, .array content.toNat index.toNat (g.get id).elementCount.toNat, Nat.zero_le _, rfl,
    ?_, kind, refers, number, rfl⟩
  rw [kind]
  exact reads_array o content index (g.get id).elementCount Outline.array

theorem hasNumbers_function (kind : (g.get id).kind = .function)
    (h : g.typeData o strings id = .ok bytes) :
  g.HasNumbers o id bytes
  := by
  obtain ⟨count, returned, arguments, ⟨count_eq, few⟩, found, written, rfl⟩ :=
    typeData_function_ok kind h
  obtain ⟨s, reads, signature⟩ := reads_signature found written
  refine ⟨count, _, .function s, count_eq ▸ few, rfl, ?_, kind, signature⟩
  rw [kind, count_eq]
  exact reads_padded reads Outline.function

theorem hasNumbers_aggregate (kind : (g.get id).kind = .struct ∨ (g.get id).kind = .union)
    (h : g.typeData o strings id = .ok bytes) :
  g.HasNumbers o id bytes
  := by
  have parser (count : Nat) : parseOutline o (g.get id).kind count = do
      let size ← parseSize o
      let parts ← times (parsePart o size) count
      return .aggregate size parts := by
    rcases kind with kind | kind <;> simp only [parseOutline, kind]
  obtain ⟨count, entries, ⟨count_eq, few⟩, written, rfl⟩ := typeData_aggregate_ok kind h
  have each : List.Forall₂ (Reads (parsePart o (g.get id).size.toNat)) entries
      ((g.get id).members.toList.map g.partOf) := by
    rw [List.forall₂_map_right_iff]
    exact written.flip.imp fun entry m entered => reads_part entered.2
  have parts := Reads.times each
  rw [List.length_map, Array.length_toList] at parts
  refine ⟨count, _, .aggregate (g.get id).size.toNat ((g.get id).members.toList.map g.partOf),
    count_eq ▸ few, rfl, ?_, kind, rfl, rfl⟩
  rw [parser, count_eq]
  apply (reads_size o (g.get id).size).bind
  exact parts.bind_last (Reads.pure _)

theorem hasNumbers_enumeration (kind : (g.get id).kind = .enum)
    (h : g.typeData o strings id = .ok bytes) :
  g.HasNumbers o id bytes
  := by
  obtain ⟨count, ⟨count_eq, few⟩, rfl⟩ := typeData_enumeration_ok kind h
  have each : List.Forall₂ (Reads (parseValue o))
      ((g.get id).enumerators.toList.map (enumeratorEntry o strings))
      ((g.get id).enumerators.toList.map wrappedValue) := by
    rw [List.forall₂_map_left_iff, List.forall₂_map_right_iff, List.forall₂_same]
    exact fun e _ => reads_value e
  have values := Reads.times each
  rw [List.length_map, Array.length_toList] at values
  refine ⟨count, _,
    .enumeration (g.get id).size.toNat ((g.get id).enumerators.toList.map wrappedValue),
    count_eq ▸ few, rfl, ?_, kind, rfl, rfl⟩
  rw [kind, count_eq]
  apply (reads_size o (g.get id).size).bind
  exact values.bind_last (Reads.pure _)

/-- What follows the name of a type is read as the numbers of its record. -/
theorem hasNumbers (h : g.typeData o strings id = .ok bytes) :
  g.HasNumbers o id bytes
  := by
  cases kind : (g.get id).kind with
  | unknown =>
    simp only [typeData, kind] at h
    cases h
  | integer => exact hasNumbers_number (.inl kind) h
  | float => exact hasNumbers_number (.inr kind) h
  | pointer | typedef | volatile | const | restrict =>
    refine hasNumbers_reference ?_ h
    rw [kind]
    decide
  | array => exact hasNumbers_array kind h
  | function => exact hasNumbers_function kind h
  | struct => exact hasNumbers_aggregate (.inl kind) h
  | union => exact hasNumbers_aggregate (.inr kind) h
  | enum => exact hasNumbers_enumeration kind h

/-- The entry of a type is read as the numbers of its record. -/
theorem reads_outlinedType (h : g.typeEntry o strings id = .ok bytes) :
  ∃ t, (bytes ≠ [] ∧ Reads (parseOutlinedType o) bytes t) ∧ g.HasOutlinedType id t
  := by
  obtain ⟨-, -, h⟩ := ok_of_bind h
  obtain ⟨data, found, h⟩ := ok_of_bind h
  cases h
  obtain ⟨count, rest, outline, few, rfl, reads, described⟩ := hasNumbers found
  refine ⟨⟨(g.get id).kind, outline⟩, ⟨?_, ?_⟩, rfl, described⟩
  · apply List.ne_nil_of_length_pos
    rw [List.length_append, ByteOrder.length_u32]
    omega
  · apply (reads_skipText o _).bind
    apply (Reads.u16 o _).bind
    apply (Reads.ofOption (ofWord?_infoWord _ _ _ few)).bind_nil
    apply (Reads.expect rfl).bind_nil
    exact reads.bind_last (Reads.pure _)

/-! ### Sections -/

/-- The sections that encode a graph tell the numbers that it holds. -/
theorem summarizes_sections {label : String} {s : Sections} (h : g.sections label o = .ok s) :
  ∃ summary, s.summary? o = some summary ∧ summary.Summarizes g
  := by
  obtain ⟨-, -, h⟩ := ok_of_bind h
  obtain ⟨objects, hobjects, h⟩ := ok_of_bind h
  obtain ⟨functions, hfunctions, h⟩ := ok_of_bind h
  obtain ⟨types, htypes, h⟩ := ok_of_bind h
  cases h
  obtain ⟨numbers, readObjects, describedObjects⟩ := exhaust_of_mapM hobjects
    fun _ _ _ h => reads_objectEntry h
  obtain ⟨signatures, readFunctions, describedFunctions⟩ := exhaust_of_mapM hfunctions
    fun _ _ _ h => reads_functionEntry h
  obtain ⟨outlines, readTypes, describedTypes⟩ := exhaust_of_mapM htypes
    fun _ _ _ h => reads_outlinedType h
  refine ⟨⟨numbers, signatures, outlines⟩, ?_, describedObjects, describedFunctions,
    describedTypes⟩
  rw [Sections.summary?]
  simp only [readObjects, readFunctions, readTypes]
  rfl

/-- A file that encodes a graph consists of sections with the numbers that the graph holds.  They
are read back from the file if its body is shorter than the offsets in its header can tell. -/
theorem summarizes_encode {label : String} {compressed : Bool} {bytes : ByteArray}
    (h : g.encode label o compressed = .ok bytes) :
  ∃ s summary, g.sections label o = .ok s ∧ bytes = s.toBytes o compressed
    ∧ s.summary? o = some summary ∧ summary.Summarizes g
  := by
  obtain ⟨s, sections, h⟩ := ok_of_bind h
  cases h
  obtain ⟨summary, read, summarizes⟩ := summarizes_sections sections
  exact ⟨s, summary, sections, rfl, read, summarizes⟩

end Graph

end CompactTypes

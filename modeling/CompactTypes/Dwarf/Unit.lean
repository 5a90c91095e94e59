import CompactTypes.Dwarf.Entry

/-!
# Units

`Sections` are the debugging sections of an object file.  The entries are stored in units;
`Sections.units` opens them in order, and `CompilationUnit.contents` reads the entries of
one.  Units that share a table of abbreviations have it read once, and which tables are known
makes no difference: `openAfter_eq_of_faithful`.
-/

namespace CompactTypes.Dwarf

/-- The debugging sections of an object file. -/
structure Sections where
  order : ByteOrder
  abbreviations : ByteArray
  info : ByteArray
  strings : ByteArray
  stringOffsets : ByteArray
  lineStrings : ByteArray
  deriving DecidableEq, Inhabited

/-- What the header of a unit says. -/
structure UnitHeader where
  /-- The offset in the section of entries. -/
  offset : Nat
  encoding : Encoding
  abbreviationOffset : Nat
  /-- The bytes of the entries; their offset is counted from the start of the unit. -/
  entries : Input
  deriving DecidableEq, Inhabited

/-- A unit whose abbreviations are known. -/
structure CompilationUnit where
  /-- The offset in the section of entries. -/
  offset : Nat
  encoding : Encoding
  entries : Input
  abbreviations : AbbreviationTable
  /-- Where the string offsets of the unit start. -/
  stringOffsetsBase : Nat
  deriving Inhabited

namespace UnitHeader

/-- The length of a unit and the width of the offsets in it. -/
def readLength (order : ByteOrder) : Reader (Nat × Nat) := do
  let length ← Reader.word order 4
  if length < 0xfffffff0 then
    return (length, 4)
  else if length = 0xffffffff then
    return (← Reader.word order 8, 8)
  else
    throw .reservedLength

/-- The width of an address. -/
def readAddressSize : Reader Nat := do
  let size ← Reader.byte
  if size = 1 ∨ size = 2 ∨ size = 4 ∨ size = 8 then return size.toNat
  else throw .unsupportedAddressSize

/-- The part of a header that only some types of units have. -/
def skipTypeFields (offsetSize : Nat) (unitType : UInt8) : Reader Unit := do
  if unitType = 1 ∨ unitType = 3 then return ⟨⟩
  else if unitType = 4 ∨ unitType = 5 then Reader.skip 8
  else if unitType = 2 ∨ unitType = 6 then
    Reader.skip 8
    Reader.skip offsetSize
  else throw .unsupportedUnitType

/-- The fields of a header after the length of the unit. -/
def readFields (order : ByteOrder) (offsetSize : Nat) : Reader (Encoding × Nat) := do
  let version ← Reader.word order 2
  if 2 ≤ version ∧ version ≤ 4 then
    let abbreviationOffset ← Reader.word order offsetSize
    let addressSize ← readAddressSize
    return (⟨order, offsetSize, version, addressSize⟩, abbreviationOffset)
  else if version = 5 then
    let unitType ← Reader.byte
    let addressSize ← readAddressSize
    let abbreviationOffset ← Reader.word order offsetSize
    skipTypeFields offsetSize unitType
    return (⟨order, offsetSize, version, addressSize⟩, abbreviationOffset)
  else
    throw .unknownVersion

/-- The header of the unit at an offset, whose bytes, its length left out, are given. -/
def ofBlock (order : ByteOrder) (offset offsetSize : Nat) (block : Input) :
    Except Fault UnitHeader := do
  let ((encoding, abbreviationOffset), entries) ← readFields order offsetSize block
  return ⟨offset, encoding, abbreviationOffset, entries⟩

/-- The unit at an offset. -/
def readAt (order : ByteOrder) (offset : Nat) : Reader UnitHeader := do
  let (length, offsetSize) ← readLength order
  let block ← Reader.block length
  let start := if offsetSize = 4 then 4 else 12
  (ofBlock order offset offsetSize ⟨block, start, 0⟩ : Except _ _)

/-- The next unit. -/
def read (order : ByteOrder) : Reader UnitHeader := fun i =>
  readAt order i.offset i

/-- The next unit, or nothing at the end of the section. -/
def read? (order : ByteOrder) : Reader (Option UnitHeader) := fun i =>
  if i.remaining = 0 then .ok (none, i)
  else
    match read order i with
    | .ok (header, j) => .ok (some header, j)
    | .error f => .error f

theorem progress_readLength (order : ByteOrder) :
  (readLength order).Progress
  := by
  apply (Reader.progress_word order (by decide)).bind
  intro length
  split
  · exact Reader.forward_pure _
  · split
    · exact (Reader.forward_word order 8).bind fun _ => Reader.forward_pure _
    · exact Reader.forward_throw _

theorem forward_lift {α : Type} (result : Except Fault α) :
  Reader.Forward (result : Reader α)
  := by
  intro i a j h
  cases result with
  | error f => cases h
  | ok b =>
    cases h
    exact Input.Before.refl i

theorem progress_readAt (order : ByteOrder) (offset : Nat) :
  (readAt order offset).Progress
  := by
  apply (progress_readLength order).bind
  intro p
  exact (Reader.forward_block _).bind fun _ => forward_lift _

theorem progress_read (order : ByteOrder) :
  (read order).Progress
  := fun i header j h => progress_readAt order i.offset i header j h

theorem productive_read? (order : ByteOrder) :
  (read? order).Productive
  := by
  intro i header j h
  unfold read? at h
  split at h
  · cases h
  · split at h
    · rename_i hread
      cases h
      exact (progress_read order i _ _ hread).2
    · cases h

end UnitHeader

namespace CompilationUnit

/-- What the first entry of a unit decides: where the string offsets of the unit start.  The
line table and the table of addresses are not at hand, so the entry may not refer to
them. -/
def stringOffsetsBaseOf (root : Entry) : Except Fault Nat :=
  match root.fault with
  | some f => .error f
  | none =>
    let values (key : AttributeName) : List Value :=
      (root.attributes.filter fun pair => pair.1 = key).map Prod.snd
    let hasLineTable := (values .lineTable).any fun
      | .sectionOffset _ => true
      | _ => false
    let hasAddressIndex := match (values .lowPc).getLast? with
      | some (.addressIndex _) => true
      | _ => false
    let bases := (values .stringOffsetsBase).filterMap fun
      | .sectionOffset offset => some offset
      | _ => none
    if hasLineTable || hasAddressIndex then .error .unexpectedEnd
    else .ok (bases.getLast?.getD 0)

/-- The unit with the given header and abbreviations. -/
def ofHeader (header : UnitHeader) (table : AbbreviationTable) :
    Except Fault CompilationUnit := do
  match ← Node.firstEntry? header.encoding table header.entries with
  | none => throw .missingRootEntry
  | some root =>
    let base ← stringOffsetsBaseOf root
    return ⟨header.offset, header.encoding, header.entries, table, base⟩

/-- The entries of a unit, each with its depth. -/
def contents (u : CompilationUnit) : Stream (Int × Entry) :=
  Node.entries u.encoding u.abbreviations 0 u.entries

/-- The entry at an offset of the unit, which may lie in the middle of another one. -/
def entryAt (u : CompilationUnit) (offset : Nat) : Except Fault Entry := do
  let distance := offset - u.entries.offset
  if offset < u.entries.offset ∨ u.entries.remaining ≤ distance then
    throw .offsetOutOfBounds
  else
    let (node, _) ← Node.read u.encoding u.abbreviations (u.entries.advance distance)
    match node with
    | .null => throw .noEntryAtOffset
    | .entry e => return e

/-- The offset in the section of entries of an offset in the unit. -/
def globalOffset (u : CompilationUnit) (offset : Nat) : Nat :=
  u.offset + offset

end CompilationUnit

/-- Tables of abbreviations that have been read, by their offsets. -/
abbrev KnownTables : Type :=
  Std.TreeMap Nat AbbreviationTable

/-- Whether known tables are those that stand in the section of abbreviations. -/
def KnownTables.Faithful (known : KnownTables) (bytes : ByteArray) : Prop :=
  ∀ offset table, known[offset]? = some table →
    AbbreviationTable.read bytes offset = .ok table

/-- The table at an offset of the section of abbreviations, which is read unless it is
known. -/
def tableAt (bytes : ByteArray) (known : KnownTables) (offset : Nat) :
    Except Fault AbbreviationTable :=
  match known[offset]? with
  | some table => .ok table
  | none => AbbreviationTable.read bytes offset

/-- Opens units in order, up to the first that cannot be opened, after those in `opened`.
The fault `last` is what comes after the units. -/
def openAfter (bytes : ByteArray) (last : Option Fault) (opened : Array CompilationUnit)
    (known : KnownTables) : List UnitHeader → Stream CompilationUnit
  | [] => ⟨opened.toList, last⟩
  | header :: headers =>
    match tableAt bytes known header.abbreviationOffset with
    | .error f => ⟨opened.toList, some f⟩
    | .ok table =>
      match CompilationUnit.ofHeader header table with
      | .error f => ⟨opened.toList, some f⟩
      | .ok u =>
        openAfter bytes last (opened.push u) (known.insert header.abbreviationOffset table)
          headers

theorem KnownTables.faithful_empty (bytes : ByteArray) :
  KnownTables.Faithful ∅ bytes
  := by
  intro offset table h
  simp at h

theorem tableAt_eq_read {bytes : ByteArray} {known : KnownTables}
    (h : known.Faithful bytes) (offset : Nat) :
  tableAt bytes known offset = AbbreviationTable.read bytes offset
  := by
  unfold tableAt
  split
  · rename_i table found
    exact (h offset table found).symm
  · rfl

theorem KnownTables.Faithful.insert {bytes : ByteArray} {known : KnownTables}
    (h : known.Faithful bytes) {offset : Nat} {table : AbbreviationTable}
    (read : AbbreviationTable.read bytes offset = .ok table) :
  KnownTables.Faithful (Std.TreeMap.insert known offset table) bytes
  := by
  intro other found hfound
  rw [Std.TreeMap.getElem?_insert] at hfound
  split at hfound
  · rename_i same
    cases hfound
    rw [← Std.LawfulEqCmp.compare_eq_iff_eq.mp same]
    exact read
  · exact h other found hfound

theorem openAfter_eq_of_faithful {bytes : ByteArray} (last : Option Fault)
    (opened : Array CompilationUnit) {known known' : KnownTables}
    (h : known.Faithful bytes) (h' : known'.Faithful bytes) (headers : List UnitHeader) :
  openAfter bytes last opened known headers = openAfter bytes last opened known' headers
  := by
  induction headers generalizing opened known known' with
  | nil => rfl
  | cons header headers ih =>
    unfold openAfter
    rw [tableAt_eq_read h, tableAt_eq_read h']
    cases hread : AbbreviationTable.read bytes header.abbreviationOffset with
    | error f => rfl
    | ok table =>
      dsimp only
      cases CompilationUnit.ofHeader header table with
      | error f => rfl
      | ok u => exact ih (opened.push u) (h.insert hread) (h'.insert hread)

namespace Sections

/-- The headers of all units, up to the end of the section or to the first that cannot be
read. -/
def unitHeaders (s : Sections) : Stream UnitHeader :=
  (Reader.collect (UnitHeader.read? s.order) (UnitHeader.productive_read? s.order)
    (Input.ofBytes s.info)).1

/-- The units of the section of entries, up to its end or to the first that cannot be
opened. -/
def units (s : Sections) : Stream CompilationUnit :=
  let headers := s.unitHeaders
  openAfter s.abbreviations headers.fault #[] ∅ headers.items

/-- The text at an offset of a string section, without the null byte that ends it. -/
def stringAt (bytes : ByteArray) (offset : Nat) : Except Fault ByteArray := do
  let (_, i) ← Reader.skip offset (Input.ofBytes bytes)
  let (text, _) ← Reader.nullTerminated i
  return text

/-- The string offset with the given index in a unit. -/
def stringOffsetAt (s : Sections) (u : CompilationUnit) (index : Nat) :
    Except Fault Nat := do
  let (_, i) ← Reader.skip u.stringOffsetsBase (Input.ofBytes s.stringOffsets)
  let (_, i) ← Reader.skip (index * u.encoding.offsetSize % wordValues 8) i
  let (offset, _) ← Reader.word s.order u.encoding.offsetSize i
  return offset

/-- The bytes of the string that a value in a unit stands for. -/
def string (s : Sections) (u : CompilationUnit) : Value → Except Fault ByteArray
  | .string bytes => .ok bytes
  | .stringOffset offset => stringAt s.strings offset
  | .lineStringOffset offset => stringAt s.lineStrings offset
  | .stringIndex index => do
    let offset ← s.stringOffsetAt u index
    stringAt s.strings offset
  | _ => .error .expectedStringForm

end Sections

end CompactTypes.Dwarf

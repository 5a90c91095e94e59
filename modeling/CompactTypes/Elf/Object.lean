import CompactTypes.Elf.Header

/-!
# Object files

An `ObjectFile` is an object file whose section headers, names and symbols can be told.  The
checks of `ObjectFile.read` come in a fixed order: headers, the table of names, the symbol
table, the table of dynamic symbols, relocations.
-/

namespace CompactTypes.Elf

/-- A table of strings, or nothing where there is no such table in the file. -/
abbrev StringTable : Type :=
  Option ByteArray

/-- The string at an offset of a table, if it ends in the table. -/
def StringTable.string? (t : StringTable) (offset : Nat) : Option ByteArray :=
  t.bind fun bytes => textAt? bytes offset

/-- The table that fills a part of a file. -/
def StringTable.ofRange (bytes : ByteArray) (offset size : Nat) : StringTable :=
  excerpt? bytes offset size

/-- An entry of a symbol table. -/
structure SymbolEntry where
  /-- The offset of the name in the table of names. -/
  name : Nat
  info : UInt8
  place : Nat
  deriving DecidableEq, Repr, Inhabited

/-- The fields of an entry of a symbol table. -/
def SymbolEntry.ofBytes (l : Layout) (bytes : ByteArray) : SymbolEntry where
  name := l.number bytes 0 4
  info := byteAt bytes (l.pick 12 4)
  place := l.number bytes (l.pick 14 6) 2

/-- A symbol table.  `position` is the position of its section, or zero if there is none. -/
structure SymbolTable where
  position : Nat
  entries : List SymbolEntry
  names : StringTable
  deriving Inhabited

/-- An object file. -/
structure ObjectFile where
  bytes : ByteArray
  layout : Layout
  sections : Array SectionHeader
  names : StringTable
  symbols : SymbolTable
  deriving Inhabited

/-- The data of a section, which has none if it is said to have no bits. -/
def sectionBytes? (bytes : ByteArray) (h : SectionHeader) : Option ByteArray :=
  match h.range? with
  | none => some .empty
  | some (offset, size) => excerpt? bytes offset size

/-! ### Names of sections -/

/-- The position of the section that holds the names of the sections. -/
def nameTablePosition (bytes : ByteArray) (h : FileHeader) : Except Defect Nat :=
  if h.nameTableIndex ≠ 0xffff then
    .ok h.nameTableIndex
  else do
    match ← SectionHeader.readFirst? bytes h with
    | some first => return first.link
    | none => return 0

/-- The names of the sections. -/
def readNames (bytes : ByteArray) (h : FileHeader) (sections : Array SectionHeader) :
    Except Defect StringTable :=
  if sections.isEmpty then
    .ok none
  else do
    let position ← nameTablePosition bytes h
    if position = 0 then
      throw .missingNameTable
    else
      match sections[position]? with
      | none => throw .badNameTable
      | some table =>
        match table.range? with
        | none => return none
        | some (offset, size) =>
          if offset + size < wordValues 8 then return StringTable.ofRange bytes offset size
          else throw .nameTableRange

/-! ### Symbols -/

/-- The strings of a linked section; a link to the section zero leads to none. -/
def readLinkedStrings (bytes : ByteArray) (sections : Array SectionHeader) (link : Nat) :
    Except Defect StringTable :=
  if link = 0 then
    .ok none
  else
    match sections[link]? with
    | none => .error .sectionIndex
    | some h =>
      if h.type ≠ .stringTable then .error .stringSectionType
      else if h.offset + h.size < wordValues 8 then .ok (StringTable.ofRange bytes h.offset h.size)
      else .error .stringSectionRange

/-- Makes sure that the extended indices that belong to the symbol table at a position lie in
the file. -/
def checkExtendedIndices (bytes : ByteArray) (sections : Array SectionHeader)
    (position : Nat) : Except Defect Unit :=
  let broken (h : SectionHeader) : Bool :=
    match h.range? with
    | some (offset, size) => bytes.size < offset + size || size % 4 ≠ 0
    | none => false
  let belongs (h : SectionHeader) : Bool :=
    h.type = .extendedIndices && h.link = position
  if sections.any fun h => belongs h && broken h then .error .extendedIndexData else .ok ⟨⟩

/-- The first symbol table of the given type. -/
def readSymbols (bytes : ByteArray) (l : Layout) (sections : Array SectionHeader)
    (type : SectionType) : Except Defect SymbolTable :=
  match sections.findIdx? fun h => h.type = type with
  | none => .ok ⟨0, [], none⟩
  | some position => do
    let h := sections.getD position default
    match sectionBytes? bytes h with
    | none => throw .symbolTableData
    | some data =>
      let n := data.size / l.symbolSize
      if n * l.symbolSize ≠ data.size then
        throw .symbolTableData
      else
        let names ← readLinkedStrings bytes sections h.link
        checkExtendedIndices bytes sections position
        return ⟨position, (chunks data l.symbolSize n).map (SymbolEntry.ofBytes l), names⟩

/-! ### Relocations -/

/-- Makes sure that a section of relocations for the symbol table at a position applies to a
section that can be relocated. -/
def checkRelocation (sections : Array SectionHeader) (position : Nat) (h : SectionHeader) :
    Except Defect Unit :=
  if h.type ≠ .relocations ∨ h.link ≠ position ∨ h.info = 0 then
    .ok ⟨⟩
  else
    match sections[h.info]? with
    | none => .error .relocationInfo
    | some target =>
      if target.type = .relocations then .error .nestedRelocation else .ok ⟨⟩

/-- Makes sure that all relocations for the symbol table at a position make sense, from the
last section to the first. -/
def checkRelocations (sections : Array SectionHeader) (position : Nat) :
    Except Defect Unit :=
  sections.toList.reverse.forM (checkRelocation sections position)

/-! ### Files -/

namespace ObjectFile

/-- The object file with the given bytes. -/
def read (bytes : ByteArray) : Except Defect ObjectFile := do
  let h ← FileHeader.read bytes
  checkProgramHeaders bytes h
  let sections ← SectionHeader.readAll bytes h
  let names ← readNames bytes h sections
  let symbols ← readSymbols bytes h.layout sections .symbolTable
  let _ ← readSymbols bytes h.layout sections .dynamicSymbolTable
  checkRelocations sections symbols.position
  return ⟨bytes, h.layout, sections, names, symbols⟩

/-- The first section whose name has exactly the given bytes. -/
def sectionNamed? (f : ObjectFile) (name : ByteArray) : Option SectionHeader :=
  f.sections.find? fun h => f.names.string? h.name = some name

end ObjectFile

end CompactTypes.Elf

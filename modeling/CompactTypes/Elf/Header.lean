import CompactTypes.Bytes.Excerpt
import CompactTypes.Bytes.Order
import CompactTypes.Error

/-!
# Headers of object files

The header of an object file says how its words are stored, `Layout`, and where the tables
of program headers and of section headers lie.  `SectionHeader.readAll` reads the latter;
`checkProgramHeaders` only makes sure that the former lies in the file.
-/

namespace CompactTypes.Elf

/-- How the words of an object file are stored. -/
structure Layout where
  order : ByteOrder
  /-- Whether addresses, offsets and sizes have 64 bits and not 32. -/
  wide : Bool
  deriving DecidableEq, Repr, Inhabited

namespace Layout

/-- One of two values, depending on the width of addresses. -/
def pick {α : Type} (l : Layout) (narrow wide : α) : α :=
  if l.wide then wide else narrow

/-- The number in `width` bytes at a place of a structure. -/
def number (l : Layout) (bytes : ByteArray) (place width : Nat) : Nat :=
  l.order.decode (byteList (bytes.extract place (place + width)))

/-- The address, offset or size at a place of a structure. -/
def address (l : Layout) (bytes : ByteArray) (place : Nat) : Nat :=
  l.number bytes place (l.pick 4 8)

/-- The size of the header of a file. -/
def fileHeaderSize (l : Layout) : Nat :=
  l.pick 52 64

/-- The size of a program header. -/
def programHeaderSize (l : Layout) : Nat :=
  l.pick 32 56

/-- The size of a section header. -/
def sectionHeaderSize (l : Layout) : Nat :=
  l.pick 40 64

/-- The size of a symbol. -/
def symbolSize (l : Layout) : Nat :=
  l.pick 16 24

/-- The size of a compression header. -/
def compressionHeaderSize (l : Layout) : Nat :=
  l.pick 12 24

end Layout

/-- The header of an object file. -/
structure FileHeader where
  layout : Layout
  programOffset : Nat
  sectionOffset : Nat
  programEntrySize : Nat
  programCount : Nat
  sectionEntrySize : Nat
  sectionCount : Nat
  nameTableIndex : Nat
  deriving DecidableEq, Repr, Inhabited

namespace FileHeader

/-- Whether bytes start like an object file with addresses of 32 or 64 bits. -/
def isElf (bytes : ByteArray) : Bool :=
  16 ≤ bytes.size && byteList (bytes.extract 0 4) = [0x7f, 0x45, 0x4c, 0x46]
    && (byteAt bytes 4 = 1 || byteAt bytes 4 = 2)

/-- The fields of a header with the given layout. -/
def ofBytes (l : Layout) (bytes : ByteArray) : FileHeader where
  layout := l
  programOffset := l.address bytes (l.pick 28 32)
  sectionOffset := l.address bytes (l.pick 32 40)
  programEntrySize := l.number bytes (l.pick 42 54) 2
  programCount := l.number bytes (l.pick 44 56) 2
  sectionEntrySize := l.number bytes (l.pick 46 58) 2
  sectionCount := l.number bytes (l.pick 48 60) 2
  nameTableIndex := l.number bytes (l.pick 50 62) 2

/-- The header at the start of an object file. -/
def read (bytes : ByteArray) : Except Defect FileHeader :=
  let order := byteAt bytes 5
  let l : Layout := ⟨if order = 2 then .big else .little, byteAt bytes 4 = 2⟩
  match excerpt? bytes 0 l.fileHeaderSize with
  | none => .error .headerSize
  | some header =>
    if (order = 1 ∨ order = 2) ∧ byteAt bytes 6 = 1 then
      .ok (ofBytes l header)
    else
      .error .unsupportedHeader

end FileHeader

/-- What a section holds, as far as it matters. -/
inductive SectionType where
  | symbolTable
  | stringTable
  | relocations
  /-- A section without data. -/
  | noBits
  | dynamicSymbolTable
  /-- The section indices of symbols that do not fit into their words. -/
  | extendedIndices
  /-- Any other code. -/
  | other (code : Nat)
  deriving DecidableEq, Repr, Inhabited

/-- The section type that a code stands for. -/
def SectionType.ofCode : Nat → SectionType
  | 2 => symbolTable
  | 3 => stringTable
  | 4 => relocations
  | 8 => noBits
  | 9 => relocations
  | 11 => dynamicSymbolTable
  | 18 => extendedIndices
  | code => other code

/-- The description of a section. -/
structure SectionHeader where
  /-- The offset of the name in the table of names. -/
  name : Nat
  type : SectionType
  flags : Nat
  offset : Nat
  size : Nat
  link : Nat
  info : Nat
  deriving DecidableEq, Repr, Inhabited

namespace SectionHeader

/-- The fields of a section header. -/
def ofBytes (l : Layout) (bytes : ByteArray) : SectionHeader where
  name := l.number bytes 0 4
  type := SectionType.ofCode (l.number bytes 4 4)
  flags := l.address bytes 8
  offset := l.address bytes (l.pick 16 24)
  size := l.address bytes (l.pick 20 32)
  link := l.number bytes (l.pick 24 40) 4
  info := l.number bytes (l.pick 28 44) 4

/-- Whether the data of the section are compressed and start with a compression header. -/
def isCompressed (h : SectionHeader) : Bool :=
  h.flags.testBit 11

/-- The part of the file that holds the data of a section, if it has any. -/
def range? (h : SectionHeader) : Option (Nat × Nat) :=
  if h.type = .noBits then none else some (h.offset, h.size)

/-- The first section header, which can hold counts that do not fit into the header of the
file. -/
def readFirst? (bytes : ByteArray) (h : FileHeader) :
    Except Defect (Option SectionHeader) :=
  let size := h.layout.sectionHeaderSize
  if h.sectionOffset = 0 then
    .ok none
  else if h.sectionEntrySize ≠ size then
    .error .sectionHeaderEntrySize
  else
    match excerpt? bytes h.sectionOffset size with
    | some entry => .ok (some (ofBytes h.layout entry))
    | none => .error .firstSectionHeader

/-- The number of section headers. -/
def count (bytes : ByteArray) (h : FileHeader) : Except Defect Nat :=
  if h.sectionCount ≠ 0 then
    .ok h.sectionCount
  else do
    match ← readFirst? bytes h with
    | some first => return first.size
    | none => return 0

/-- All section headers of a file. -/
def readAll (bytes : ByteArray) (h : FileHeader) : Except Defect (Array SectionHeader) :=
  if h.sectionOffset = 0 then
    .ok #[]
  else do
    let n ← count bytes h
    let size := h.layout.sectionHeaderSize
    if n = 0 then
      return #[]
    else if h.sectionEntrySize ≠ size then
      throw .sectionHeaderEntrySize
    else
      match excerpt? bytes h.sectionOffset (n * size) with
      | some table => return ((chunks table size n).map (ofBytes h.layout)).toArray
      | none => throw .sectionHeaders

end SectionHeader

/-- The number of program headers. -/
def programHeaderCount (bytes : ByteArray) (h : FileHeader) : Except Defect Nat :=
  if h.programCount < 0xffff then
    .ok h.programCount
  else do
    match ← SectionHeader.readFirst? bytes h with
    | some first => return first.info
    | none => throw .missingProgramHeaderCount

/-- Makes sure that the program headers lie in the file. -/
def checkProgramHeaders (bytes : ByteArray) (h : FileHeader) : Except Defect Unit :=
  if h.programOffset = 0 then
    .ok ⟨⟩
  else do
    let n ← programHeaderCount bytes h
    let size := h.layout.programHeaderSize
    if n = 0 then
      return ⟨⟩
    else if h.programEntrySize ≠ size then
      throw .programHeaderEntrySize
    else if bytes.size < h.programOffset + n * size then
      throw .programHeaders
    else
      return ⟨⟩

end CompactTypes.Elf

import CompactTypes.Deflate.Zlib
import CompactTypes.Elf.Object
import CompactTypes.Text.Utf8

/-!
# Section data

`ObjectFile.data` are the bytes of a section.  They can be compressed, in which case either
the section is flagged and its data start with a compression header of the format, or its
name says so and they start with a header of an older kind.
-/

namespace CompactTypes.Elf

/-- Where the data of a section lie in the file, and how large they are when inflated if
they are compressed. -/
structure StoredData where
  offset : Nat
  size : Nat
  inflatedSize : Option Nat
  deriving DecidableEq, Repr, Inhabited

/-- The names of sections that say that the data are compressed start with this. -/
def compressedNameStart : ByteArray :=
  ".zdebug_".toUTF8

/-- The mark of a compression header of the older kind: the method, and the upper half of
the inflated size, which has to be zero. -/
def gnuMark : List UInt8 :=
  [0x5a, 0x4c, 0x49, 0x42, 0, 0, 0, 0]

/-- No data of this size or a larger one fit into memory. -/
def memoryLimit : Nat :=
  0x400000000

namespace ObjectFile

/-- The stored data of a section that is flagged as compressed. -/
def flaggedData (f : ObjectFile) (h : SectionHeader) : Except Defect StoredData :=
  let headerSize := f.layout.compressionHeaderSize
  match h.range? with
  | none => .error .compressedType
  | some (offset, size) =>
    match excerpt? f.bytes offset headerSize with
    | none => .error .compressedOffset
    | some header =>
      if size < headerSize then
        .error .compressedSize
      else if f.layout.number header 0 4 ≠ 1 then
        .error .unsupportedCompression
      else
        .ok ⟨offset + headerSize, size - headerSize,
          some (f.layout.address header (f.layout.pick 4 8))⟩

/-- The stored data of a section whose name says that they are compressed. -/
def gnuData (f : ObjectFile) (h : SectionHeader) : Except Defect StoredData :=
  match h.range? with
  | none => .error .gnuType
  | some (offset, size) =>
    match excerpt? f.bytes offset 8, excerpt? f.bytes (offset + 8) 4 with
    | none, _ => .error .gnuTooShort
    | some mark, low =>
      if byteList mark ≠ gnuMark then
        .error .gnuHeader
      else
        match low with
        | none => .error .gnuTooShort
        | some low =>
          if size < 12 then .error .gnuTooShort
          else .ok ⟨offset + 12, size - 12, some (ByteOrder.big.decode (byteList low))⟩

/-- The stored data of a section. -/
def storedData (f : ObjectFile) (h : SectionHeader) : Except Defect StoredData :=
  if h.isCompressed then
    f.flaggedData h
  else if ((f.names.string? h.name).getD .empty).extract 0 8 = compressedNameStart then
    f.gnuData h
  else
    match h.range? with
    | none => .ok ⟨0, 0, none⟩
    | some (offset, size) => .ok ⟨offset, size, none⟩

/-- The data of a section, inflated if they are compressed. -/
def data (f : ObjectFile) (h : SectionHeader) : Except Defect ByteArray := do
  let stored ← f.storedData h
  match excerpt? f.bytes stored.offset stored.size with
  | none => throw .sectionData
  | some bytes =>
    match stored.inflatedSize with
    | none => return bytes
    | some size =>
      if memoryLimit ≤ size then
        throw .inflatedRoom
      else
        match Deflate.decompressAtMost size bytes with
        | .ok inflated => return inflated
        | .error .corrupt => throw .corruptData
        | .error .incomplete => throw .inflatedSize

end ObjectFile

end CompactTypes.Elf

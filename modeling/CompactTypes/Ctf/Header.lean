import CompactTypes.Bytes.Order
import CompactTypes.Deflate.Zlib
import CompactTypes.Error

/-!
# The header

A file in the compact format starts with a `Header` of fixed size.  After it comes the body,
which `Header.body` inflates if a flag of the header says that it is compressed; the other
offsets in the header are relative to the start of the body.
-/

namespace CompactTypes.Ctf

/-- The number that marks a file in the compact format. -/
def magicNumber : UInt16 :=
  0xcff1

/-- The version of the compact format. -/
def formatVersion : UInt8 :=
  2

/-- The flag of a compressed body. -/
def compressedFlag : UInt8 :=
  1

/-- The number of bytes of a header. -/
def headerSize : Nat :=
  36

/-- The header of a file in the compact format. -/
structure Header where
  magic : UInt16
  version : UInt8
  flags : UInt8
  parentLabel : UInt32
  parentName : UInt32
  labelOffset : UInt32
  objectOffset : UInt32
  functionOffset : UInt32
  typeOffset : UInt32
  stringOffset : UInt32
  stringSize : UInt32
  deriving DecidableEq, Repr, Inhabited

namespace Header

/-- The bytes of a header. -/
def toBytes (o : ByteOrder) (h : Header) : List UInt8 :=
  o.u16 h.magic ++ [h.version, h.flags]
    ++ o.u32 h.parentLabel ++ o.u32 h.parentName ++ o.u32 h.labelOffset
    ++ o.u32 h.objectOffset ++ o.u32 h.functionOffset ++ o.u32 h.typeOffset
    ++ o.u32 h.stringOffset ++ o.u32 h.stringSize

/-- The fields that stand at the start of at least `headerSize` bytes. -/
def ofBytes (o : ByteOrder) (bytes : ByteArray) : Header :=
  let word (place : Nat) : UInt32 :=
    UInt32.ofNat (o.decode (byteList (bytes.extract place (place + 4))))
  { magic := UInt16.ofNat (o.decode (byteList (bytes.extract 0 2)))
    version := byteAt bytes 2
    flags := byteAt bytes 3
    parentLabel := word 4
    parentName := word 8
    labelOffset := word 12
    objectOffset := word 16
    functionOffset := word 20
    typeOffset := word 24
    stringOffset := word 28
    stringSize := word 32 }

/-- The header at the start of a file, which has to have the magic number and the version of
the format. -/
def read (o : ByteOrder) (bytes : ByteArray) : Except Error Header :=
  if bytes.size < headerSize then
    .error (.unencodable .truncatedHeader)
  else
    let h := ofBytes o bytes
    if h.magic = magicNumber ∧ h.version = formatVersion then .ok h
    else .error (.unencodable (.badHeader h.magic h.version))

/-- Whether the body is compressed. -/
def isCompressed (h : Header) : Bool :=
  h.flags &&& compressedFlag ≠ 0

/-- The body of a file that starts with a header. -/
def body (h : Header) (bytes : ByteArray) : Except Error ByteArray :=
  let stored := bytes.extract headerSize bytes.size
  if h.isCompressed then
    match Deflate.decompress stored with
    | .ok inflated => .ok inflated
    | .error .corrupt => .error (.unreadable .corruptDeflate)
    | .error .incomplete => .error (.unreadable .incompleteDeflate)
  else
    .ok stored

@[simp]
theorem length_toBytes (o : ByteOrder) (h : Header) :
  (h.toBytes o).length = headerSize
  := by
  simp [toBytes, headerSize]

end Header

end CompactTypes.Ctf

import CompactTypes.Ctf.Header
import CompactTypes.Ctf.StringTable
import CompactTypes.Graph.Basic

/-!
# Encoding

`Graph.sections` are the five sections of the body that encodes a graph: the label, the
types of the taken objects, the signatures of the taken functions, the types that have a
place in the output, and the texts that these name.  `Graph.encode` puts a header in front
of them.  All numbers are checked to fit, except that the values of enumerators and the
encodings of numbers are cut off.
-/

namespace CompactTypes

namespace Ctf

/-- The largest size that needs no more than its word. -/
def maxShortSize : UInt64 :=
  0xfffe

/-- The word in place of a size that does not fit. -/
def longSizeMark : UInt16 :=
  0xffff

/-- The size from which on the members of a struct or union have wide offsets. -/
def wideMemberSize : UInt64 :=
  8192

/-- A type number in a word. -/
def typeWord (index : UInt32) : Except Error UInt16 :=
  if index.toNat < wordValues 2 then .ok index.toUInt16
  else .error (.unencodable (.typeNumber index))

/-- A number of members, arguments or enumerators of a record in a word. -/
def countWord (r : TypeRecord) (count : Nat) : Except Error UInt16 :=
  if count ≤ maxEntries then .ok (UInt16.ofNat count)
  else .error (.unencodable (.tooManyEntries r.name r.kind count))

/-- The word that says what a type is and how many entries follow.  Types are marked as
roots, but not the signatures of functions. -/
def infoWord (kind : TypeKind) (isRoot : Bool) (count : UInt16) : UInt16 :=
  kind.number <<< 11 ||| (if isRoot then (1 : UInt16) else 0) <<< 10 ||| count

/-- A number of bytes as a number of bits below a bound. -/
def bitsBelow (bound : Nat) (r : TypeRecord) (quantity : Quantity) (value : UInt64) :
    Except Error Nat :=
  if 8 * value.toNat < bound then .ok (8 * value.toNat)
  else .error (.unencodable (.tooWide r.name r.kind quantity value))

/-- A 64-bit word as two halves, the upper one first. -/
def halves (o : ByteOrder) (value : UInt64) : List UInt8 :=
  o.u32 (value >>> 32).toUInt32 ++ o.u32 value.toUInt32

/-- The size of a type. -/
def sizeBytes (o : ByteOrder) (size : UInt64) : List UInt8 :=
  if maxShortSize < size then o.u16 longSizeMark ++ halves o size
  else o.u16 size.toUInt16

end Ctf

namespace TypeRecord

/-- The texts that the entry of a type names, in order. -/
def texts (r : TypeRecord) : List (Option String) :=
  match r.kind with
  | .struct | .union => r.name :: r.members.toList.map Member.name
  | .enum => r.name :: r.enumerators.toList.map fun e => some e.name
  | _ => [r.name]

end TypeRecord

namespace Graph

open Ctf

/-- The largest number of a type that has a place in the output. -/
def lastNumber (g : Graph) : UInt32 :=
  g.emittedTypes.foldl (fun last id => max last (g.get id).index) 0

/-- The texts of a graph and its label, in the order of their first use. -/
def texts (g : Graph) (label : String) : List (Option String) :=
  some label :: g.emittedTypes.flatMap fun id => (g.get id).texts

/-- The word for the type that the record at a position refers to. -/
def referencedWord (g : Graph) (id : TypeId) : Except Error UInt16 := do
  let target ← g.referenced id
  typeWord target.index

/-- The word for the type of a member or argument. -/
def memberWord (g : Graph) (m : Member) : Except Error UInt16 :=
  typeWord (g.get m.reference).index

/-- The words for the types of all arguments. -/
def argumentBytes (g : Graph) (o : ByteOrder) (r : TypeRecord) : Except Error (List UInt8) := do
  let words ← r.members.toList.mapM g.memberWord
  return words.flatMap o.u16

/-- The entry of a taken object. -/
def objectEntry (g : Graph) (o : ByteOrder) (id : TypeId) : Except Error (List UInt8) := do
  let word ← g.referencedWord id
  return o.u16 word

/-- The entry of a taken function; of a placeholder it is a lone zero. -/
def functionEntry (g : Graph) (o : ByteOrder) (id : TypeId) : Except Error (List UInt8) :=
  let r := g.get id
  if r.kind = .unknown then
    return o.u16 0
  else do
    let count ← countWord r r.members.size
    let returned ← g.referencedWord id
    let arguments ← g.argumentBytes o r
    return o.u16 (infoWord .function false count) ++ o.u16 returned ++ arguments

/-- The entry of a member of the record `r`. -/
def memberEntry (g : Graph) (o : ByteOrder) (strings : StringTable) (r : TypeRecord)
    (m : Member) : Except Error (List UInt8) := do
  let word ← g.memberWord m
  let front := o.u32 (strings.offset m.name) ++ o.u16 word
  if wideMemberSize ≤ r.size then
    let bits ← bitsBelow (wordValues 8) r .memberOffset m.offset
    return front ++ o.u16 0 ++ halves o (UInt64.ofNat bits)
  else
    let bits ← bitsBelow (wordValues 2) r .memberOffset m.offset
    return front ++ o.u16 (UInt16.ofNat bits)

/-- The entry of an enumerator, whose value is cut off to 32 bits. -/
def enumeratorEntry (o : ByteOrder) (strings : StringTable) (e : Enumerator) : List UInt8 :=
  o.u32 (strings.offset (some e.name)) ++ o.u32 e.value.toUInt64.toUInt32

/-- What comes after the name in the entry of a type. -/
def typeData (g : Graph) (o : ByteOrder) (strings : StringTable) (id : TypeId) :
    Except Error (List UInt8) :=
  let r := g.get id
  match r.kind with
  | .integer | .float => do
    let bits ← bitsBelow (wordValues 2) r .size r.size
    return o.u16 (infoWord r.kind true 0) ++ sizeBytes o r.size
      ++ o.u32 (r.encoding.toUInt32 <<< 24 ||| UInt32.ofNat bits)
  | .pointer | .typedef | .volatile | .const | .restrict => do
    let target ← g.referencedWord id
    return o.u16 (infoWord r.kind true 0) ++ o.u16 target
  | .array => do
    let content ← g.referencedWord id
    let index ← typeWord g.indexTypeNumber
    return o.u16 (infoWord r.kind true 0) ++ o.u16 0 ++ o.u16 content ++ o.u16 index
      ++ o.u32 r.elementCount
  | .function => do
    let count ← countWord r r.members.size
    let returned ← g.referencedWord id
    let arguments ← g.argumentBytes o r
    let padding := if r.members.size % 2 = 1 then o.u16 0 else []
    return o.u16 (infoWord r.kind true count) ++ o.u16 returned ++ arguments ++ padding
  | .struct | .union => do
    let count ← countWord r r.members.size
    let members ← r.members.toList.mapM (g.memberEntry o strings r)
    return o.u16 (infoWord r.kind true count) ++ sizeBytes o r.size ++ members.flatten
  | .enum => do
    let count ← countWord r r.enumerators.size
    let enumerators := r.enumerators.toList.map (enumeratorEntry o strings)
    return o.u16 (infoWord r.kind true count) ++ sizeBytes o r.size ++ enumerators.flatten
  | .unknown =>
    throw (.unexpectedKind r.kind)

/-- The entry of a type. -/
def typeEntry (g : Graph) (o : ByteOrder) (strings : StringTable) (id : TypeId) :
    Except Error (List UInt8) := do
  let _ ← typeWord (g.get id).index
  let data ← g.typeData o strings id
  return o.u32 (strings.offset (g.get id).name) ++ data

end Graph

namespace Ctf

/-- The sections of a body, in the order in which they are stored. -/
structure Sections where
  labels : List UInt8
  objects : List UInt8
  functions : List UInt8
  types : List UInt8
  strings : List UInt8
  deriving DecidableEq, Repr, Inhabited

namespace Sections

/-- The sections, one after the other. -/
def body (s : Sections) : List UInt8 :=
  s.labels ++ s.objects ++ s.functions ++ s.types ++ s.strings

/-- The header in front of the sections. -/
def header (s : Sections) (compressed : Bool) : Header :=
  let objectOffset := s.labels.length
  let functionOffset := objectOffset + s.objects.length
  let typeOffset := functionOffset + s.functions.length
  let stringOffset := typeOffset + s.types.length
  { magic := magicNumber
    version := formatVersion
    flags := if compressed then compressedFlag else 0
    parentLabel := 0
    parentName := 0
    labelOffset := 0
    objectOffset := UInt32.ofNat objectOffset
    functionOffset := UInt32.ofNat functionOffset
    typeOffset := UInt32.ofNat typeOffset
    stringOffset := UInt32.ofNat stringOffset
    stringSize := UInt32.ofNat s.strings.length }

/-- The file that holds the sections. -/
def toBytes (s : Sections) (o : ByteOrder) (compressed : Bool) : ByteArray :=
  let body := if compressed then Deflate.compress s.body else s.body
  ((s.header compressed).toBytes o ++ body).toByteArray

end Sections

end Ctf

namespace Graph

open Ctf

/-- The sections that encode a graph under a label. -/
def sections (g : Graph) (label : String) (o : ByteOrder) : Except Error Sections := do
  let strings := StringTable.ofTexts (g.texts label)
  let _ ← typeWord g.lastNumber
  let objects ← g.objects.toList.mapM (g.objectEntry o)
  let functions ← g.functions.toList.mapM (g.functionEntry o)
  let types ← g.emittedTypes.mapM (g.typeEntry o strings)
  return {
    labels := o.u32 (strings.offset (some label)) ++ o.u32 g.lastNumber
    objects := objects.flatten
    functions := functions.flatten
    types := types.flatten
    strings := byteList strings.bytes }

/-- The file that encodes a graph under a label. -/
def encode (g : Graph) (label : String) (o : ByteOrder) (compressed : Bool) :
    Except Error ByteArray := do
  let sections ← g.sections label o
  return sections.toBytes o compressed

end Graph

end CompactTypes

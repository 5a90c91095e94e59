import CompactTypes.Ctf.Encode
import CompactTypes.Proofs.Bytes.Parser
import CompactTypes.Proofs.Ctf.Container

/-!
# Documents

A `Document` is what a file in the compact format says: the label, the numbers of the types of
objects, the signatures of functions, and the entries of types.  `Document.read` makes it of
the bytes of a file, by the layout of the format alone; it accepts only files whose sections
have nothing left over and whose padding is zero.  When a document says what a graph holds is
`Document.Describes`.
-/

namespace CompactTypes

namespace Ctf

/-- A member of a struct or union, as a file describes it. -/
structure Field where
  name : String
  type : Nat
  bitOffset : Nat
  deriving DecidableEq, Repr

/-- A constant of an enumeration, as a file describes it. -/
structure Constant where
  name : String
  value : Int
  deriving DecidableEq, Repr

/-- The types that a function returns and takes. -/
structure Signature where
  returned : Nat
  arguments : List Nat
  deriving DecidableEq, Repr

/-- What a file says about a type besides its name and kind. -/
inductive Shape where
  | number (size encoding bitOffset bits : Nat)
  | reference (target : Nat)
  | array (content index count : Nat)
  | function (signature : Signature)
  | aggregate (size : Nat) (fields : List Field)
  | enumeration (size : Nat) (constants : List Constant)
  deriving DecidableEq, Repr

/-- What a file says about a type. -/
structure Entry where
  name : String
  kind : TypeKind
  isRoot : Bool
  shape : Shape
  deriving DecidableEq, Repr

/-- What a file says. -/
structure Document where
  label : String
  last : Nat
  objects : List Nat
  /-- The signatures of the functions; a placeholder has none. -/
  functions : List (Option Signature)
  types : List Entry
  deriving DecidableEq, Repr

/-! ### Reading a file -/

/-- The kind with a given code. -/
def kind? (code : Nat) : Option TypeKind :=
  TypeKind.all.find? fun kind => kind.number.toNat = code

/-- A kind, whether it is a root, and a number of entries. -/
structure Info where
  kind : TypeKind
  isRoot : Bool
  count : Nat
  deriving DecidableEq, Repr

/-- The parts of an info word. -/
def Info.ofWord? (word : Nat) : Option Info :=
  (kind? (word / 0x800)).map fun kind => ⟨kind, word / 0x400 % 2 = 1, word % 0x400⟩

section

variable (o : ByteOrder) (strings : ByteArray)

/-- Reads the text at an offset of the string table. -/
def parseText : Parser String := do
  let place ← Parser.number o 4
  let text ← Parser.ofOption (textAt? strings place)
  Parser.ofOption (String.fromUTF8? text)

/-- Reads two halves of a 64-bit number. -/
def parseHalves : Parser Nat := do
  let high ← Parser.number o 4
  let low ← Parser.number o 4
  return high * wordValues 4 + low

/-- Reads a size, which is long if the mark says so. -/
def parseSize : Parser Nat := do
  let short ← Parser.number o 2
  if short = 0xffff then parseHalves o else return short

/-- Reads a word of padding. -/
def parsePadding : Parser Unit := do
  let word ← Parser.number o 2
  Parser.expect (word = 0)

/-- Reads a 32-bit number with a sign. -/
def parseSigned : Parser Int := do
  let word ← Parser.number o 4
  return (word : Int).bmod (wordValues 4)

/-- Reads the types that a function returns and takes. -/
def parseSignature (count : Nat) : Parser Signature := do
  let returned ← Parser.number o 2
  let arguments ← Parser.times (Parser.number o 2) count
  return ⟨returned, arguments⟩

/-- Reads a member of a struct or union of a given size. -/
def parseField (size : Nat) : Parser Field := do
  let name ← parseText o strings
  let type ← Parser.number o 2
  if 8192 ≤ size then do
    parsePadding o
    let bitOffset ← parseHalves o
    return ⟨name, type, bitOffset⟩
  else do
    let bitOffset ← Parser.number o 2
    return ⟨name, type, bitOffset⟩

/-- Reads a constant of an enumeration. -/
def parseConstant : Parser Constant := do
  let name ← parseText o strings
  let value ← parseSigned o
  return ⟨name, value⟩

/-- Reads what follows the info word of a type. -/
def parseShape (kind : TypeKind) (count : Nat) : Parser Shape :=
  match kind with
  | .integer | .float => do
    Parser.expect (count = 0)
    let size ← parseSize o
    let word ← Parser.number o 4
    return .number size (word / 0x1000000) (word / 0x10000 % 0x100) (word % 0x10000)
  | .pointer | .typedef | .volatile | .const | .restrict => do
    Parser.expect (count = 0)
    let target ← Parser.number o 2
    return .reference target
  | .array => do
    Parser.expect (count = 0)
    parsePadding o
    let content ← Parser.number o 2
    let index ← Parser.number o 2
    let length ← Parser.number o 4
    return .array content index length
  | .function => do
    let signature ← parseSignature o count
    if count % 2 = 1 then do
      parsePadding o
      return .function signature
    else
      return .function signature
  | .struct | .union => do
    let size ← parseSize o
    let fields ← Parser.times (parseField o strings size) count
    return .aggregate size fields
  | .enum => do
    let size ← parseSize o
    let constants ← Parser.times (parseConstant o strings) count
    return .enumeration size constants
  | .unknown => Parser.ofOption none

/-- Reads the entry of a type. -/
def parseEntry : Parser Entry := do
  let name ← parseText o strings
  let word ← Parser.number o 2
  let info ← Parser.ofOption (Info.ofWord? word)
  let shape ← parseShape o strings info.kind info.count
  return ⟨name, info.kind, info.isRoot, shape⟩

/-- Reads the entry of a function; a lone zero stands for a placeholder. -/
def parseFunction : Parser (Option Signature) := do
  let word ← Parser.number o 2
  if word = 0 then
    return none
  else do
    let info ← Parser.ofOption (Info.ofWord? word)
    Parser.expect (info.kind = .function ∧ info.isRoot = false)
    let signature ← parseSignature o info.count
    return some signature

/-- Reads the entry of a label, with the number of the last type. -/
def parseLabel : Parser (String × Nat) := do
  let label ← parseText o strings
  let last ← Parser.number o 4
  return (label, last)

end

/-- What the sections of a file say; there has to be exactly one label. -/
def Sections.document? (s : Sections) (o : ByteOrder) : Option Document := do
  let strings := s.strings.toByteArray
  let [(label, last)] ← Parser.exhaust (parseLabel o strings) s.labels | none
  let objects ← Parser.exhaust (Parser.number o 2) s.objects
  let functions ← Parser.exhaust (parseFunction o) s.functions
  let types ← Parser.exhaust (parseEntry o strings) s.types
  return ⟨label, last, objects, functions, types⟩

/-- What a file says. -/
def Document.read (o : ByteOrder) (bytes : ByteArray) : Option Document := do
  let header ← (Header.read o bytes).toOption
  let body ← (header.body bytes).toOption
  let sections ← Sections.ofBody? header (byteList body)
  sections.document? o

end Ctf

/-! ### Describing a graph -/

namespace Graph

open Ctf

variable (g : Graph)

/-- The number of the type at a position. -/
def numberOf (id : TypeId) : Nat :=
  (g.get id).index.toNat

/-- The record at a position refers to a type with the given number. -/
def RefersTo (id : TypeId) (number : Nat) : Prop :=
  ∃ target, (g.get id).reference = some target ∧ number = g.numberOf target

/-- A signature is that of the record at a position. -/
def HasSignature (id : TypeId) (s : Signature) : Prop :=
  g.RefersTo id s.returned
    ∧ s.arguments = (g.get id).members.toList.map fun m => g.numberOf m.reference

/-- The description of a member. -/
def fieldOf (m : Member) : Field :=
  ⟨m.name.getD "", g.numberOf m.reference, 8 * m.offset.toNat⟩

/-- The description of an enumerator, whose value wraps around at 32 bits. -/
def constantOf (e : Enumerator) : Constant :=
  ⟨e.name, e.value.toInt.bmod (wordValues 4)⟩

/-- What the entry of a function says is what the record at a position says. -/
def HasFunction (id : TypeId) : Option Signature → Prop
  | none => (g.get id).kind = .unknown
  | some s => (g.get id).kind ≠ .unknown ∧ g.HasSignature id s

/-- What follows the name and kind of a type is what the record at a position says. -/
def HasShape (id : TypeId) (shape : Shape) : Prop :=
  let r := g.get id
  match shape with
  | .number size encoding bitOffset bits =>
    (r.kind = .integer ∨ r.kind = .float) ∧ size = r.size.toNat ∧ encoding = r.encoding.toNat
      ∧ bitOffset = 0 ∧ bits = 8 * r.size.toNat
  | .reference target =>
    r.kind ∈ [.pointer, .typedef, .volatile, .const, .restrict] ∧ g.RefersTo id target
  | .array content index count =>
    r.kind = .array ∧ g.RefersTo id content ∧ index = (g.indexType.map g.numberOf).getD 0
      ∧ count = r.elementCount.toNat
  | .function signature =>
    r.kind = .function ∧ g.HasSignature id signature
  | .aggregate size fields =>
    (r.kind = .struct ∨ r.kind = .union) ∧ size = r.size.toNat
      ∧ fields = r.members.toList.map g.fieldOf
  | .enumeration size constants =>
    r.kind = .enum ∧ size = r.size.toNat ∧ constants = r.enumerators.toList.map constantOf

/-- The entry of a type says what the record at a position says. -/
structure HasEntry (id : TypeId) (e : Entry) : Prop where
  name : e.name = (g.get id).name.getD ""
  kind : e.kind = (g.get id).kind
  isRoot : e.isRoot = true
  shape : g.HasShape id e.shape

end Graph

namespace Ctf

/-- A document says what a graph holds, entry by entry, under a label. -/
structure Document.Describes (d : Document) (g : Graph) (label : String) : Prop where
  label_eq : d.label = label
  last_eq : d.last = (g.emittedTypes.map g.numberOf).max?.getD 0
  objects : List.Forall₂ g.RefersTo g.objects.toList d.objects
  functions : List.Forall₂ g.HasFunction g.functions.toList d.functions
  types : List.Forall₂ g.HasEntry g.emittedTypes d.types

end Ctf

end CompactTypes

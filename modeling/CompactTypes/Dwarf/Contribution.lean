import CompactTypes.Dwarf.Expression
import CompactTypes.Dwarf.Unit
import CompactTypes.Graph.Record
import CompactTypes.Text.Utf8

/-!
# What an entry contributes

`Contribution` is what a debugging entry adds to the type graph, and `Contribution.read`
reads it from the attributes of the entry.  It depends on the `Scope` that the parent of the
entry has opened, and for a variable on how deeply it is nested.  Strings that cannot be
read are noted and count as missing; any other attribute that cannot be read is a fault.
-/

namespace CompactTypes.Dwarf

/-! ### Readings -/

/-- What has been read from an entry: the faults of strings that count as missing, in order,
and a value unless a fault has stopped the reading. -/
structure Reading (α : Type) where
  notices : List Fault
  value : Except Fault α

namespace Reading

/-- A value, or a fault that stops the reading. -/
def ofExcept {α : Type} (value : Except Fault α) : Reading α :=
  ⟨[], value⟩

/-- Goes on reading after a value. -/
def andThen {α β : Type} (r : Reading α) (f : α → Reading β) : Reading β :=
  match r.value with
  | .error e => ⟨r.notices, .error e⟩
  | .ok a =>
    let next := f a
    ⟨r.notices ++ next.notices, next.value⟩

instance : Monad Reading where
  pure a := ⟨[], .ok a⟩
  bind := andThen

end Reading

/-! ### Scopes and contributions -/

/-- What an entry offers to its children. -/
inductive Scope where
  | other
  /-- A struct or union takes members. -/
  | aggregate (id : TypeId)
  /-- An enumeration takes enumerators. -/
  | enumeration (id : TypeId)
  /-- A function takes arguments. -/
  | function (id : TypeId)
  /-- An array takes dimensions, of which `counts` have been met, the last one first.  The
  array stems from the entry at the offset `entry` and has elements of the type at the offset
  `target`. -/
  | array (id : TypeId) (entry : Nat) (target : Option Nat) (counts : List UInt32)
  deriving DecidableEq, Repr, Inhabited

/-- What an entry adds to the type graph.  A `target` is the offset of the type that a
record is to refer to; without one it refers to no type at all. -/
inductive Contribution where
  | nothing
  /-- A type that is built on no other one. -/
  | plain (record : TypeRecord)
  /-- A type that is built on another one. -/
  | derived (record : TypeRecord) (target : Option Nat)
  | array (record : TypeRecord) (target : Option Nat)
  | aggregate (record : TypeRecord)
  | enumeration (record : TypeRecord)
  /-- The type of functions that return the target. -/
  | subroutine (record : TypeRecord) (target : Option Nat)
  /-- A function that returns the target. -/
  | subprogram (record : TypeRecord) (target : Option Nat)
  /-- A variable whose type is the target. -/
  | object (record : TypeRecord) (target : Option Nat)
  /-- A dimension of the array that encloses the entry. -/
  | dimension (count : UInt32)
  /-- A member of a struct or union, or an argument of a function. -/
  | member (owner : TypeId) (name : Option String) (offset : UInt64) (target : Option Nat)
  | enumerator (owner : TypeId) (e : Enumerator)
  /-- Another name for the target. -/
  | synonym (target : Option Nat)
  deriving DecidableEq, Repr, Inhabited

/-! ### Attributes -/

/-- How many specifications or abstract origins are followed one after the other. -/
def maxOrigins : Nat :=
  4

namespace Entry

/-- The number that an attribute stands for. -/
def number? (e : Entry) (key : AttributeName) : Except Fault (Option Nat) := do
  let value ← e.value? key
  return value.bind Value.unsigned?

/-- The size in bytes, which is zero if there is none. -/
def byteSize (e : Entry) : Except Fault UInt64 := do
  let size ← e.number? .byteSize
  return UInt64.ofNat (size.getD 0)

/-- Whether the entry only declares what another one defines. -/
def isDeclaration (e : Entry) : Except Fault Bool := do
  let value ← e.value? .declaration
  return value = some (.flag true)

/-- The encoding of a base type, which is signed if there is none. -/
def baseEncoding (e : Entry) : Except Fault BaseEncoding := do
  let value ← e.value? .encoding
  return (value.bind Value.encoding?).getD .signed

/-- The offset in the unit of the entry that an attribute refers to. -/
def unitReference? (e : Entry) (key : AttributeName) : Except Fault (Option Nat) := do
  let value ← e.value? key
  match value with
  | some (.unitReference offset) => return some offset
  | _ => return none

/-- The offset in the unit of the entry that this one completes or instantiates. -/
def origin? (e : Entry) : Except Fault (Option Nat) := do
  match ← e.unitReference? .specification with
  | some offset => return some offset
  | none => e.unitReference? .abstractOrigin

/-- The value of an enumerator, which is zero if there is none. -/
def enumeratorValue (e : Entry) : Except Fault Int64 := do
  let value ← e.value? .constValue
  let number := value.bind fun v => v.signed?.or (v.unsigned?.map Int.ofNat)
  return Int64.ofInt (number.getD 0)

/-- The number of elements along a dimension.  A bound that is unknown or too large counts
as zero. -/
def dimensionCount (e : Entry) : Except Fault UInt32 := do
  let count ← do
    match ← e.number? .count with
    | some count => pure count
    | none =>
      match ← e.number? .upperBound with
      | some bound => pure ((bound + 1) % wordValues 8)
      | none => pure 0
  return if count < wordValues 4 then UInt32.ofNat count else 0

end Entry

namespace CompilationUnit

/-- The value of an attribute of an entry or, if it has none, of the nearest of its origins
that has one.  At most `hops` origins are visited. -/
def inherited? (u : CompilationUnit) (key : AttributeName) :
    Nat → Entry → Except Fault (Option Value)
  | 0, e => e.value? key
  | hops + 1, e => do
    match ← e.value? key with
    | some value => return some value
    | none =>
      match ← e.origin? with
      | none => return none
      | some offset =>
        let origin ← u.entryAt offset
        u.inherited? key hops origin

/-- The offset in the section of entries of the entry that a value refers to. -/
def target? (u : CompilationUnit) (value : Option Value) : Option Nat :=
  value.bind (Value.reference? u.offset)

/-- The type of an entry. -/
def typeOf (u : CompilationUnit) (e : Entry) : Except Fault (Option Nat) := do
  let value ← e.value? .type
  return u.target? value

/-- The type of an entry or of the nearest of its origins that has one. -/
def inheritedTypeOf (u : CompilationUnit) (e : Entry) : Except Fault (Option Nat) := do
  let value ← u.inherited? .type maxOrigins e
  return u.target? value

/-- Whether a variable lies at a fixed address. -/
def isStatic (u : CompilationUnit) (e : Entry) : Except Fault Bool := do
  match ← e.value? .location with
  | some (.expression bytes) =>
    let operation ← Operation.first? u.encoding bytes
    return operation = some .address
  | _ => return false

/-- The offset of a member in bytes, which is zero if it is not known.  It is a number, an
expression that adds a number, or a number of bits. -/
def memberOffset (u : CompilationUnit) (e : Entry) : Except Fault UInt64 := do
  match ← e.value? .memberLocation with
  | some (.expression bytes) =>
    match ← Operation.first? u.encoding bytes with
    | some (.plusConstant offset) => return UInt64.ofNat offset
    | _ => return 0
  | some value => return UInt64.ofNat (value.unsigned?.getD 0)
  | none =>
    let bits ← e.number? .dataBitOffset
    return UInt64.ofNat (bits.getD 0 / 8)

end CompilationUnit

namespace Sections

/-- The text that a value stands for.  A string that cannot be read is noted. -/
def text (s : Sections) (u : CompilationUnit) : Option Value → Reading (Option String)
  | none => ⟨[], .ok none⟩
  | some value =>
    match s.string u value with
    | .ok bytes => ⟨[], .ok (some (decodeLossy bytes))⟩
    | .error f => ⟨[f], .ok none⟩

/-- The name of an entry. -/
def nameOf (s : Sections) (u : CompilationUnit) (e : Entry) : Reading (Option String) := do
  let value ← .ofExcept (e.value? .name)
  s.text u value

/-- The name of an entry or of the nearest of its origins that has one. -/
def inheritedNameOf (s : Sections) (u : CompilationUnit) (e : Entry) :
    Reading (Option String) := do
  let value ← .ofExcept (u.inherited? .name maxOrigins e)
  s.text u value

end Sections

/-! ### Contributions by tag -/

/-- The kind of a base type of the given size, and the encoding that its record has. -/
def baseKind (size : UInt64) : BaseEncoding → TypeKind × UInt16
  | .float => (.float, if size = 4 then 1 else if size = 8 then 2 else 6)
  | .complexFloat => (.float, if size = 8 then 3 else if size = 16 then 4 else 5)
  | .signed => (.integer, 1)
  | .signedChar => (.integer, 3)
  | .unsignedChar => (.integer, 2)
  | .boolean => (.integer, 4)
  | .other _ => (.integer, 0)

namespace Contribution

/-- A base type. -/
def ofBase (s : Sections) (u : CompilationUnit) (e : Entry) : Reading Contribution := do
  let name ← s.nameOf u e
  let size ← .ofExcept e.byteSize
  let encoding ← .ofExcept e.baseEncoding
  let (kind, code) := baseKind size encoding
  return plain { TypeRecord.ofKind kind name with size := size, encoding := code }

/-- A record of the given kind that has a name. -/
def namedRecord (s : Sections) (u : CompilationUnit) (kind : TypeKind) (e : Entry) :
    Reading TypeRecord := do
  let name ← s.nameOf u e
  return TypeRecord.ofKind kind name

/-- A type of the given kind that is built on another one. -/
def ofDerived (s : Sections) (u : CompilationUnit) (kind : TypeKind) (e : Entry) :
    Reading Contribution := do
  let record ← namedRecord s u kind e
  let target ← .ofExcept (u.typeOf e)
  return derived record target

/-- An array. -/
def ofArray (s : Sections) (u : CompilationUnit) (e : Entry) : Reading Contribution := do
  let record ← namedRecord s u .array e
  let target ← .ofExcept (u.typeOf e)
  return array record target

/-- A record of the given kind that has a name and a size. -/
def sizedRecord (s : Sections) (u : CompilationUnit) (kind : TypeKind) (e : Entry) :
    Reading TypeRecord := do
  let name ← s.nameOf u e
  let size ← .ofExcept e.byteSize
  return { TypeRecord.ofKind kind name with size := size }

/-- A struct or union. -/
def ofAggregate (s : Sections) (u : CompilationUnit) (kind : TypeKind) (e : Entry) :
    Reading Contribution := do
  let record ← sizedRecord s u kind e
  return aggregate record

/-- An enumeration. -/
def ofEnumeration (s : Sections) (u : CompilationUnit) (e : Entry) :
    Reading Contribution := do
  let record ← sizedRecord s u .enum e
  return enumeration record

/-- The type of a function. -/
def ofSubroutine (s : Sections) (u : CompilationUnit) (e : Entry) :
    Reading Contribution := do
  let record ← namedRecord s u .function e
  let target ← .ofExcept (u.typeOf e)
  return subroutine record target

/-- A dimension, which counts inside an array only. -/
def ofSubrange (parent : Option Scope) (e : Entry) : Reading Contribution :=
  match parent with
  | some (.array ..) => do
    let count ← .ofExcept e.dimensionCount
    return dimension count
  | _ => return nothing

/-- A member, which counts inside a struct or union only. -/
def ofMember (s : Sections) (u : CompilationUnit) (parent : Option Scope) (e : Entry) :
    Reading Contribution :=
  match parent with
  | some (.aggregate owner) => do
    if ← .ofExcept e.isDeclaration then
      return nothing
    else
      let name ← s.nameOf u e
      let offset ← .ofExcept (u.memberOffset e)
      let target ← .ofExcept (u.typeOf e)
      return member owner name offset target
  | _ => return nothing

/-- An enumerator, which counts inside an enumeration only. -/
def ofEnumerator (s : Sections) (u : CompilationUnit) (parent : Option Scope) (e : Entry) :
    Reading Contribution :=
  match parent with
  | some (.enumeration owner) => do
    let value ← .ofExcept e.enumeratorValue
    let name ← s.nameOf u e
    return enumerator owner ⟨name.getD "", value⟩
  | _ => return nothing

/-- An argument, which counts inside a function only. -/
def ofParameter (s : Sections) (u : CompilationUnit) (parent : Option Scope) (e : Entry) :
    Reading Contribution :=
  match parent with
  | some (.function owner) => do
    let name ← s.inheritedNameOf u e
    let target ← .ofExcept (u.inheritedTypeOf e)
    return member owner name 0 target
  | _ => return nothing

/-- The record of a function or variable that a symbol of the given class can take. -/
def symbolRecord (c : SymbolClass) (name : String) : TypeRecord :=
  let kind := match c with
    | .function => .function
    | .object => .unknown
  { TypeRecord.ofKind kind (some name) with flags := Flags.ofClass c }

/-- The record of a function, unless it is only declared or has no name. -/
def functionRecord? (s : Sections) (u : CompilationUnit) (e : Entry) :
    Reading (Option TypeRecord) := do
  if ← .ofExcept e.isDeclaration then
    return none
  else
    let name ← s.inheritedNameOf u e
    return name.map (symbolRecord .function)

/-- A function, unless it has no record. -/
def ofSubprogram (s : Sections) (u : CompilationUnit) (e : Entry) :
    Reading Contribution := do
  match ← functionRecord? s u e with
  | none => return nothing
  | some record =>
    let target ← .ofExcept (u.inheritedTypeOf e)
    return subprogram record target

/-- The record of a variable, unless it is only declared, lies on the stack or has no name. -/
def variableRecord? (s : Sections) (u : CompilationUnit) (depth : Int) (e : Entry) :
    Reading (Option TypeRecord) := do
  if ← .ofExcept e.isDeclaration then
    return none
  else if ← .ofExcept (if depth = 1 then .ok true else u.isStatic e) then
    let name ← s.inheritedNameOf u e
    return name.map (symbolRecord .object)
  else
    return none

/-- A variable, unless it has no record. -/
def ofVariable (s : Sections) (u : CompilationUnit) (depth : Int) (e : Entry) :
    Reading Contribution := do
  match ← variableRecord? s u depth e with
  | none => return nothing
  | some record =>
    let target ← .ofExcept (u.inheritedTypeOf e)
    return object record target

/-- An atomic type, which stands for the type that it qualifies. -/
def ofAtomic (u : CompilationUnit) (e : Entry) : Reading Contribution := do
  let target ← .ofExcept (u.typeOf e)
  return synonym target

/-- What an entry at the given depth contributes; `parent` is the scope that its parent has
opened. -/
def read (s : Sections) (u : CompilationUnit) (parent : Option Scope) (depth : Int)
    (e : Entry) : Reading Contribution :=
  match e.tag with
  | .baseType => ofBase s u e
  | .pointerType | .referenceType | .rvalueReferenceType => ofDerived s u .pointer e
  | .typedef => ofDerived s u .typedef e
  | .volatileType => ofDerived s u .volatile e
  | .constType => ofDerived s u .const e
  | .restrictType => ofDerived s u .restrict e
  | .arrayType => ofArray s u e
  | .subrangeType => ofSubrange parent e
  | .structureType | .classType => ofAggregate s u .struct e
  | .unionType => ofAggregate s u .union e
  | .member => ofMember s u parent e
  | .enumerationType => ofEnumeration s u e
  | .enumerator => ofEnumerator s u parent e
  | .subroutineType => ofSubroutine s u e
  | .subprogram => ofSubprogram s u e
  | .formalParameter => ofParameter s u parent e
  | .object => ofVariable s u depth e
  | .unspecifiedType | .pointerToMemberType => return synonym none
  | .atomicType => ofAtomic u e
  | .other _ => return nothing

/-- The record that an entry has added to the graph when a fault stops its reading.  Where an
entry refers to a type, its record is added before the reference is read, except that a member
is added after it. -/
def unfinished? (s : Sections) (u : CompilationUnit) (depth : Int) (e : Entry) :
    Option TypeRecord :=
  match e.tag with
  | .pointerType | .referenceType | .rvalueReferenceType =>
    (namedRecord s u .pointer e).value.toOption
  | .typedef => (namedRecord s u .typedef e).value.toOption
  | .volatileType => (namedRecord s u .volatile e).value.toOption
  | .constType => (namedRecord s u .const e).value.toOption
  | .restrictType => (namedRecord s u .restrict e).value.toOption
  | .arrayType => (namedRecord s u .array e).value.toOption
  | .subroutineType => (namedRecord s u .function e).value.toOption
  | .subprogram => (functionRecord? s u e).value.toOption.join
  | .object => (variableRecord? s u depth e).value.toOption.join
  | .baseType | .subrangeType | .structureType | .classType | .unionType | .member
  | .enumerationType | .enumerator | .formalParameter | .unspecifiedType
  | .pointerToMemberType | .atomicType | .other _ => none

end Contribution

end CompactTypes.Dwarf

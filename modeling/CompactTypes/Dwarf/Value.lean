import CompactTypes.Dwarf.Abbreviation

/-!
# Attribute values

`Value` is the value of an attribute as its form carries it, and `Value.read` takes one
from an input.  The views `Value.unsigned?`, `Value.signed?`, `Value.encoding?` and
`Value.reference?` say which of the values stand for a plain number, for the encoding of a
base type or for another entry.
-/

namespace CompactTypes.Dwarf

/-- How the words of a unit are stored. -/
structure Encoding where
  order : ByteOrder
  /-- The width of a section offset in bytes: 4, or 8 in the wide format. -/
  offsetSize : Nat
  version : Nat
  /-- The width of an address in bytes. -/
  addressSize : Nat
  deriving DecidableEq, Repr, Inhabited

/-- The width in bytes of an offset in the section of entries: version 2 stores an address
there. -/
def Encoding.infoReferenceSize (encoding : Encoding) : Nat :=
  if encoding.version = 2 then encoding.addressSize else encoding.offsetSize

/-- The value of an attribute. -/
inductive Value where
  /-- A number of `width` bytes, of unknown sign. -/
  | data (width : Nat) (value : Nat)
  | unsigned (value : Nat)
  | signed (value : Int)
  | flag (value : Bool)
  | block (bytes : ByteArray)
  /-- The bytes of a location expression. -/
  | expression (bytes : ByteArray)
  /-- An offset into another debugging section. -/
  | sectionOffset (offset : Nat)
  /-- An entry of the same unit, by its offset in the unit. -/
  | unitReference (offset : Nat)
  /-- An entry, by its offset in the section of entries. -/
  | infoReference (offset : Nat)
  | addressIndex (index : Nat)
  /-- The bytes of a string. -/
  | string (bytes : ByteArray)
  /-- A string, by its offset in the string section. -/
  | stringOffset (offset : Nat)
  /-- A string, by its offset in the string section of the line tables. -/
  | lineStringOffset (offset : Nat)
  /-- A string, by its index in the table of string offsets. -/
  | stringIndex (index : Nat)
  /-- A value that has no meaning here. -/
  | other
  deriving DecidableEq, Inhabited

namespace Value

/-! ### Reading -/

/-- The value of a form that stands alone.  `constant` is the value of the form
`Form.implicitConst`, if there is one. -/
def readDirect (encoding : Encoding) (constant : Option Int) : Form → Reader Value
  | .address => do
    Reader.skip encoding.addressSize
    return other
  | .addressIndex width => return addressIndex (← Reader.word encoding.order width)
  | .addressIndexLeb => return addressIndex (← Reader.unsigned)
  | .block width => do
    let length ← Reader.word encoding.order width
    return block (← Reader.block length)
  | .blockLeb => do
    let length ← Reader.unsigned
    return block (← Reader.block length)
  | .data16 => return block (← Reader.block 16)
  | .data width => return data width (← Reader.word encoding.order width)
  | .unsigned => return unsigned (← Reader.unsigned)
  | .signed => return signed (← Reader.signed)
  | .implicitConst =>
    match constant with
    | some value => return signed value
    | none => throw .misplacedImplicitConst
  | .expression => do
    let length ← Reader.unsigned
    return expression (← Reader.block length)
  | .flag => return flag ((← Reader.byte) ≠ 0)
  | .flagPresent => return flag true
  | .sectionOffset => return sectionOffset (← Reader.word encoding.order encoding.offsetSize)
  | .unitReference width => return unitReference (← Reader.word encoding.order width)
  | .unitReferenceLeb => return unitReference (← Reader.unsigned)
  | .infoReference =>
    return infoReference (← Reader.word encoding.order encoding.infoReferenceSize)
  | .signature => do
    Reader.skip 8
    return other
  | .supplement width => do
    Reader.skip width
    return other
  | .supplementOffset => do
    Reader.skip encoding.offsetSize
    return other
  | .string => return string (← Reader.nullTerminated)
  | .stringOffset => return stringOffset (← Reader.word encoding.order encoding.offsetSize)
  | .lineStringOffset =>
    return lineStringOffset (← Reader.word encoding.order encoding.offsetSize)
  | .stringIndex width => return stringIndex (← Reader.word encoding.order width)
  | .stringIndexLeb => return stringIndex (← Reader.unsigned)
  | .listIndex => do
    let _ ← Reader.unsigned
    return other
  | .indirect => throw .unknownForm
  | .unknown _ => throw .unknownForm

/-- The form that stands in front of an indirect value, once all the indirections that
follow one another have been read. -/
def readIndirect (i : Input) : Except Fault (Form × Input) :=
  match h : Reader.unsigned16 i with
  | .error f => .error f
  | .ok (code, j) =>
    if Form.ofCode code = .indirect then
      have := (Reader.progress_unsigned16 i code j h).2
      readIndirect j
    else
      .ok (Form.ofCode code, j)
termination_by i.remaining

/-- The value of a specification, as its form carries it. -/
def readStored (encoding : Encoding) (s : Specification) : Reader Value :=
  if s.form = .indirect then do
    let form ← (readIndirect : Reader Form)
    readDirect encoding none form
  else
    readDirect encoding (some s.constant) s.form

/-- Whether a number of `width` bytes is a section offset when it is the value of an
attribute of the given name.  Only the names that matter here are told apart. -/
def isSectionOffset (encoding : Encoding) (key : AttributeName) (width : Nat) : Bool :=
  (width = encoding.offsetSize) &&
    match key with
    | .lineTable => true
    | .location => true
    | .memberLocation => encoding.version ≤ 3
    | _ => false

/-- The value that an attribute of the given name has: a number can be a section offset,
and a block an expression. -/
def named (encoding : Encoding) (key : AttributeName) : Value → Value
  | data width value =>
    if isSectionOffset encoding key width then sectionOffset value else data width value
  | block bytes =>
    match key with
    | .location => expression bytes
    | .memberLocation => expression bytes
    | _ => block bytes
  | value => value

/-- The value of the attribute that a specification describes. -/
def read (encoding : Encoding) (s : Specification) : Reader Value := do
  let value ← readStored encoding s
  return named encoding s.name value

/-! ### Views -/

/-- The number of 64 bits, without a sign, that a value stands for. -/
def unsigned? : Value → Option Nat
  | data _ value => some value
  | unsigned value => some value
  | signed value => if 0 ≤ value then some value.toNat else none
  | _ => none

/-- The number of `width` bytes, read as a signed number in two's complement. -/
def signExtend (width value : Nat) : Int :=
  Int.bmod value (wordValues width)

/-- The number of 64 bits, with a sign, that a value stands for. -/
def signed? : Value → Option Int
  | data width value => some (signExtend width value)
  | unsigned value => if value < wordValues 8 / 2 then some value else none
  | signed value => some value
  | _ => none

/-- The encoding of a base type. -/
def encoding? (value : Value) : Option BaseEncoding :=
  match value.unsigned? with
  | some code => if code < 256 then some (BaseEncoding.ofCode code) else none
  | none => none

/-- The offset, in the section of entries, of the entry that a value in the unit at
`unitOffset` refers to. -/
def reference? (unitOffset : Nat) : Value → Option Nat
  | unitReference offset => some ((unitOffset + offset) % wordValues 8)
  | infoReference offset => some offset
  | _ => none

/-! ### Forwardness -/

theorem forward_readDirect (encoding : Encoding) (constant : Option Int) (form : Form) :
  (readDirect encoding constant form).Forward
  := by
  cases form
  case address =>
    exact (Reader.forward_skip _).bind fun _ => Reader.forward_pure _
  case addressIndex =>
    exact (Reader.forward_word _ _).bind fun _ => Reader.forward_pure _
  case addressIndexLeb =>
    exact Reader.progress_unsigned.forward.bind fun _ => Reader.forward_pure _
  case block =>
    apply (Reader.forward_word _ _).bind
    intro length
    exact (Reader.forward_block _).bind fun _ => Reader.forward_pure _
  case blockLeb =>
    apply Reader.progress_unsigned.forward.bind
    intro length
    exact (Reader.forward_block _).bind fun _ => Reader.forward_pure _
  case data16 =>
    exact (Reader.forward_block _).bind fun _ => Reader.forward_pure _
  case data =>
    exact (Reader.forward_word _ _).bind fun _ => Reader.forward_pure _
  case unsigned =>
    exact Reader.progress_unsigned.forward.bind fun _ => Reader.forward_pure _
  case signed =>
    exact Reader.progress_signed.forward.bind fun _ => Reader.forward_pure _
  case implicitConst =>
    cases constant with
    | none => exact Reader.forward_throw _
    | some value => exact Reader.forward_pure _
  case expression =>
    apply Reader.progress_unsigned.forward.bind
    intro length
    exact (Reader.forward_block _).bind fun _ => Reader.forward_pure _
  case flag =>
    exact Reader.progress_byte.forward.bind fun _ => Reader.forward_pure _
  case flagPresent =>
    exact Reader.forward_pure _
  case sectionOffset =>
    exact (Reader.forward_word _ _).bind fun _ => Reader.forward_pure _
  case unitReference =>
    exact (Reader.forward_word _ _).bind fun _ => Reader.forward_pure _
  case unitReferenceLeb =>
    exact Reader.progress_unsigned.forward.bind fun _ => Reader.forward_pure _
  case infoReference =>
    exact (Reader.forward_word _ _).bind fun _ => Reader.forward_pure _
  case signature =>
    exact (Reader.forward_skip _).bind fun _ => Reader.forward_pure _
  case supplement =>
    exact (Reader.forward_skip _).bind fun _ => Reader.forward_pure _
  case supplementOffset =>
    exact (Reader.forward_skip _).bind fun _ => Reader.forward_pure _
  case string =>
    exact Reader.progress_nullTerminated.forward.bind fun _ => Reader.forward_pure _
  case stringOffset =>
    exact (Reader.forward_word _ _).bind fun _ => Reader.forward_pure _
  case lineStringOffset =>
    exact (Reader.forward_word _ _).bind fun _ => Reader.forward_pure _
  case stringIndex =>
    exact (Reader.forward_word _ _).bind fun _ => Reader.forward_pure _
  case stringIndexLeb =>
    exact Reader.progress_unsigned.forward.bind fun _ => Reader.forward_pure _
  case listIndex =>
    exact Reader.progress_unsigned.forward.bind fun _ => Reader.forward_pure _
  case indirect =>
    exact Reader.forward_throw _
  case unknown =>
    exact Reader.forward_throw _

theorem forward_readIndirect :
  Reader.Forward readIndirect
  := by
  intro i form j h
  induction hsize : i.remaining using Nat.strongRecOn generalizing i with
  | ind n ih =>
    rw [readIndirect] at h
    split at h
    · cases h
    · rename_i code k hcode
      have step := Reader.progress_unsigned16 i code k hcode
      split at h
      · exact step.1.trans (ih k.remaining (hsize ▸ step.2) k h rfl)
      · cases h
        exact step.1

theorem forward_read (encoding : Encoding) (s : Specification) :
  (read encoding s).Forward
  := by
  apply Reader.Forward.bind
  · unfold readStored
    split
    · exact forward_readIndirect.bind fun _ => forward_readDirect _ _ _
    · exact forward_readDirect _ _ _
  · intro value
    exact Reader.forward_pure _

end Value

end CompactTypes.Dwarf

import CompactTypes.Dwarf.Value

/-!
# Location expressions

Only the first operation of a location expression is ever looked at.  `Operation.first?`
reads it whole, operands included, and tells apart the operations that say where a variable
or a member lies.
-/

namespace CompactTypes.Dwarf

/-- The first operation of an expression. -/
inductive Operation where
  /-- Pushes an address, given in full or by its index. -/
  | address
  /-- Adds a constant. -/
  | plusConstant (value : Nat)
  /-- Any other operation. -/
  | other
  deriving DecidableEq, Repr, Inhabited

namespace Operation

/-- An operation of no interest, after its operands. -/
def passing {α : Type} (operands : Reader α) : Reader Operation := do
  let _ ← operands
  return other

/-- A register number, which has 16 bits. -/
def register : Reader Nat := do
  let number ← Reader.unsigned
  if number < wordValues 2 then return number
  else throw .unsupportedRegister

/-- An index of 32 bits. -/
def index32 : Reader Nat := do
  let number ← Reader.unsigned
  if number < wordValues 4 then return number
  else throw .badUnsignedLeb128

/-- An operand after its own number of bytes. -/
def lengthAndBlock : Reader ByteArray := do
  let length ← Reader.unsigned
  Reader.block length

/-- The place that an operation of a stack machine names: a kind and an index. -/
def machinePlace (order : ByteOrder) : Reader Nat := do
  let kind ← Reader.byte
  if kind ≤ 2 then index32
  else if kind = 3 then Reader.word order 4
  else throw .invalidExpression

/-- The operands of the operation with the given code. -/
def ofCode (encoding : Encoding) (code : Nat) : Reader Operation :=
  let word := Reader.word encoding.order
  let offset := word encoding.offsetSize
  match code with
  | 0x03 => do
    let _ ← word encoding.addressSize
    return address
  | 0x23 => return plusConstant (← Reader.unsigned)
  | 0xa1 | 0xfb => do
    let _ ← Reader.unsigned
    return address
  | 0x08 | 0x09 | 0x15 | 0x94 | 0x95 => passing Reader.byte
  | 0x0a | 0x0b | 0x28 | 0x2f | 0x98 => passing (word 2)
  | 0x0c | 0x0d | 0x99 | 0xfa => passing (word 4)
  | 0x0e | 0x0f => passing (word 8)
  | 0x10 | 0x93 | 0xa2 | 0xfc | 0xa8 | 0xf7 | 0xa9 | 0xf9 => passing Reader.unsigned
  | 0x11 | 0x91 => passing Reader.signed
  | 0x90 => passing register
  | 0x92 => passing (do let _ ← register; Reader.signed)
  | 0x9a => passing offset
  | 0x9d => passing (do let _ ← Reader.unsigned; Reader.unsigned)
  | 0x9e | 0xa3 | 0xf3 => passing lengthAndBlock
  | 0xa0 | 0xf2 => passing (do let _ ← word encoding.infoReferenceSize; Reader.signed)
  | 0xa4 | 0xf4 =>
    passing (do
      let _ ← Reader.unsigned
      let length ← Reader.byte
      Reader.block length.toNat)
  | 0xa5 | 0xf5 => passing (do let _ ← register; Reader.unsigned)
  | 0xa6 | 0xf6 | 0xa7 => passing (do let _ ← Reader.byte; Reader.unsigned)
  | 0xed => passing (machinePlace encoding.order)
  | 0x06 | 0x96 | 0x97 | 0x9b | 0x9c | 0x9f | 0xe0 => return other
  | code =>
    if 0x70 ≤ code ∧ code ≤ 0x8f then passing Reader.signed
    else if 0x12 ≤ code ∧ code ≤ 0x6f then return other
    else throw .invalidExpression

/-- The first operation of an expression, if it has one. -/
def first? (encoding : Encoding) (bytes : ByteArray) : Except Fault (Option Operation) :=
  match Reader.byte (Input.ofBytes bytes) with
  | .error _ => .ok none
  | .ok (code, operands) => do
    let (operation, _) ← ofCode encoding code.toNat operands
    return some operation

end Operation

end CompactTypes.Dwarf

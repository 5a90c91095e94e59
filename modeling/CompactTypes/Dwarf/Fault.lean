/-!
# Faults of debugging information

`Dwarf.Fault` lists the ways in which the debugging sections can be malformed, and
`Dwarf.Fault.message` is the text that describes each of them.
-/

namespace CompactTypes.Dwarf

/-- A defect of the debugging sections. -/
inductive Fault where
  /-- A read goes past the last byte. -/
  | unexpectedEnd
  /-- A unit length is one of the reserved values. -/
  | reservedLength
  /-- A unit has a version other than 2, 3, 4 or 5. -/
  | unknownVersion
  /-- An address is not 1, 2, 4 or 8 bytes wide. -/
  | unsupportedAddressSize
  /-- A version 5 unit has an unknown type. -/
  | unsupportedUnitType
  /-- An unsigned variable-length number is wider than its type. -/
  | badUnsignedLeb128
  /-- A signed variable-length number is wider than its type. -/
  | badSignedLeb128
  /-- An abbreviation has the tag zero. -/
  | zeroTag
  /-- An attribute specification has the form zero. -/
  | zeroForm
  /-- The byte that says whether an entry has children is neither 0 nor 1. -/
  | badHasChildren
  /-- A list of attribute specifications ends in a pair that is only half zero. -/
  | expectedZero
  /-- Two abbreviations of one table share a code. -/
  | duplicateAbbreviation
  /-- An entry has a code that its abbreviation table does not define. -/
  | unknownAbbreviation
  /-- An attribute has an unknown form. -/
  | unknownForm
  /-- An indirect form names the form whose value lies in the abbreviation. -/
  | misplacedImplicitConst
  /-- A unit does not start with an entry. -/
  | missingRootEntry
  /-- An offset lies outside the entries of its unit. -/
  | offsetOutOfBounds
  /-- An offset points at a null entry. -/
  | noEntryAtOffset
  /-- A location expression has an unknown operation. -/
  | invalidExpression
  /-- A location expression names a register whose number has more than 16 bits. -/
  | unsupportedRegister
  /-- A string is asked of an attribute whose form holds none. -/
  | expectedStringForm
  deriving DecidableEq, Repr, Inhabited

/-- The text that describes a fault. -/
def Fault.message : Fault → String
  | unexpectedEnd => "Hit the end of input before it was expected"
  | reservedLength => "Found an unknown reserved length value"
  | unknownVersion => "Found an unknown DWARF version"
  | unsupportedAddressSize => "The specified address size is not supported"
  | unsupportedUnitType => "The `DW_UT_*` value for this unit is not supported yet"
  | badUnsignedLeb128 => "An error parsing an unsigned LEB128 value"
  | badSignedLeb128 => "An error parsing a signed LEB128 value"
  | zeroTag =>
    "An abbreviation declared that its tag is zero,\n                 "
      ++ "but zero is reserved for null records"
  | zeroForm =>
    "An attribute specification declared that its form is zero,\n                 "
      ++ "but zero is reserved for null records"
  | badHasChildren =>
    "The abbreviation's has-children byte was not one of\n                 "
      ++ "`DW_CHILDREN_\x7byes,no\x7d`"
  | expectedZero => "Expected a zero, found something else"
  | duplicateAbbreviation => "Found an abbreviation code that has already been used"
  | unknownAbbreviation => "Found a record with an unknown abbreviation code"
  | unknownForm => "Found an unknown `DW_FORM_*` type"
  | misplacedImplicitConst => "DW_FORM_implicit_const used in an invalid context."
  | missingRootEntry =>
    "A compilation unit or type unit is missing its top level DIE."
  | offsetOutOfBounds => "The given offset is out of bounds."
  | noEntryAtOffset => "Did not find an entry at the given offset."
  | invalidExpression => "Invalid opcode in DWARF expression"
  | unsupportedRegister => "Registers larger than `u16` are not supported."
  | expectedStringForm => "Expected an attribute value to be a string form."

end CompactTypes.Dwarf

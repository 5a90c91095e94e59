/-!
# Tags, attribute names and forms

The codes of the debugging format that mean something here.  `Tag`, `AttributeName` and
`Form` each keep one constructor for all the other codes.
-/

namespace CompactTypes.Dwarf

/-- What a debugging entry describes. -/
inductive Tag where
  | arrayType
  | classType
  | enumerationType
  | formalParameter
  | member
  | pointerType
  | referenceType
  | structureType
  | subroutineType
  | typedef
  | unionType
  | pointerToMemberType
  | subrangeType
  | baseType
  | constType
  | enumerator
  | subprogram
  /-- A variable. -/
  | object
  | volatileType
  | restrictType
  | unspecifiedType
  | rvalueReferenceType
  | atomicType
  /-- Any other code. -/
  | other (code : Nat)
  deriving DecidableEq, Repr, Inhabited

/-- The tag that a code stands for. -/
def Tag.ofCode : Nat → Tag
  | 0x01 => arrayType
  | 0x02 => classType
  | 0x04 => enumerationType
  | 0x05 => formalParameter
  | 0x0d => member
  | 0x0f => pointerType
  | 0x10 => referenceType
  | 0x13 => structureType
  | 0x15 => subroutineType
  | 0x16 => typedef
  | 0x17 => unionType
  | 0x1f => pointerToMemberType
  | 0x21 => subrangeType
  | 0x24 => baseType
  | 0x26 => constType
  | 0x28 => enumerator
  | 0x2e => subprogram
  | 0x34 => object
  | 0x35 => volatileType
  | 0x37 => restrictType
  | 0x3b => unspecifiedType
  | 0x42 => rvalueReferenceType
  | 0x47 => atomicType
  | code => other code

/-- What an attribute says about its entry. -/
inductive AttributeName where
  | location
  | name
  | byteSize
  | lineTable
  | lowPc
  | constValue
  | upperBound
  | abstractOrigin
  | count
  | memberLocation
  | declaration
  | encoding
  | specification
  | type
  | dataBitOffset
  | stringOffsetsBase
  /-- Any other code. -/
  | other (code : Nat)
  deriving DecidableEq, Repr, Inhabited

/-- The attribute name that a code stands for. -/
def AttributeName.ofCode : Nat → AttributeName
  | 0x02 => location
  | 0x03 => name
  | 0x0b => byteSize
  | 0x10 => lineTable
  | 0x11 => lowPc
  | 0x1c => constValue
  | 0x2f => upperBound
  | 0x31 => abstractOrigin
  | 0x37 => count
  | 0x38 => memberLocation
  | 0x3c => declaration
  | 0x3e => encoding
  | 0x47 => specification
  | 0x49 => type
  | 0x6b => dataBitOffset
  | 0x72 => stringOffsetsBase
  | code => other code

/-- How the value of an attribute is stored.  A `width` is a number of bytes; the forms
whose name ends in `Leb` hold a variable-length number instead. -/
inductive Form where
  | address
  | addressIndex (width : Nat)
  | addressIndexLeb
  /-- Bytes after their number, which is itself `width` bytes wide. -/
  | block (width : Nat)
  | blockLeb
  /-- Sixteen plain bytes. -/
  | data16
  | data (width : Nat)
  | unsigned
  | signed
  /-- A signed number that stands in the abbreviation. -/
  | implicitConst
  | expression
  | flag
  /-- True, and no bytes at all. -/
  | flagPresent
  | sectionOffset
  | unitReference (width : Nat)
  | unitReferenceLeb
  | infoReference
  /-- The signature of a type unit. -/
  | signature
  /-- A reference of `width` bytes into a supplementary file. -/
  | supplement (width : Nat)
  /-- An offset into a supplementary file. -/
  | supplementOffset
  | string
  | stringOffset
  | lineStringOffset
  | stringIndex (width : Nat)
  | stringIndexLeb
  /-- An index into a table of lists. -/
  | listIndex
  /-- The form stands in front of the value. -/
  | indirect
  /-- Any other code. -/
  | unknown (code : Nat)
  deriving DecidableEq, Repr, Inhabited

/-- The form that a code stands for. -/
def Form.ofCode : Nat → Form
  | 0x01 => address
  | 0x03 => block 2
  | 0x04 => block 4
  | 0x05 => data 2
  | 0x06 => data 4
  | 0x07 => data 8
  | 0x08 => string
  | 0x09 => blockLeb
  | 0x0a => block 1
  | 0x0b => data 1
  | 0x0c => flag
  | 0x0d => signed
  | 0x0e => stringOffset
  | 0x0f => unsigned
  | 0x10 => infoReference
  | 0x11 => unitReference 1
  | 0x12 => unitReference 2
  | 0x13 => unitReference 4
  | 0x14 => unitReference 8
  | 0x15 => unitReferenceLeb
  | 0x16 => indirect
  | 0x17 => sectionOffset
  | 0x18 => expression
  | 0x19 => flagPresent
  | 0x1a => stringIndexLeb
  | 0x1b => addressIndexLeb
  | 0x1c => supplement 4
  | 0x1d => supplementOffset
  | 0x1e => data16
  | 0x1f => lineStringOffset
  | 0x20 => signature
  | 0x21 => implicitConst
  | 0x22 => listIndex
  | 0x23 => listIndex
  | 0x24 => supplement 8
  | 0x25 => stringIndex 1
  | 0x26 => stringIndex 2
  | 0x27 => stringIndex 3
  | 0x28 => stringIndex 4
  | 0x29 => addressIndex 1
  | 0x2a => addressIndex 2
  | 0x2b => addressIndex 3
  | 0x2c => addressIndex 4
  | 0x1f01 => addressIndexLeb
  | 0x1f02 => stringIndexLeb
  | 0x1f20 => supplementOffset
  | 0x1f21 => supplementOffset
  | code => unknown code

/-- How the bits of a base type are to be read. -/
inductive BaseEncoding where
  | boolean
  | complexFloat
  | float
  | signed
  | signedChar
  | unsignedChar
  /-- Any other code. -/
  | other (code : Nat)
  deriving DecidableEq, Repr, Inhabited

/-- The base type encoding that a code stands for. -/
def BaseEncoding.ofCode : Nat → BaseEncoding
  | 0x02 => boolean
  | 0x03 => complexFloat
  | 0x04 => float
  | 0x05 => signed
  | 0x06 => signedChar
  | 0x08 => unsignedChar
  | code => other code

end CompactTypes.Dwarf

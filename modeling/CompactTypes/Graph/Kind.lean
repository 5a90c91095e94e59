/-!
# Kinds of types

`TypeKind` is what a record of the type graph describes.  `TypeKind.number` is its code in
the compact format, and `TypeKind.needsReference` singles out the kinds that are built on
top of another type.
-/

namespace CompactTypes

/-- What a record of the type graph describes. -/
inductive TypeKind where
  /-- Nothing that could be listed: a variable, or a symbol without type information. -/
  | unknown
  | integer
  | float
  | pointer
  | array
  | function
  | struct
  | union
  | enum
  | typedef
  | volatile
  | const
  | restrict
  deriving DecidableEq, Repr, Inhabited

namespace TypeKind

/-- The code of a kind in the compact format. -/
def number : TypeKind → UInt16
  | unknown => 0
  | integer => 1
  | float => 2
  | pointer => 3
  | array => 4
  | function => 5
  | struct => 6
  | union => 7
  | enum => 8
  | typedef => 10
  | volatile => 11
  | const => 12
  | restrict => 13

/-- Whether every record of a kind has to refer to another record. -/
def needsReference : TypeKind → Bool
  | pointer | typedef | volatile | const | restrict | array | function => true
  | unknown | integer | float | struct | union | enum => false

/-- The name of a kind. -/
def label : TypeKind → String
  | unknown => "Unknown"
  | integer => "Integer"
  | float => "Float"
  | pointer => "Pointer"
  | array => "Array"
  | function => "Function"
  | struct => "Struct"
  | union => "Union"
  | enum => "Enum"
  | typedef => "Typedef"
  | volatile => "Volatile"
  | const => "Const"
  | restrict => "Restrict"

/-- Every kind. -/
def all : List TypeKind :=
  [unknown, integer, float, pointer, array, function, struct, union, enum, typedef,
    volatile, const, restrict]

end TypeKind

end CompactTypes

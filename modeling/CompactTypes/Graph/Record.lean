import CompactTypes.Graph.Kind

/-!
# Records

A `TypeRecord` describes one type, or one function or variable that a symbol can stand for.
Records refer to each other by `TypeId`, their position in the graph that holds them.
-/

namespace CompactTypes

/-- The position of a record in its graph. -/
abbrev TypeId : Type :=
  Nat

/-- The two classes of symbols that have types. -/
inductive SymbolClass where
  | function
  | object
  deriving DecidableEq, Repr, Inhabited

/-- What a record has to do with the symbol table. -/
structure Flags where
  /-- The record describes a function symbol. -/
  function : Bool
  /-- The record describes a data symbol. -/
  object : Bool
  /-- A symbol has taken the record. -/
  claimed : Bool
  deriving DecidableEq, Repr, Inhabited

namespace Flags

/-- The flags of a plain type. -/
def none : Flags :=
  ⟨false, false, false⟩

/-- The flags of a record that a symbol of the given class can take. -/
def ofClass : SymbolClass → Flags
  | .function => ⟨true, false, false⟩
  | .object => ⟨false, true, false⟩

end Flags

/-- A member of a struct or union, or an argument of a function. -/
structure Member where
  name : Option String
  reference : TypeId
  /-- The offset in bytes; zero for an argument. -/
  offset : UInt64
  deriving DecidableEq, Repr, Inhabited

/-- A constant of an enumeration. -/
structure Enumerator where
  name : String
  value : Int64
  deriving DecidableEq, Repr, Inhabited

/-- The description of a type, a function or a variable. -/
structure TypeRecord where
  /-- The number of the type in the output, or zero before there is one. -/
  index : UInt32
  kind : TypeKind
  name : Option String
  /-- The size in bytes. -/
  size : UInt64
  /-- How the bits of an integer or a floating-point number are to be read. -/
  encoding : UInt16
  /-- The length of an array, or the number of arguments of a function. -/
  elementCount : UInt32
  /-- The type that this one is built on, a function returns, or a variable has. -/
  reference : Option TypeId
  members : Array Member
  enumerators : Array Enumerator
  flags : Flags
  /-- The position in the symbol table of the symbol that took the record. -/
  symbolSlot : Nat
  deriving DecidableEq, Repr

namespace TypeRecord

/-- A record of which only the kind and the name are known. -/
def ofKind (kind : TypeKind) (name : Option String) : TypeRecord where
  index := 0
  kind := kind
  name := name
  size := 0
  encoding := 0
  elementCount := 0
  reference := none
  members := #[]
  enumerators := #[]
  flags := .none
  symbolSlot := 0

instance : Inhabited TypeRecord :=
  ⟨ofKind .unknown none⟩

/-- The class of the symbols that can take a record. -/
def symbolClass? (r : TypeRecord) : Option SymbolClass :=
  if r.flags.function then some .function
  else if r.flags.object then some .object
  else none

/-- Whether a record describes a function or a variable, and not a plain type. -/
def isSymbol (r : TypeRecord) : Bool :=
  r.flags.function || r.flags.object

theorem isSymbol_eq_isSome (r : TypeRecord) :
  r.isSymbol = r.symbolClass?.isSome
  := by
  unfold isSymbol symbolClass?
  cases r.flags.function <;> cases r.flags.object <;> rfl

/-- The record, numbered. -/
def withIndex (r : TypeRecord) (index : UInt32) : TypeRecord :=
  { r with index := index }

/-- The record, referring to another one. -/
def withReference (r : TypeRecord) (target : TypeId) : TypeRecord :=
  { r with reference := some target }

/-- The record with one more member at the end. -/
def addMember (r : TypeRecord) (m : Member) : TypeRecord :=
  { r with members := r.members.push m }

/-- The record with one more enumerator at the end. -/
def addEnumerator (r : TypeRecord) (e : Enumerator) : TypeRecord :=
  { r with enumerators := r.enumerators.push e }

/-- The record, taken by the symbol at a position of the symbol table. -/
def claimedBy (r : TypeRecord) (slot : Nat) : TypeRecord :=
  { r with flags := { r.flags with claimed := true }, symbolSlot := slot }

/-- The record as it is before a symbol takes it. -/
def unclaimed (r : TypeRecord) : TypeRecord :=
  { r with flags := { r.flags with claimed := false }, symbolSlot := 0 }

end TypeRecord

end CompactTypes

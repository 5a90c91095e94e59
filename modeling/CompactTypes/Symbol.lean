import CompactTypes.Graph.Record

/-!
# Symbols

A `Symbol` is an entry of the symbol table of an object file.  Only a defined function or
data symbol has a type, `Symbol.symbolClass?`; it is looked up by its `Symbol.baseName`,
which leaves out the suffix that tells local copies apart.
-/

namespace CompactTypes

/-- What a symbol names. -/
inductive SymbolKind where
  | function
  | object
  | other
  deriving DecidableEq, Repr, Inhabited

/-- Where the thing that a symbol names lies. -/
inductive SymbolPlace where
  | defined
  | undefined
  | common
  deriving DecidableEq, Repr, Inhabited

/-- An entry of a symbol table. -/
structure Symbol where
  /-- The position in the table. -/
  index : Nat
  name : String
  kind : SymbolKind
  place : SymbolPlace
  deriving DecidableEq, Repr, Inhabited

/-- The class of the symbols of a kind. -/
def SymbolKind.symbolClass? : SymbolKind → Option SymbolClass
  | function => some .function
  | object => some .object
  | other => none

namespace Symbol

/-- The class of a symbol that has a type: it is defined and names a function or data. -/
def symbolClass? (s : Symbol) : Option SymbolClass :=
  match s.place with
  | .defined => s.kind.symbolClass?
  | .undefined | .common => none

/-- The characters of a name without its leading dots, up to the next dot. -/
def baseCharacters (name : List Char) : List Char :=
  (name.dropWhile (· = '.')).takeWhile (· ≠ '.')

/-- The name of a symbol without its leading dots, up to the next dot. -/
def baseName (s : Symbol) : String :=
  String.ofList (baseCharacters s.name.toList)

end Symbol

end CompactTypes

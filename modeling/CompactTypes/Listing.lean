import CompactTypes.Bytes.Order
import CompactTypes.Graph.Basic
import CompactTypes.Text.Quoted

/-!
# The listing

The listing of a graph shows the taken objects, the taken functions and the types that have
a place in the output, with an empty line after the objects and after the functions.  It is
the concatenation of `Graph.listingItems`; an item that cannot be shown ends it, and of such
an item nothing is written.
-/

namespace CompactTypes

/-- Text that has been written, and the error that ended it early. -/
structure Listing where
  text : String
  error : Option Error
  deriving DecidableEq, Repr, Inhabited

namespace Listing

/-- The items in front of the first one that cannot be shown, and its error. -/
def shown : List (Except Error String) → List String × Option Error
  | [] => ([], none)
  | .error e :: _ => ([], some e)
  | .ok s :: items => (s :: (shown items).1, (shown items).2)

/-- The items, one after the other, up to the first one that cannot be shown. -/
def ofItems (items : List (Except Error String)) : Listing :=
  let (texts, error) := shown items
  ⟨String.join texts, error⟩

end Listing

/-- The column up to which the number of an object and of its type are filled. -/
def objectColumn : Nat :=
  14

/-- How the encoding of a number is called. -/
def encodingName (encoding : UInt16) : String :=
  match encoding.toNat with
  | 1 => "SIGNED"
  | 2 => "CHAR"
  | 3 => "SIGNED CHAR"
  | 4 => "BOOL"
  | 5 => "SIGNED BOOL"
  | 16 => "VARARGS"
  | code => hexLiteral code

/-- A number of bytes as a number of bits, which is cut off at the largest 64-bit word. -/
def bitCount (size : UInt64) : Nat :=
  min (8 * size.toNat) (wordValues 8 - 1)

/-- The word for a type of the given kind. -/
def kindWord : TypeKind → String
  | .unknown => "UNKNOWN"
  | .integer => "INTEGER"
  | .float => "FLOAT"
  | .pointer => "POINTER"
  | .array => "ARRAY"
  | .function => "FUNCTION"
  | .struct => "STRUCT"
  | .union => "UNION"
  | .enum => "ENUM"
  | .typedef => "TYPEDEF"
  | .volatile => "VOLATILE"
  | .const => "CONST"
  | .restrict => "RESTRICT"

/-- The number of a type. -/
def numberText (index : UInt32) : String :=
  toString index.toNat

namespace Graph

/-- The number of the type that the record at a position refers to. -/
def referencedNumber (g : Graph) (id : TypeId) : Except Error UInt32 :=
  (g.referenced id).map TypeRecord.index

/-- The numbers of the types of the arguments, with the bracket that closes their list. -/
def argumentText (g : Graph) (r : TypeRecord) : String :=
  String.intercalate ", " (r.members.toList.map fun m => numberText (g.get m.reference).index)
    ++ ")\n"

/-- The line of a member. -/
def memberLine (g : Graph) (m : Member) : String :=
  "\t" ++ m.name.getD "unknown" ++ " type=" ++ numberText (g.get m.reference).index
    ++ " off=" ++ toString m.offset.toNat ++ "\n"

/-- The line of the object with the given place in the list of objects. -/
def objectLine (g : Graph) (id : TypeId) (place : Nat) : Except Error String := do
  let target ← g.referencedNumber id
  let r := g.get id
  let front := "  [" ++ toString place ++ "] " ++ numberText target
  let width := front.length
  let padding := (objectColumn - width) + (width - objectColumn)
  return front ++ String.ofList (List.replicate padding ' ') ++ " "
    ++ r.name.getD "(anon)" ++ " (" ++ toString r.symbolSlot ++ ")\n"

/-- Whether a taken function has no line. -/
def isSilent (r : TypeRecord) : Bool :=
  r.kind = .unknown && r.elementCount = 0

/-- The line of the function with the given place in the list of functions. -/
def functionLine (g : Graph) (id : TypeId) (place : Nat) : Except Error String :=
  let r := g.get id
  if isSilent r then
    .ok ""
  else do
    let target ← g.referencedNumber id
    return "  [" ++ toString place ++ "] FUNC (" ++ r.name.getD "unknown" ++ ") returns: "
      ++ numberText target ++ " args: (" ++ g.argumentText r

/-- The lines of a type. -/
def typeLines (g : Graph) (id : TypeId) : Except Error String :=
  let r := g.get id
  let name := r.name.getD "(anon)"
  let square := "  [" ++ numberText r.index ++ "] " ++ kindWord r.kind ++ " "
  let angle := "  <" ++ numberText r.index ++ "> " ++ kindWord r.kind ++ " "
  match r.kind with
  | .integer | .float =>
    return square ++ name ++ " encoding=" ++ encodingName r.encoding ++ " offset=0 bits="
      ++ toString (bitCount r.size) ++ "\n"
  | .pointer | .typedef | .volatile | .const | .restrict => do
    let target ← g.referencedNumber id
    return angle ++ name ++ " refers to " ++ numberText target ++ "\n"
  | .array => do
    let target ← g.referencedNumber id
    return square ++ name ++ " content: " ++ numberText target ++ " index: "
      ++ numberText g.indexTypeNumber ++ " nelems: " ++ toString r.elementCount.toNat ++ "\n\n"
  | .struct | .union =>
    return square ++ name ++ " (" ++ toString r.size.toNat ++ " bytes)\n"
      ++ String.join (r.members.toList.map g.memberLine) ++ "\n"
  | .enum =>
    return square ++ name ++ "\n\n"
  | .function => do
    let target ← g.referencedNumber id
    return square ++ "(" ++ r.name.getD "anon" ++ ") returns: " ++ numberText target
      ++ " args: (" ++ g.argumentText r
  | .unknown =>
    throw (.unexpectedKind r.kind)

/-- The lines of taken records, which are counted from one. -/
def numberedLines (line : TypeId → Nat → Except Error String) (ids : List TypeId) :
    List (Except Error String) :=
  (ids.zipIdx 1).map fun entry => line entry.1 entry.2

/-- All the items of the listing, in order. -/
def listingItems (g : Graph) : List (Except Error String) :=
  numberedLines g.objectLine g.objects.toList
    ++ [.ok "\n"]
    ++ numberedLines g.functionLine g.functions.toList
    ++ [.ok "\n"]
    ++ g.emittedTypes.map g.typeLines

/-- The listing of a graph. -/
def listing (g : Graph) : Listing :=
  .ofItems g.listingItems

end Graph

end CompactTypes

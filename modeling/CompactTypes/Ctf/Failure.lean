import CompactTypes.Graph.Kind
import CompactTypes.Text.Quoted

/-!
# Failures of the compact format

`Ctf.Failure` lists what the compact format cannot represent, and what can be wrong with the
header of a file in that format.
-/

namespace CompactTypes.Ctf

/-- A quantity that is stored as a number of bits. -/
inductive Quantity where
  | size
  | memberOffset
  deriving DecidableEq, Repr, Inhabited

/-- The name of a quantity. -/
def Quantity.label : Quantity → String
  | size => "size"
  | memberOffset => "member offset"

/-- The number of members, arguments or enumerators that a type can have. -/
def maxEntries : Nat :=
  0x3ff

/-- A reason why a graph has no encoding, or a header no meaning. -/
inductive Failure where
  /-- A header has fewer bytes than its fixed size. -/
  | truncatedHeader
  /-- A header has another magic number or version. -/
  | badHeader (magic : UInt16) (version : UInt8)
  /-- A type number does not fit in 16 bits. -/
  | typeNumber (index : UInt32)
  /-- A type has more than `maxEntries` members, arguments or enumerators. -/
  | tooManyEntries (name : Option String) (kind : TypeKind) (count : Nat)
  /-- A number of bytes does not fit, as a number of bits, into its word. -/
  | tooWide (name : Option String) (kind : TypeKind) (quantity : Quantity) (value : UInt64)
  deriving DecidableEq, Repr, Inhabited

/-- How a failure refers to a type. -/
def describe (name : Option String) (kind : TypeKind) : String :=
  name.getD "(anon)" ++ " " ++ kind.label

/-- The text that describes a failure. -/
def Failure.message : Failure → String
  | truncatedHeader => "truncated CTF header"
  | badHeader magic version =>
    "bad CTF magic " ++ hexLiteral magic.toNat ++ " or version " ++ toString version.toNat
  | typeNumber index => "type id " ++ toString index.toNat ++ " exceeds the CTF v2 limit"
  | tooManyEntries name kind count =>
    describe name kind ++ " has " ++ toString count ++ " entries, more than "
      ++ toString maxEntries
  | tooWide name kind quantity value =>
    describe name kind ++ " " ++ quantity.label ++ " " ++ toString value.toNat
      ++ " does not fit in CTF v2 bits"

end CompactTypes.Ctf

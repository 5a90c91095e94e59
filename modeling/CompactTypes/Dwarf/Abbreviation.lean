import CompactTypes.Dwarf.Constants
import CompactTypes.Dwarf.Stream
import Std.Data.TreeMap

/-!
# Abbreviations

An `Abbreviation` is the shape that entries of one code share: a tag, whether they have
children, and the attributes they hold with the form of each.  `AbbreviationTable.read`
reads the table of a unit, whose codes are pairwise distinct.
-/

namespace CompactTypes.Dwarf

/-- The name and the form of an attribute.  `constant` is the value of an attribute whose
form is `Form.implicitConst`. -/
structure Specification where
  name : AttributeName
  form : Form
  constant : Int
  deriving DecidableEq, Repr, Inhabited

/-- The shape of the entries of one code. -/
structure Abbreviation where
  code : Nat
  tag : Tag
  hasChildren : Bool
  specifications : List Specification
  deriving DecidableEq, Repr, Inhabited

/-- The abbreviations of a unit, by their code. -/
abbrev AbbreviationTable : Type :=
  Std.TreeMap Nat Abbreviation

namespace Specification

/-- The form after an attribute name. -/
def readForm : Reader Form := do
  let code ← Reader.unsigned16
  if code = 0 then throw .zeroForm
  else return Form.ofCode code

/-- The next specification, or nothing at the pair of zeros that ends a list. -/
def read? : Reader (Option Specification) := do
  let name ← Reader.unsigned16
  if name = 0 then
    let form ← Reader.unsigned16
    if form = 0 then return none
    else throw .expectedZero
  else
    let form ← readForm
    if form = .implicitConst then
      let constant ← Reader.signed
      return some ⟨AttributeName.ofCode name, form, constant⟩
    else
      return some ⟨AttributeName.ofCode name, form, 0⟩

theorem forward_readForm :
  readForm.Forward
  := by
  apply Reader.progress_unsigned16.forward.bind
  intro code
  split
  · exact Reader.forward_throw _
  · exact Reader.forward_pure _

theorem progress_read? :
  read?.Progress
  := by
  apply Reader.progress_unsigned16.bind
  intro name
  split
  · apply Reader.progress_unsigned16.forward.bind
    intro form
    split
    · exact Reader.forward_pure _
    · exact Reader.forward_throw _
  · apply forward_readForm.bind
    intro form
    split
    · exact Reader.progress_signed.forward.bind fun _ => Reader.forward_pure _
    · exact Reader.forward_pure _

/-- The specifications up to the pair of zeros that ends them. -/
def readAll : Reader (List Specification) :=
  Reader.many read? progress_read?.productive

theorem forward_readAll :
  readAll.Forward
  := Reader.forward_many _ progress_read?.forward

end Specification

namespace Abbreviation

/-- The byte that says whether entries have children. -/
def readHasChildren : Reader Bool := do
  let b ← Reader.byte
  if b = 0 then return false
  else if b = 1 then return true
  else throw .badHasChildren

/-- The next abbreviation, or nothing at the zero that ends a table. -/
def read? : Reader (Option Abbreviation) := do
  let code ← Reader.unsigned
  if code = 0 then return none
  else
    let tag ← Reader.unsigned16
    if tag = 0 then throw .zeroTag
    else
      let hasChildren ← readHasChildren
      let specifications ← Specification.readAll
      return some ⟨code, Tag.ofCode tag, hasChildren, specifications⟩

theorem forward_readHasChildren :
  readHasChildren.Forward
  := by
  apply Reader.progress_byte.forward.bind
  intro b
  split
  · exact Reader.forward_pure _
  · split
    · exact Reader.forward_pure _
    · exact Reader.forward_throw _

theorem progress_read? :
  read?.Progress
  := by
  apply Reader.progress_unsigned.bind
  intro code
  split
  · exact Reader.forward_pure _
  · apply Reader.progress_unsigned16.forward.bind
    intro tag
    split
    · exact Reader.forward_throw _
    · apply forward_readHasChildren.bind
      intro hasChildren
      exact Specification.forward_readAll.bind fun _ => Reader.forward_pure _

end Abbreviation

namespace AbbreviationTable

/-- The table of some abbreviations. -/
def ofList (abbreviations : List Abbreviation) : AbbreviationTable :=
  abbreviations.foldl (fun table a => table.insert a.code a) ∅

/-- The table that starts at an offset of the abbreviation section.  A code that is used
twice, which leaves the table smaller than the list, is reported before any fault that comes
after it. -/
def read (bytes : ByteArray) (offset : Nat) : Except Fault AbbreviationTable := do
  let (_, input) ← Reader.skip offset (Input.ofBytes bytes)
  let (abbreviations, _) :=
    Reader.collect Abbreviation.read? Abbreviation.progress_read?.productive input
  let table := ofList abbreviations.items
  if table.size = abbreviations.items.length then
    match abbreviations.fault with
    | some f => throw f
    | none => return table
  else
    throw .duplicateAbbreviation

/-- The abbreviation of a code. -/
def find? (table : AbbreviationTable) (code : Nat) : Option Abbreviation :=
  table[code]?

end AbbreviationTable

end CompactTypes.Dwarf

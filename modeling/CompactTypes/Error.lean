import CompactTypes.Ctf.Failure
import CompactTypes.Dwarf.Fault
import CompactTypes.Elf.Defect

/-!
# Errors

`Error` is everything that can stop a conversion, and `Error.message` the text that the user
sees.  An error that wraps a defect of the input has a cause of its own, `Error.cause?`.
-/

namespace CompactTypes

/-- What can go wrong when bytes are fetched or inflated. -/
inductive ReadFailure where
  /-- Compressed data is broken. -/
  | corruptDeflate
  /-- Compressed data ends early. -/
  | incompleteDeflate
  /-- The system refuses; the text is its own. -/
  | system (text : String)
  deriving DecidableEq, Repr, Inhabited

/-- The text that describes a failure to read. -/
def ReadFailure.message : ReadFailure → String
  | corruptDeflate => "corrupt deflate stream"
  | incompleteDeflate => "incomplete deflate stream"
  | system text => text

/-- What can stop a conversion. -/
inductive Error where
  /-- Bytes cannot be fetched, inflated or stored. -/
  | unreadable (failure : ReadFailure)
  | fileTooBig
  | notElf
  | malformedObject (defect : Elf.Defect)
  /-- The object file lacks a section that it has to have. -/
  | missingSection (name : String)
  | malformedDwarf (fault : Dwarf.Fault)
  /-- The entry at `offset` refers to `target`, where no type is. -/
  | danglingReference (offset target : Nat)
  /-- A record that has to refer to another one does not. -/
  | unresolvedReference (kind : TypeKind) (name : Option String)
  /-- A record of this kind has no place among the types. -/
  | unexpectedKind (kind : TypeKind)
  /-- The compact format cannot represent the graph. -/
  | unencodable (failure : Ctf.Failure)
  deriving DecidableEq, Repr, Inhabited

namespace Error

/-- The text of the defect that an error wraps. -/
def cause? : Error → Option String
  | unreadable failure => some failure.message
  | malformedObject defect => some defect.message
  | malformedDwarf fault => some fault.message
  | _ => none

/-- The text of an error. -/
def message : Error → String
  | unreadable failure => "I/O error: " ++ failure.message
  | fileTooBig => "file too big to fit memory"
  | notElf => "not an ELF file"
  | malformedObject defect => "malformed object file: " ++ defect.message
  | missingSection name => name ++ " section not found"
  | malformedDwarf fault => "malformed DWARF: " ++ fault.message
  | danglingReference offset target =>
    "DIE at .debug_info+" ++ hexLiteral offset ++ " refers to unknown DIE at .debug_info+"
      ++ hexLiteral target
  | unresolvedReference kind name =>
    "unresolved reference in " ++ kind.label ++ " type " ++ quotedOption name
  | unexpectedKind kind => "unexpected " ++ kind.label ++ " type in type listing"
  | unencodable failure => "cannot encode CTF: " ++ failure.message

end Error

end CompactTypes

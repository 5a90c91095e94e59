import CompactTypes.Ctf.Encode
import CompactTypes.Dwarf.Linking
import CompactTypes.Elf.Contents
import CompactTypes.Listing
import CompactTypes.Resolution

/-!
# Conversions

A `Conversion` is a graph that has been decoded from debugging sections, whose symbols have
been given their records and whose types have been numbered.  It can be listed and encoded.
-/

namespace CompactTypes

/-- A graph that is ready to be listed and encoded. -/
structure Conversion where
  graph : Graph
  order : ByteOrder
  statistics : Statistics
  deriving Inhabited

namespace Conversion

/-- The lines of the log about a decoding. -/
def decodingLog (decoded : Dwarf.Decoded) : List LogEntry :=
  let topic := "ctfconv::dwarf"
  let notices := decoded.notices.map fun f =>
    LogEntry.mk .debug topic ("unreadable string attribute: " ++ f.message)
  let summary := LogEntry.mk .info topic
    ("parsed " ++ toString decoded.unitCount ++ " compilation units into "
      ++ toString decoded.graph.allTypes.size ++ " types")
  match decoded.error with
  | some _ => notices
  | none => notices ++ [summary]

/-- The line of the log about the record of a symbol, unless it was there for it. -/
def outcomeLog (s : Symbol) : Outcome → List LogEntry
  | .matched => []
  | .duplicated => [⟨.debug, "ctfconv::resolve", s.name ++ ": already inserted"⟩]
  | .unknown => [⟨.debug, "ctfconv::resolve", "symbol not found: " ++ s.name⟩]

/-- The lines of the log about the records of symbols. -/
def resolutionLog (r : Resolution) : List LogEntry :=
  r.outcomes.toList.flatMap fun entry => outcomeLog entry.1 entry.2

/-- The line of the log about a conversion. -/
def summaryLog (c : Conversion) : LogEntry :=
  ⟨.info, "ctfconv::convert",
    toString c.graph.typeCount ++ " types, " ++ toString c.graph.functions.size
      ++ " functions, " ++ toString c.graph.objects.size ++ " objects ("
      ++ toString c.statistics.unknown ++ " without type information, "
      ++ toString c.statistics.duplicated ++ " duplicated)"⟩

/-- The graph that debugging sections describe. -/
def decode (sections : Dwarf.Sections) : Logged Graph :=
  let decoded := sections.decode .empty
  ⟨decodingLog decoded,
    match decoded.error with
    | some e => .error e
    | none => .ok decoded.graph⟩

/-- The conversion of a decoded graph. -/
def ofResolution (order : ByteOrder) (r : Resolution) : Conversion :=
  ⟨r.graph.assignIndices, order, r.statistics⟩

/-- The conversion of debugging sections and symbols. -/
def ofContents (contents : Elf.Contents) : Logged Conversion := do
  let graph ← decode contents.sections
  let resolution := resolve graph contents.symbols
  let conversion := ofResolution contents.sections.order resolution
  .write (resolutionLog resolution ++ [summaryLog conversion])
  return conversion

/-- The conversion of an object file. -/
def ofBytes (bytes : ByteArray) : Logged Conversion := do
  let contents ← Elf.Contents.ofBytes bytes
  ofContents contents

/-- The listing of a conversion. -/
def listing (c : Conversion) : Listing :=
  c.graph.listing

/-- The compressed file that encodes a conversion under a label, in the byte order of the
object file. -/
def encode (c : Conversion) (label : String) : Except Error ByteArray :=
  c.graph.encode label c.order true

end Conversion

end CompactTypes

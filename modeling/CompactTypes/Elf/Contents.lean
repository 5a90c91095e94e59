import CompactTypes.Dwarf.Unit
import CompactTypes.Elf.Data
import CompactTypes.Log
import CompactTypes.Symbol
import CompactTypes.Text.Utf8

/-!
# What a conversion needs

`Contents` are the debugging sections and the symbols of an object file, and
`Contents.ofBytes` finds them.  The sections of abbreviations and of entries have to be
there; everything else may be missing, which is logged.
-/

namespace CompactTypes.Elf

/-- The debugging sections and the symbols of an object file. -/
structure Contents where
  sections : Dwarf.Sections
  symbols : List Symbol
  deriving DecidableEq, Inhabited

namespace SymbolEntry

/-- What a symbol names. -/
def kind (e : SymbolEntry) : SymbolKind :=
  match e.info &&& 0xf with
  | 1 => .object
  | 2 => .function
  | _ => .other

/-- Where the thing that a symbol names lies. -/
def symbolPlace (e : SymbolEntry) : SymbolPlace :=
  match e.place with
  | 0 => .undefined
  | 0xfff2 => .common
  | _ => .defined

/-- The symbol at a position of a table.  A name that cannot be read is empty. -/
def toSymbol (names : StringTable) (e : SymbolEntry) (position : Nat) : Symbol where
  index := position
  name := decodeLossy ((names.string? e.name).getD .empty)
  kind := e.kind
  place := e.symbolPlace

end SymbolEntry

/-- The symbols of a table, all but the first entry, which stands for none. -/
def SymbolTable.symbols (t : SymbolTable) : List Symbol :=
  (t.entries.zipIdx.tail).map fun entry => entry.1.toSymbol t.names entry.2

namespace Contents

/-- A line of the log about the sections of the file. -/
def logLine (level : LogLevel) (text : String) : LogEntry :=
  ⟨level, "ctfconv::elf", text⟩

/-- The section of abbreviations. -/
def abbreviationSection : String :=
  ".debug_abbrev"

/-- The section of entries. -/
def infoSection : String :=
  ".debug_info"

/-- The section of strings. -/
def stringSection : String :=
  ".debug_str"

/-- The section of string offsets. -/
def stringOffsetSection : String :=
  ".debug_str_offsets"

/-- The section of the strings of the line tables. -/
def lineStringSection : String :=
  ".debug_line_str"

/-- The table of the names of symbols. -/
def nameSection : String :=
  ".strtab"

/-- The name of a debugging section in a file that keeps it compressed under another
name. -/
def compressedName (name : String) : ByteArray :=
  compressedNameStart ++ (name.drop 7).toString.toUTF8

/-- The section with the given name or, if it is a debugging section, with the name that it
has when it is compressed. -/
def find? (f : ObjectFile) (name : String) : Option SectionHeader :=
  let alternative :=
    if ".debug_".isPrefixOf name then f.sectionNamed? (compressedName name) else none
  (f.sectionNamed? name.toUTF8).or alternative

/-- The data of the section with the given name, if there is one. -/
def data? (f : ObjectFile) (name : String) : Except Error (Option ByteArray) :=
  match find? f name with
  | none => .ok none
  | some h =>
    match f.data h with
    | .ok bytes => .ok (some bytes)
    | .error d => .error (.malformedObject d)

/-- The data of a section that has to be there. -/
def required (f : ObjectFile) (name : String) : Except Error ByteArray := do
  match ← data? f name with
  | some bytes => return bytes
  | none => throw (.missingSection name)

/-- The data of a section, or no data. -/
def optional (f : ObjectFile) (name : String) : Except Error ByteArray := do
  let bytes ← data? f name
  return bytes.getD .empty

/-- A warning if something is missing. -/
def warnUnless (present : Bool) (text : String) : Logged Unit :=
  .write (if present then [] else [logLine .warn text])

/-- The byte order of the debugging sections, and their data. -/
def readSections (f : ObjectFile) : Logged Dwarf.Sections := do
  let abbreviations ← .ofExcept (required f abbreviationSection)
  let info ← .ofExcept (required f infoSection)
  let strings ← .ofExcept (data? f stringSection)
  warnUnless strings.isSome (stringSection ++ " section not found")
  let stringOffsets ← .ofExcept (optional f stringOffsetSection)
  let lineStrings ← .ofExcept (optional f lineStringSection)
  return ⟨f.layout.order, abbreviations, info, strings.getD .empty, stringOffsets, lineStrings⟩

/-- The object file with the given bytes. -/
def readObject (bytes : ByteArray) : Except Error ObjectFile :=
  if FileHeader.isElf bytes then
    match ObjectFile.read bytes with
    | .ok f => .ok f
    | .error d => .error (.malformedObject d)
  else
    .error .notElf

/-- The debugging sections and the symbols of the object file with the given bytes. -/
def ofBytes (bytes : ByteArray) : Logged Contents := do
  let f ← .ofExcept (readObject bytes)
  warnUnless (f.symbols.entries ≠ []) "symbol table not found"
  warnUnless (find? f nameSection).isSome "string table not found"
  let sections ← readSections f
  let symbols := f.symbols.symbols
  .write [logLine .info ("located " ++ toString sections.info.size ++ " bytes of "
    ++ infoSection ++ ", " ++ toString symbols.length ++ " symbols")]
  return ⟨sections, symbols⟩

end Contents

end CompactTypes.Elf

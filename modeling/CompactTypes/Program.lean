import CompactTypes.CommandLine
import CompactTypes.Conversion

/-!
# The program

`Options.prepare` does all the work that the options ask for but for storing the encoding,
and `Preparation.complete` says what the program shows and how it ends, given whether the
encoding could be stored.  `Request.perform` is both for any request.
-/

namespace CompactTypes

/-- The name of the program. -/
def programName : String :=
  "ctfconv"

/-- The line that tells the version of the program. -/
def versionText : String :=
  programName ++ " 0.1.0\n"

/-- How the program is to be used. -/
def usageText : String :=
  "Usage: " ++ programName ++ " [OPTIONS] <FILE>\n"

/-- What the program is for, and how it is to be used. -/
def helpText : String :=
  "Convert DWARF debugging information into CTF\n\n" ++ usageText
    ++ "\nArguments:\n"
    ++ "  <FILE>  ELF file with DWARF debugging information\n"
    ++ "\nOptions:\n"
    ++ "  -d, --dump             Dump the converted types, like ctfdump(1)\n"
    ++ "  -l, --label <LABEL>    Label stored in the CTF label section\n"
    ++ "  -o, --output <OUTPUT>  Where to write the CTF data\n"
    ++ "  -v, --verbose...       More logging; repeat for more\n"
    ++ "  -h, --help             Print help\n"
    ++ "  -V, --version          Print version\n"

/-- What a run of the program shows, how it ends, and the file that it leaves. -/
structure Run where
  status : UInt8
  output : String
  errorLines : List String
  stored : Option (String × ByteArray)
  deriving DecidableEq, Inhabited

/-- What is left to do at the end of a run. -/
inductive Ending where
  | nothing
  /-- Bytes are to be stored in a file. -/
  | store (path : String) (bytes : ByteArray)
  /-- An error is to be reported, together with what it is about. -/
  | failure (subject : String) (error : Error)
  deriving DecidableEq, Inhabited

/-- The work of a run, up to its end. -/
structure Preparation where
  output : String
  log : List LogEntry
  ending : Ending
  deriving DecidableEq, Inhabited

/-- The line that reports an error, its subject and its cause. -/
def failureLine (subject : String) (e : Error) : String :=
  let cause := match e.cause? with
    | some text => ": " ++ text
    | none => ""
  programName ++ ": " ++ subject ++ ": " ++ e.message ++ cause

/-- The lines of the log about the parts of an encoding. -/
def encodingLog (c : Conversion) (label : String) (bytes : ByteArray) : List LogEntry :=
  let strings := (Ctf.StringTable.ofTexts (c.graph.texts label)).bytes.size
  [⟨.debug, "ctfconv::ctf",
    "CTF: " ++ toString c.graph.lastNumber.toNat ++ " types, "
      ++ toString c.graph.objects.size ++ " objects, "
      ++ toString c.graph.functions.size ++ " functions, "
      ++ toString strings ++ " bytes of strings, "
      ++ toString bytes.size ++ " bytes total"⟩]

namespace Options

/-- Encodes a conversion that has been listed, if the options name a file for it. -/
def prepareOutput (o : Options) (c : Conversion) (output : String) (log : List LogEntry) :
    Preparation :=
  match o.output with
  | none => ⟨output, log, .nothing⟩
  | some path =>
    let label := o.label.getD ""
    match c.encode label with
    | .error e => ⟨output, log, .failure path e⟩
    | .ok bytes => ⟨output, log ++ encodingLog c label bytes, .store path bytes⟩

/-- Lists and encodes a conversion, as far as the options ask for it. -/
def prepareConversion (o : Options) (c : Conversion) (log : List LogEntry) : Preparation :=
  if o.dump then
    let listing := c.listing
    match listing.error with
    | some e => ⟨listing.text, log, .failure "dump failed" e⟩
    | none => o.prepareOutput c listing.text log
  else
    o.prepareOutput c "" log

/-- Does the work that the options ask for; `contents` are the bytes of the object file, if
they could be read. -/
def prepare (o : Options) (contents : Except ReadFailure ByteArray) : Preparation :=
  match contents with
  | .error failure => ⟨"", [], .failure o.file (.unreadable failure)⟩
  | .ok bytes =>
    let conversion := Conversion.ofBytes bytes
    match conversion.result with
    | .error e => ⟨"", conversion.log, .failure o.file e⟩
    | .ok c => o.prepareConversion c conversion.log

end Options

namespace Preparation

/-- The lines of the log that are shown at a level. -/
def shownLog (level : LogLevel) (log : List LogEntry) : List String :=
  (log.filter (LogEntry.isShown level)).map LogEntry.render

/-- The line of the log about a file that has been stored. -/
def storedLog (path : String) (bytes : ByteArray) : LogEntry :=
  ⟨.info, "ctfconv::convert",
    "wrote " ++ toString bytes.size ++ " bytes of CTF to " ++ path⟩

/-- The end of a run that shows the log at a level; `storing` says whether the file could be
stored, if there is one. -/
def complete (p : Preparation) (level : LogLevel) (storing : Except ReadFailure Unit) :
    Run :=
  let lines := shownLog level p.log
  match p.ending, storing with
  | .nothing, _ => ⟨0, p.output, lines, none⟩
  | .failure subject e, _ => ⟨1, p.output, lines ++ [failureLine subject e], none⟩
  | .store path bytes, .ok _ =>
    ⟨0, p.output, lines ++ shownLog level [storedLog path bytes], some (path, bytes)⟩
  | .store path _, .error failure =>
    ⟨1, p.output, lines ++ [failureLine path (.unreadable failure)], none⟩

end Preparation

namespace Request

/-- The run that a request leads to; `read` fetches the bytes of a file, and `store` says
whether a file can be stored. -/
def perform (request : Request) (read : String → Except ReadFailure ByteArray)
    (store : String → Except ReadFailure Unit) : Run :=
  match request with
  | .showVersion => ⟨0, versionText, [], none⟩
  | .showHelp => ⟨0, helpText, [], none⟩
  | .misuse => ⟨2, "", ["error: the arguments are invalid", "", usageText], none⟩
  | .run o =>
    let storing := match o.output with
      | some path => store path
      | none => .ok ⟨⟩
    (o.prepare (read o.file)).complete (LogLevel.ofVerbosity o.verbosity) storing

end Request

end CompactTypes

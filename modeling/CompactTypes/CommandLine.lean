/-!
# The command line

`CommandLine.parse` reads the arguments of the program.  Short options can be joined, the
value of an option can be attached to it, and two dashes end the options.  `Request` is what
the arguments ask for.
-/

namespace CompactTypes

/-- What to convert, and what to do with the result. -/
structure Options where
  /-- Whether to list the types. -/
  dump : Bool
  label : Option String
  /-- The file that is to hold the encoding. -/
  output : Option String
  verbosity : Nat
  /-- The object file. -/
  file : String
  deriving DecidableEq, Repr, Inhabited

/-- What the arguments of the program ask for. -/
inductive Request where
  | run (options : Options)
  | showVersion
  | showHelp
  /-- The arguments make no sense. -/
  | misuse
  deriving DecidableEq, Repr, Inhabited

namespace CommandLine

/-- The arguments that have been read so far. -/
structure Draft where
  dump : Bool
  label : Option String
  output : Option String
  verbosity : Nat
  file : Option String
  deriving DecidableEq, Repr, Inhabited

/-- No arguments. -/
def Draft.empty : Draft :=
  ⟨false, none, none, 0, none⟩

/-- An option that takes a value. -/
inductive ValueOption where
  | label
  | output
  deriving DecidableEq, Repr, Inhabited

/-- An option that takes none. -/
inductive FlagOption where
  | dump
  | verbose
  | version
  | help
  deriving DecidableEq, Repr, Inhabited

/-- What is known after some arguments: what they ask for, or the arguments so far. -/
abbrev Progress : Type :=
  Except Request Draft

namespace Draft

/-- Turns a flag on; listing can be asked for once. -/
def addFlag (p : Draft) : FlagOption → Progress
  | .dump => if p.dump then .error .misuse else .ok { p with dump := true }
  | .verbose => .ok { p with verbosity := p.verbosity + 1 }
  | .version => .error .showVersion
  | .help => .error .showHelp

/-- Sets the value of an option, once.  The name of a file is not empty. -/
def addValue (p : Draft) (o : ValueOption) (value : String) : Progress :=
  match o with
  | .label =>
    if p.label.isSome then .error .misuse else .ok { p with label := some value }
  | .output =>
    if p.output.isSome ∨ value = "" then .error .misuse
    else .ok { p with output := some value }

/-- Names the object file, once. -/
def addFile (p : Draft) (file : String) : Progress :=
  if p.file.isSome ∨ file = "" then .error .misuse else .ok { p with file := some file }

/-- What complete arguments ask for. -/
def finish (p : Draft) : Request :=
  match p.file with
  | none => .misuse
  | some file =>
    if p.dump ∨ (p.label.isSome ∧ p.output.isSome) then
      .run ⟨p.dump, p.label, p.output, p.verbosity, file⟩
    else
      .misuse

end Draft

/-- The option with the given letter. -/
def shortOption? : Char → Option (FlagOption ⊕ ValueOption)
  | 'd' => some (.inl .dump)
  | 'v' => some (.inl .verbose)
  | 'V' => some (.inl .version)
  | 'h' => some (.inl .help)
  | 'l' => some (.inr .label)
  | 'o' => some (.inr .output)
  | _ => none

/-- The option with the given word. -/
def longOption? : String → Option (FlagOption ⊕ ValueOption)
  | "dump" => some (.inl .dump)
  | "verbose" => some (.inl .verbose)
  | "version" => some (.inl .version)
  | "help" => some (.inl .help)
  | "label" => some (.inr .label)
  | "output" => some (.inr .output)
  | _ => none

/-- Whether an argument reads as an option. -/
def looksLikeOption (argument : List Char) : Bool :=
  match argument with
  | ['-'] => false
  | '-' :: _ => true
  | _ => false

/-- What the letters of an argument with joined options mean: the arguments known after
them, and an option that waits for its value. -/
def readLetters : List Char → Draft → Except Request (Draft × Option ValueOption)
  | [], p => .ok (p, none)
  | c :: cs, p =>
    match shortOption? c, cs with
    | none, _ => .error .misuse
    | some (.inl flag), cs => do
      let p ← p.addFlag flag
      readLetters cs p
    | some (.inr o), [] => .ok (p, some o)
    | some (.inr o), '=' :: value => do
      let p ← p.addValue o (String.ofList value)
      return (p, none)
    | some (.inr o), value => do
      let p ← p.addValue o (String.ofList value)
      return (p, none)

/-- What an option written as a word means; the word can be followed by a value. -/
def readWord (word : List Char) (p : Draft) :
    Except Request (Draft × Option ValueOption) :=
  let name := word.takeWhile (· ≠ '=')
  let value? := match word.drop name.length with
    | [] => none
    | _ :: value => some (String.ofList value)
  match longOption? (String.ofList name), value? with
  | some (.inl flag), none => do
    let p ← p.addFlag flag
    return (p, none)
  | some (.inr o), none => .ok (p, some o)
  | some (.inr o), some value => do
    let p ← p.addValue o value
    return (p, none)
  | some (.inl _), some _ => .error .misuse
  | none, _ => .error .misuse

/-- Reads arguments none of which is an option. -/
def readFiles : List (List Char) → Draft → Progress
  | [], p => .ok p
  | argument :: arguments, p => do
    let p ← p.addFile (String.ofList argument)
    readFiles arguments p

/-- Reads arguments.  `waiting` is an option that the argument before has left without a
value. -/
def readArguments : List (List Char) → Option ValueOption → Draft → Progress
  | [], none, p => .ok p
  | [], some _, _ => .error .misuse
  | argument :: arguments, some o, p =>
    if looksLikeOption argument then
      .error .misuse
    else do
      let p ← p.addValue o (String.ofList argument)
      readArguments arguments none p
  | argument :: arguments, none, p =>
    match argument with
    | ['-', '-'] => readFiles arguments p
    | '-' :: '-' :: word => do
      let (p, waiting) ← readWord word p
      readArguments arguments waiting p
    | '-' :: c :: cs => do
      let (p, waiting) ← readLetters (c :: cs) p
      readArguments arguments waiting p
    | file => do
      let p ← p.addFile (String.ofList file)
      readArguments arguments none p

/-- What the arguments of the program ask for. -/
def parse (arguments : List String) : Request :=
  match readArguments (arguments.map String.toList) none .empty with
  | .error request => request
  | .ok p => p.finish

end CommandLine

end CompactTypes

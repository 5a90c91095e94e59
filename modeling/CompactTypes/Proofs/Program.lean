import CompactTypes.Program
import CompactTypes.Proofs.Conversion.Success

/-!
# Runs of the program

What a run leaves behind depends on the conversion of its file and on the encoding, and on nothing
else, `Options.outcome_perform`.  So a run leaves a file if and only if one is asked for and the run
succeeds, and the file is then the whole encoding, `CommandLine.perform_parse`.  A run that fails
leaves no file: one whose conversion fails shows nothing either, and one that can only not be
encoded shows the complete listing.
-/

namespace CompactTypes

theorem Logged.ok_of_bind {α β : Type} {a : Logged α} {f : α → Logged β} {b : β}
    (h : (a >>= f).result = .ok b) :
  ∃ x, a.result = .ok x ∧ (f x).result = .ok b
  := by
  change (a.andThen f).result = .ok b at h
  rw [andThen] at h
  cases ha : a.result with
  | error e =>
    rw [ha] at h
    cases h
  | ok x =>
    rw [ha] at h
    exact ⟨x, rfl, h⟩

/-! ### Conversions -/

namespace Conversion

/-- The conversion of a file, if the file can be read. -/
def ofFile (read : String → Except ReadFailure ByteArray) (file : String) :
    Except Error Conversion :=
  match read file with
  | .error failure => .error (.unreadable failure)
  | .ok bytes => (ofBytes bytes).result

/-- The graph of a conversion has been decoded without an error. -/
theorem exists_of_ofBytes {bytes : ByteArray} {c : Conversion}
    (h : (ofBytes bytes).result = .ok c) :
  ∃ contents : Elf.Contents, (contents.sections.decode .empty).error = none
    ∧ c.graph = (contents.sections.decode .empty).graph.withSymbols contents.symbols
  := by
  obtain ⟨contents, -, h⟩ := Logged.ok_of_bind h
  obtain ⟨graph, decoded, h⟩ := Logged.ok_of_bind h
  obtain ⟨-, -, h⟩ := Logged.ok_of_bind h
  cases h
  rw [decode] at decoded
  dsimp only at decoded
  split at decoded
  next => cases decoded
  next success =>
    cases decoded
    exact ⟨contents, success, rfl⟩

/-- The listing of a conversion is complete. -/
theorem listing_complete {bytes : ByteArray} {c : Conversion}
    (h : (ofBytes bytes).result = .ok c) :
  c.listing.error = none
  := by
  obtain ⟨contents, decoded, graph⟩ := exists_of_ofBytes h
  have complete := Dwarf.Sections.complete_decode decoded
  obtain ⟨_, _, _, -, -, -, listed⟩ := (complete.numbered contents.symbols).listing_eq complete
  rw [listing, graph, listed]

theorem exists_of_ofFile {read : String → Except ReadFailure ByteArray} {file : String}
    {c : Conversion} (h : ofFile read file = .ok c) :
  ∃ bytes, read file = .ok bytes ∧ (ofBytes bytes).result = .ok c
  := by
  rw [ofFile] at h
  split at h
  next => cases h
  next bytes found => exact ⟨bytes, found, h⟩

end Conversion

/-! ### Outcomes -/

/-- What a run leaves behind: its status, its output and the file that it has stored. -/
def Run.outcome (run : Run) : UInt8 × String × Option (String × ByteArray) :=
  (run.status, run.output, run.stored)

namespace Options

/-- What a run with options leaves behind, by the conversion of its file. -/
def outcome (o : Options) :
    Except Error Conversion → UInt8 × String × Option (String × ByteArray)
  | .error _ => (1, "", none)
  | .ok c =>
    let text := if o.dump then c.listing.text else ""
    match o.output with
    | none => (0, text, none)
    | some path =>
      match c.encode (o.label.getD "") with
      | .error _ => (1, text, none)
      | .ok bytes => (0, text, some (path, bytes))

variable {o : Options} {read : String → Except ReadFailure ByteArray}

theorem prepare_error {e : Error} (h : Conversion.ofFile read o.file = .error e) :
  ∃ log e', o.prepare (read o.file) = ⟨"", log, .failure o.file e'⟩
  := by
  rw [Conversion.ofFile] at h
  split at h
  next failure missing =>
    rw [missing]
    exact ⟨[], .unreadable failure, rfl⟩
  next bytes found =>
    rw [found, prepare]
    simp only [h]
    exact ⟨_, e, rfl⟩

/-- A conversion is listed if the options ask for it, and then encoded. -/
theorem prepare_ok {c : Conversion} (h : Conversion.ofFile read o.file = .ok c) :
  ∃ log, o.prepare (read o.file) = o.prepareOutput c (if o.dump then c.listing.text else "") log
  := by
  obtain ⟨bytes, found, converted⟩ := Conversion.exists_of_ofFile h
  refine ⟨(Conversion.ofBytes bytes).log, ?_⟩
  rw [found, prepare]
  simp only [converted]
  simp only [prepareConversion, Conversion.listing_complete converted]
  split <;> rfl

/-- What a run leaves behind, if its file can be stored. -/
theorem outcome_perform (o : Options) (read : String → Except ReadFailure ByteArray)
    (store : String → Except ReadFailure Unit)
    (writable : ∀ path, o.output = some path → store path = .ok ⟨⟩) :
  ((Request.run o).perform read store).outcome = o.outcome (Conversion.ofFile read o.file)
  := by
  rw [Request.perform]
  cases converted : Conversion.ofFile read o.file with
  | error e =>
    obtain ⟨log, e', prepared⟩ := prepare_error converted
    rw [prepared]
    rfl
  | ok c =>
    obtain ⟨log, prepared⟩ := prepare_ok converted
    rw [prepared, prepareOutput, outcome]
    cases output : o.output with
    | none => rfl
    | some path =>
      dsimp only
      rw [writable path output]
      cases c.encode (o.label.getD "") <;> rfl

variable {r : Except Error Conversion} {status : UInt8} {text : String}
  {stored : Option (String × ByteArray)}

/-- A run has failed before it shows anything, or shows what is asked for; then it has nothing to
encode, fails to encode it, or stores it. -/
theorem outcome_cases (h : o.outcome r = (status, text, stored)) :
  (∃ e, r = .error e ∧ status = 1 ∧ text = "" ∧ stored = none)
  ∨ ∃ c, r = .ok c ∧ text = (if o.dump then c.listing.text else "")
    ∧ ((o.output = none ∧ status = 0 ∧ stored = none)
      ∨ ∃ path, o.output = some path
        ∧ ((∃ e, c.encode (o.label.getD "") = .error e ∧ status = 1 ∧ stored = none)
          ∨ ∃ bytes, c.encode (o.label.getD "") = .ok bytes ∧ status = 0
            ∧ stored = some (path, bytes)))
  := by
  cases r with
  | error e =>
    cases h
    exact .inl ⟨e, rfl, rfl, rfl, rfl⟩
  | ok c =>
    refine .inr ⟨c, rfl, ?_⟩
    rw [outcome] at h
    cases output : o.output with
    | none =>
      rw [output] at h
      cases h
      exact ⟨rfl, .inl ⟨rfl, rfl, rfl⟩⟩
    | some path =>
      rw [output] at h
      cases encoded : c.encode (o.label.getD "") with
      | error e =>
        simp only [encoded] at h
        cases h
        exact ⟨rfl, .inr ⟨path, rfl, .inl ⟨e, rfl, rfl, rfl⟩⟩⟩
      | ok bytes =>
        simp only [encoded] at h
        cases h
        exact ⟨rfl, .inr ⟨path, rfl, .inr ⟨bytes, rfl, rfl, rfl⟩⟩⟩

/-- A file is left if and only if it is asked for and the run succeeds. -/
theorem isSome_outcome (h : o.outcome r = (status, text, stored)) :
  stored.isSome ↔ o.output.isSome ∧ status = 0
  := by
  obtain ⟨e, -, rfl, -, rfl⟩ | ⟨c, -, -, ends⟩ := outcome_cases h
  · simp
  · obtain ⟨unnamed, rfl, rfl⟩ | ⟨path, named, ⟨e, -, rfl, rfl⟩ | ⟨bytes, -, rfl, rfl⟩⟩ := ends
    · simp [unnamed]
    · simp
    · simp [named]

/-- A file that is left holds the encoding. -/
theorem exists_of_outcome {path : String} {bytes : ByteArray}
    (h : o.outcome r = (status, text, some (path, bytes))) :
  o.output = some path ∧ ∃ c, r = .ok c ∧ c.encode (o.label.getD "") = .ok bytes
  := by
  obtain ⟨e, -, -, -, missing⟩ | ⟨c, converted, -, ends⟩ := outcome_cases h
  · cases missing
  · obtain ⟨-, -, missing⟩ | ⟨path', named, ⟨e, -, -, missing⟩ | ⟨bytes', encoded, -, same⟩⟩ := ends
    · cases missing
    · cases missing
    · cases same
      exact ⟨named, c, converted, encoded⟩

/-- A run whose file has been converted shows the listing that is asked for, and succeeds if no
encoding is asked for or the encoding is possible. -/
theorem outcome_ok {c : Conversion} (h : o.outcome (.ok c) = (status, text, stored)) :
  text = (if o.dump then c.listing.text else "")
  ∧ (o.output = none → status = 0)
  ∧ ∀ path, o.output = some path →
    (∀ e, c.encode (o.label.getD "") = .error e → status = 1 ∧ stored = none)
    ∧ ∀ bytes, c.encode (o.label.getD "") = .ok bytes → status = 0 ∧ stored = some (path, bytes)
  := by
  obtain ⟨e, failed, -⟩ | ⟨c', converted, shown, ends⟩ := outcome_cases h
  · cases failed
  · cases converted
    refine ⟨shown, ?_⟩
    obtain ⟨unnamed, rfl, -⟩ | ⟨path, named, ends⟩ := ends
    · simp [unnamed]
    · obtain ⟨e, encoded, rfl, rfl⟩ | ⟨bytes, encoded, rfl, rfl⟩ := ends <;> simp [named, encoded]

end Options

namespace CommandLine

variable {arguments : List String} {p : Draft} {file : String}

/-- Arguments that have been read ask for a run if they ask for a listing, or name a label and a
file for the encoding. -/
theorem parse_eq (parsed : readArguments (arguments.map String.toList) none .empty = .ok p)
    (named : p.file = some file) :
  parse arguments = if p.dump ∨ (p.label.isSome ∧ p.output.isSome) then
    .run ⟨p.dump, p.label, p.output, p.verbosity, file⟩ else .misuse
  := by
  rw [parse, parsed]
  dsimp only
  rw [Draft.finish, named]

/-- The runs of a command line that names a file, where the file for the encoding can be stored.
The run leaves a file if and only if one is asked for and the run succeeds, and the file holds the
encoding of the conversion.  If the command line asks for a listing, or for an encoding under a
label, then a conversion that fails leaves nothing and shows nothing; otherwise the listing that is
asked for is complete, and the run fails exactly if an encoding is asked for and fails.  Any other
command line is misused, whatever the files hold. -/
theorem perform_parse (parsed : readArguments (arguments.map String.toList) none .empty = .ok p)
    (named : p.file = some file) (read : String → Except ReadFailure ByteArray)
    (store : String → Except ReadFailure Unit)
    (writable : ∀ path, p.output = some path → store path = .ok ⟨⟩) :
  let run := (parse arguments).perform read store
  let label := p.label.getD ""
  (run.stored.isSome ↔ p.output.isSome ∧ run.status = 0)
  ∧ (∀ path bytes, run.stored = some (path, bytes) → p.output = some path
    ∧ ∃ content c, read file = .ok content ∧ (Conversion.ofBytes content).result = .ok c
      ∧ c.encode label = .ok bytes)
  ∧ (p.dump ∨ (p.label.isSome ∧ p.output.isSome) →
    (p.label = none → p.dump)
    ∧ (∀ e, Conversion.ofFile read file = .error e →
      run.status = 1 ∧ run.output = "" ∧ run.stored = none)
    ∧ ∀ c, Conversion.ofFile read file = .ok c →
      c.listing.error = none ∧ run.output = (if p.dump then c.listing.text else "")
      ∧ (p.output = none → run.status = 0)
      ∧ ∀ path, p.output = some path →
        (∀ e, c.encode label = .error e → run.status = 1 ∧ run.stored = none)
        ∧ ∀ bytes, c.encode label = .ok bytes →
          run.status = 0 ∧ run.stored = some (path, bytes))
  ∧ (¬(p.dump ∨ (p.label.isSome ∧ p.output.isSome)) →
    run.status = 2 ∧ run.output = "" ∧ run.stored = none
    ∧ ∀ read' store', (parse arguments).perform read' store' = run)
  := by
  intro run label
  have request := parse_eq parsed named
  by_cases asked : p.dump ∨ (p.label.isSome ∧ p.output.isSome)
  · rw [if_pos asked] at request
    let o : Options := ⟨p.dump, p.label, p.output, p.verbosity, file⟩
    have outcome : o.outcome (Conversion.ofFile read file)
        = (run.status, run.output, run.stored) := by
      have performed := o.outcome_perform read store writable
      rw [← request] at performed
      exact performed.symm
    refine ⟨Options.isSome_outcome outcome, fun path bytes stored => ?_, fun _ => ⟨?_, ?_, ?_⟩,
      absurd asked⟩
    · rw [stored] at outcome
      obtain ⟨named, c, converted, encoded⟩ := Options.exists_of_outcome outcome
      obtain ⟨content, found, result⟩ := Conversion.exists_of_ofFile converted
      exact ⟨named, content, c, found, result, encoded⟩
    · intro unlabelled
      simpa [unlabelled] using asked
    · intro e failed
      rw [failed, Options.outcome, Prod.mk.injEq, Prod.mk.injEq] at outcome
      exact ⟨outcome.1.symm, outcome.2.1.symm, outcome.2.2.symm⟩
    · intro c converted
      rw [converted] at outcome
      obtain ⟨content, -, result⟩ := Conversion.exists_of_ofFile converted
      exact ⟨Conversion.listing_complete result, Options.outcome_ok outcome⟩
  · rw [if_neg asked] at request
    have misused (read' : String → Except ReadFailure ByteArray)
        (store' : String → Except ReadFailure Unit) :
        (parse arguments).perform read' store' = Request.misuse.perform read store := by
      rw [request]
      rfl
    have same : run = Request.misuse.perform read store := misused read store
    rw [same]
    refine ⟨?_, fun path bytes stored => (nomatch stored), fun enough => absurd enough asked,
      fun _ => ⟨rfl, rfl, rfl, misused⟩⟩
    refine iff_of_false Bool.noConfusion fun succeeded => ?_
    exact absurd succeeded.2 (show (2 : UInt8) ≠ 0 by decide)

/-- An object file that describes an integer of 8192 bytes, for which the format has no room. -/
def wideInteger : ByteArray :=
  ⟨#[
    127, 69, 76, 70, 2, 1, 1, 0, 0, 0, 0, 0, 0, 0, 0, 0, 1, 0, 62, 0, 1, 0, 0, 0,
    0, 0, 0, 0, 0, 0, 0, 0, 0, 0, 0, 0, 0, 0, 0, 0, 136, 0, 0, 0, 0, 0, 0, 0,
    0, 0, 0, 0, 64, 0, 0, 0, 0, 0, 64, 0, 4, 0, 3, 0, 12, 0, 0, 0, 4, 0, 0, 0,
    0, 0, 8, 1, 2, 0, 32, 0, 1, 17, 1, 0, 0, 2, 36, 0, 11, 5, 0, 0, 0, 0, 46, 100,
    101, 98, 117, 103, 95, 105, 110, 102, 111, 0, 46, 100, 101, 98, 117, 103, 95, 97, 98, 98, 114,
    101, 118, 0,
    46, 115, 104, 115, 116, 114, 116, 97, 98, 0, 0, 0, 0, 0, 0, 0, 0, 0, 0, 0, 0, 0, 0, 0,
    0, 0, 0, 0, 0, 0, 0, 0, 0, 0, 0, 0, 0, 0, 0, 0, 0, 0, 0, 0, 0, 0, 0, 0,
    0, 0, 0, 0, 0, 0, 0, 0, 0, 0, 0, 0, 0, 0, 0, 0, 0, 0, 0, 0, 0, 0, 0, 0,
    0, 0, 0, 0, 0, 0, 0, 0, 1, 0, 0, 0, 1, 0, 0, 0, 0, 0, 0, 0, 0, 0, 0, 0,
    0, 0, 0, 0, 0, 0, 0, 0, 64, 0, 0, 0, 0, 0, 0, 0, 16, 0, 0, 0, 0, 0, 0, 0,
    0, 0, 0, 0, 0, 0, 0, 0, 1, 0, 0, 0, 0, 0, 0, 0, 0, 0, 0, 0, 0, 0, 0, 0,
    13, 0, 0, 0, 1, 0, 0, 0, 0, 0, 0, 0, 0, 0, 0, 0, 0, 0, 0, 0, 0, 0, 0, 0,
    80, 0, 0, 0, 0, 0, 0, 0, 13, 0, 0, 0, 0, 0, 0, 0, 0, 0, 0, 0, 0, 0, 0, 0,
    1, 0, 0, 0, 0, 0, 0, 0, 0, 0, 0, 0, 0, 0, 0, 0, 27, 0, 0, 0, 3, 0, 0, 0,
    0, 0, 0, 0, 0, 0, 0, 0, 0, 0, 0, 0, 0, 0, 0, 0, 93, 0, 0, 0, 0, 0, 0, 0,
    37, 0, 0, 0, 0, 0, 0, 0, 0, 0, 0, 0, 0, 0, 0, 0, 1, 0, 0, 0, 0, 0, 0, 0,
    0, 0, 0, 0, 0, 0, 0, 0]⟩

/-- The listing of that file. -/
def wideListing : String :=
  "\n\n  [1] INTEGER void encoding=SIGNED offset=0 bits=0\n"
    ++ "  [2] INTEGER unsigned long encoding=0x0 offset=0 bits=64\n"
    ++ "  [3] INTEGER (anon) encoding=SIGNED offset=0 bits=65536\n"

/-- The conversion of that file can be listed, but not encoded. -/
theorem result_wideInteger :
  (Conversion.ofBytes wideInteger).result.toOption.map
    (fun c => ((c.encode "").isOk, c.listing.text)) = some (false, wideListing)
  := by
  decide +kernel

/-- The encoding fails, so that there is no file; the listing is shown. -/
theorem perform_parse_wideInteger :
  let arguments := ["-d", "-o", "out.ctf", "in.elf"]
  let p : Draft := ⟨true, none, some "out.ctf", 0, some "in.elf"⟩
  let run := (parse arguments).perform (fun _ => .ok wideInteger) (fun _ => .ok ⟨⟩)
  readArguments (arguments.map String.toList) none .empty = .ok p
  ∧ p.file = some "in.elf"
  ∧ run.status = 1 ∧ run.stored = none ∧ run.output = wideListing
  := by
  intro arguments p run
  have parsed : readArguments (arguments.map String.toList) none .empty = .ok p := by
    decide +kernel
  obtain ⟨c, found, same⟩ := Option.map_eq_some_iff.mp result_wideInteger
  obtain ⟨failed, text⟩ := Prod.mk.inj same
  have converted : Conversion.ofFile (fun _ => .ok wideInteger) "in.elf" = .ok c :=
    ok_of_toOption found
  obtain ⟨-, -, asked, -⟩ := perform_parse parsed rfl (fun _ => .ok wideInteger)
    (fun _ => .ok ⟨⟩) fun _ _ => rfl
  obtain ⟨-, -, shows⟩ := asked (.inl rfl)
  obtain ⟨-, output, -, encodes⟩ := shows c converted
  obtain ⟨fails, -⟩ := encodes "out.ctf" rfl
  cases encoded : c.encode "" with
  | ok bytes =>
    rw [encoded] at failed
    cases failed
  | error e =>
    obtain ⟨status, stored⟩ := fails e encoded
    exact ⟨parsed, rfl, status, stored, output.trans text⟩

end CommandLine

end CompactTypes

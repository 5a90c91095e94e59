import CompactTypes.Proofs.Ctf.Entries
import CompactTypes.Proofs.Ctf.StringTable
import CompactTypes.Proofs.Ctf.Words

/-!
# Reading what has been encoded

Every step of the encoder writes bytes that the parser for the same part of the format reads,
and of which it makes what the graph holds.  The steps are taken up from the words to the
entries and sections; a file that encodes a graph is then a document that describes the graph,
`Graph.read_encode`.
-/

namespace CompactTypes

namespace Ctf

/-- A string table holds a text that may be missing. -/
def StringTable.Holds (t : StringTable) (s : Option String) : Prop :=
  textAt? t.bytes (t.offset s).toNat = some (s.getD "").toUTF8

end Ctf

namespace Graph

open Ctf CompactTypes.Parser

variable {g : Graph} {o : ByteOrder} {strings : StringTable}

/-! ### Signatures -/

/-- The words for the types of arguments are read as the numbers of these types. -/
theorem reads_argumentBytes {r : TypeRecord} {bytes : List UInt8}
    (h : g.argumentBytes o r = .ok bytes) :
  Reads (times (number o 2) r.members.size) bytes
    (r.members.toList.map fun m => g.numberOf m.reference)
  := by
  obtain ⟨words, each, h⟩ := ok_of_bind h
  cases h
  have parts : List.Forall₂ (Reads (number o 2)) (words.map o.u16)
      (r.members.toList.map fun m => g.numberOf m.reference) := by
    rw [List.forall₂_map_left_iff, List.forall₂_map_right_iff]
    apply (forall₂_of_mapM each).flip.imp
    rintro word m ⟨-, written⟩
    rw [numberOf, ← toNat_typeWord written]
    exact Reads.u16 o word
  have reads := Reads.times parts
  rwa [List.length_map, Array.length_toList, ← List.flatMap_def] at reads

/-- The words for what a function returns and takes are read as its signature. -/
theorem reads_signature {id : TypeId} {returned : UInt16} {arguments : List UInt8}
    (hreturned : g.referencedWord id = .ok returned)
    (harguments : g.argumentBytes o (g.get id) = .ok arguments) :
  ∃ s, Reads (parseSignature o (g.get id).members.size) (o.u16 returned ++ arguments) s
    ∧ g.HasSignature id s
  := by
  refine ⟨⟨returned.toNat, _⟩, ?_, refersTo_of_referencedWord hreturned, rfl⟩
  apply (Reads.u16 o returned).bind
  exact (reads_argumentBytes harguments).bind_last (Reads.pure _)

/-! ### Members and enumerators -/

/-- The entry of a member is read as its description. -/
theorem reads_memberEntry {r : TypeRecord} {m : Member} {bytes : List UInt8}
    (h : g.memberEntry o strings r m = .ok bytes) (held : strings.Holds m.name) :
  Reads (parseField o strings.bytes r.size.toNat) bytes (g.fieldOf m)
  := by
  obtain ⟨word, number, ⟨wide, small, rfl⟩ | ⟨narrow, small, rfl⟩⟩ := memberEntry_ok h
  · rw [fieldOf, ← number]
    apply (reads_text o held).bind
    apply (Reads.u16 o word).bind
    rw [if_pos wide]
    apply (reads_padding o).bind
    have offset := reads_halves o (UInt64.ofNat (8 * m.offset.toNat))
    rw [UInt64.toNat_ofNat_of_lt' small] at offset
    exact offset.bind_last (Reads.pure _)
  · rw [fieldOf, ← number]
    apply (reads_text o held).bind
    apply (Reads.u16 o word).bind
    rw [if_neg narrow]
    have offset := Reads.u16 o (UInt16.ofNat (8 * m.offset.toNat))
    rw [UInt16.toNat_ofNat_of_lt' small] at offset
    exact offset.bind_last (Reads.pure _)

/-- The entry of an enumerator is read as its description. -/
theorem reads_enumeratorEntry {e : Enumerator} (held : strings.Holds (some e.name)) :
  Reads (parseConstant o strings.bytes) (enumeratorEntry o strings e) (constantOf e)
  := by
  apply (reads_text o held).bind
  exact (reads_signed o e.value).bind_last (Reads.pure _)

/-! ### Types -/

/-- The data word of a number is read as its encoding and its bits. -/
theorem reads_numberWord {size bits : Nat} {encoding : UInt16} (narrow : encoding.toNat ≤ 0xff)
    (short : bits < 0x10000) :
  Reads (do
      let word ← number o 4
      return Shape.number size (word / 0x1000000) (word / 0x10000 % 0x100) (word % 0x10000))
    (o.u32 (encoding.toUInt32 <<< 24 ||| UInt32.ofNat bits))
    (Shape.number size encoding.toNat 0 bits)
  := by
  apply (Reads.u32 o _).bind_last
  rw [toNat_numberWord encoding bits short, Nat.mod_eq_of_lt (Nat.lt_succ_of_le narrow)]
  have high : (encoding.toNat * 0x1000000 + bits) / 0x1000000 = encoding.toNat := by omega
  have middle : (encoding.toNat * 0x1000000 + bits) / 0x10000 % 0x100 = 0 := by omega
  have low : (encoding.toNat * 0x1000000 + bits) % 0x10000 = bits := by omega
  rw [high, middle, low]
  apply Reads.pure

section

variable {α : Type}

/-- What is made of the number of a type. -/
theorem reads_reference (o : ByteOrder) (target : UInt16) (f : Nat → α) :
  Reads (do
      expect (0 = 0)
      let target ← number o 2
      return f target)
    (o.u16 target) (f target.toNat)
  := by
  apply (Reads.expect rfl).bind_nil
  exact (Reads.u16 o target).bind_last (Reads.pure _)

/-- What is made of the numbers in the entry of an array. -/
theorem reads_array (o : ByteOrder) (content index : UInt16) (count : UInt32)
    (f : Nat → Nat → Nat → α) :
  Reads (do
      expect (0 = 0)
      parsePadding o
      let content ← number o 2
      let index ← number o 2
      let count ← number o 4
      return f content index count)
    (o.u16 0 ++ (o.u16 content ++ (o.u16 index ++ o.u32 count)))
    (f content.toNat index.toNat count.toNat)
  := by
  apply (Reads.expect rfl).bind_nil
  apply (reads_padding o).bind
  apply (Reads.u16 o content).bind
  apply (Reads.u16 o index).bind
  exact (Reads.u32 o count).bind_last (Reads.pure _)

/-- What is made of a signature.  An odd number of arguments is padded to an even one. -/
theorem reads_padded {n : Nat} {bytes : List UInt8} {s : Signature}
    (reads : Reads (parseSignature o n) bytes s) (f : Signature → α) :
  Reads (do
      let signature ← parseSignature o n
      if n % 2 = 1 then do
        parsePadding o
        return f signature
      else
        return f signature)
    (bytes ++ if n % 2 = 1 then o.u16 0 else []) (f s)
  := by
  apply reads.bind
  by_cases odd : n % 2 = 1
  · rw [if_pos odd, if_pos odd]
    exact (reads_padding o).bind_last (Reads.pure _)
  · rw [if_neg odd, if_neg odd]
    apply Reads.pure

end

/-- Bytes are the info word of the record at a position, and what is read as its shape. -/
def HasData (g : Graph) (o : ByteOrder) (strings : StringTable) (id : TypeId)
    (bytes : List UInt8) : Prop :=
  ∃ (count : UInt16) (rest : List UInt8) (shape : Shape), count.toNat ≤ maxEntries
    ∧ bytes = o.u16 (infoWord (g.get id).kind true count) ++ rest
    ∧ Reads (parseShape o strings.bytes (g.get id).kind count.toNat) rest shape
    ∧ g.HasShape id shape

theorem hasData_number {id : TypeId} {bytes : List UInt8}
    (kind : (g.get id).kind = .integer ∨ (g.get id).kind = .float)
    (narrow : (g.get id).encoding.toNat ≤ 0xff) (h : g.typeData o strings id = .ok bytes) :
  g.HasData o strings id bytes
  := by
  have shape : parseShape o strings.bytes (g.get id).kind 0 = do
      expect (0 = 0)
      let size ← parseSize o
      let word ← number o 4
      return .number size (word / 0x1000000) (word / 0x10000 % 0x100) (word % 0x10000) := by
    rcases kind with kind | kind <;> simp only [parseShape, kind]
  obtain ⟨small, rfl⟩ := typeData_number_ok kind h
  refine ⟨0, _, .number (g.get id).size.toNat (g.get id).encoding.toNat 0 _, Nat.zero_le _,
    rfl, ?_, kind, rfl, rfl, rfl, rfl⟩
  change Reads (parseShape o strings.bytes (g.get id).kind 0) _ _
  rw [shape]
  apply (Reads.expect rfl).bind_nil
  apply (reads_size o (g.get id).size).bind
  exact reads_numberWord narrow small

theorem hasData_reference {id : TypeId} {bytes : List UInt8}
    (kind : (g.get id).kind ∈ [TypeKind.pointer, .typedef, .volatile, .const, .restrict])
    (h : g.typeData o strings id = .ok bytes) :
  g.HasData o strings id bytes
  := by
  have shape : parseShape o strings.bytes (g.get id).kind 0 = do
      expect (0 = 0)
      let target ← number o 2
      return .reference target := by
    simp only [List.mem_cons, List.not_mem_nil, or_false] at kind
    rcases kind with kind | kind | kind | kind | kind <;> simp only [parseShape, kind]
  obtain ⟨target, refers, rfl⟩ := typeData_reference_ok kind h
  refine ⟨0, _, .reference target.toNat, Nat.zero_le _, rfl, ?_, kind, refers⟩
  change Reads (parseShape o strings.bytes (g.get id).kind 0) _ _
  rw [shape]
  apply reads_reference

theorem hasData_array {id : TypeId} {bytes : List UInt8} (kind : (g.get id).kind = .array)
    (h : g.typeData o strings id = .ok bytes) :
  g.HasData o strings id bytes
  := by
  obtain ⟨content, index, refers, number, rfl⟩ := typeData_array_ok kind h
  refine ⟨0, _, .array content.toNat index.toNat (g.get id).elementCount.toNat, Nat.zero_le _, rfl,
    ?_, kind, refers, number, rfl⟩
  rw [kind]
  exact reads_array o content index (g.get id).elementCount Shape.array

theorem hasData_function {id : TypeId} {bytes : List UInt8} (kind : (g.get id).kind = .function)
    (h : g.typeData o strings id = .ok bytes) :
  g.HasData o strings id bytes
  := by
  obtain ⟨count, returned, arguments, ⟨count_eq, few⟩, found, written, rfl⟩ :=
    typeData_function_ok kind h
  obtain ⟨s, reads, signature⟩ := reads_signature found written
  refine ⟨count, _, .function s, count_eq ▸ few, rfl, ?_, kind, signature⟩
  rw [kind, count_eq]
  exact reads_padded reads Shape.function

theorem hasData_aggregate {id : TypeId} {bytes : List UInt8}
    (kind : (g.get id).kind = .struct ∨ (g.get id).kind = .union)
    (held : ∀ s ∈ (g.get id).texts, strings.Holds s) (h : g.typeData o strings id = .ok bytes) :
  g.HasData o strings id bytes
  := by
  have shape (count : Nat) : parseShape o strings.bytes (g.get id).kind count = do
      let size ← parseSize o
      let fields ← times (parseField o strings.bytes size) count
      return .aggregate size fields := by
    rcases kind with kind | kind <;> simp only [parseShape, kind]
  have texts : (g.get id).texts
      = (g.get id).name :: (g.get id).members.toList.map Member.name := by
    rcases kind with kind | kind <;> simp only [TypeRecord.texts, kind]
  obtain ⟨count, entries, ⟨count_eq, few⟩, written, rfl⟩ := typeData_aggregate_ok kind h
  have parts : List.Forall₂ (Reads (parseField o strings.bytes (g.get id).size.toNat)) entries
      ((g.get id).members.toList.map g.fieldOf) := by
    rw [List.forall₂_map_right_iff]
    apply written.flip.imp
    rintro entry m ⟨mem, entered⟩
    apply reads_memberEntry entered
    apply held
    rw [texts]
    exact List.mem_cons_of_mem _ (List.mem_map_of_mem mem)
  have fields := Reads.times parts
  rw [List.length_map, Array.length_toList] at fields
  refine ⟨count, _, .aggregate (g.get id).size.toNat ((g.get id).members.toList.map g.fieldOf),
    count_eq ▸ few, rfl, ?_, kind, rfl, rfl⟩
  rw [shape, count_eq]
  apply (reads_size o (g.get id).size).bind
  exact fields.bind_last (Reads.pure _)

theorem hasData_enumeration {id : TypeId} {bytes : List UInt8} (kind : (g.get id).kind = .enum)
    (held : ∀ s ∈ (g.get id).texts, strings.Holds s) (h : g.typeData o strings id = .ok bytes) :
  g.HasData o strings id bytes
  := by
  have texts : (g.get id).texts
      = (g.get id).name :: (g.get id).enumerators.toList.map fun e => some e.name := by
    simp only [TypeRecord.texts, kind]
  obtain ⟨count, ⟨count_eq, few⟩, rfl⟩ := typeData_enumeration_ok kind h
  have parts : List.Forall₂ (Reads (parseConstant o strings.bytes))
      ((g.get id).enumerators.toList.map (enumeratorEntry o strings))
      ((g.get id).enumerators.toList.map constantOf) := by
    rw [List.forall₂_map_left_iff, List.forall₂_map_right_iff, List.forall₂_same]
    intro e mem
    apply reads_enumeratorEntry
    apply held
    rw [texts]
    exact List.mem_cons_of_mem _ (List.mem_map_of_mem mem)
  have constants := Reads.times parts
  rw [List.length_map, Array.length_toList] at constants
  refine ⟨count, _,
    .enumeration (g.get id).size.toNat ((g.get id).enumerators.toList.map constantOf),
    count_eq ▸ few, rfl, ?_, kind, rfl, rfl⟩
  rw [kind, count_eq]
  apply (reads_size o (g.get id).size).bind
  exact constants.bind_last (Reads.pure _)

/-- What follows the name of a type is read as what its record says. -/
theorem hasData {id : TypeId} {bytes : List UInt8}
    (held : ∀ s ∈ (g.get id).texts, strings.Holds s)
    (narrow : (g.get id).kind = .integer ∨ (g.get id).kind = .float →
      (g.get id).encoding.toNat ≤ 0xff)
    (h : g.typeData o strings id = .ok bytes) :
  g.HasData o strings id bytes
  := by
  cases kind : (g.get id).kind with
  | unknown =>
    simp only [typeData, kind] at h
    cases h
  | integer => exact hasData_number (.inl kind) (narrow (.inl kind)) h
  | float => exact hasData_number (.inr kind) (narrow (.inr kind)) h
  | pointer | typedef | volatile | const | restrict =>
    refine hasData_reference ?_ h
    rw [kind]
    decide
  | array => exact hasData_array kind h
  | function => exact hasData_function kind h
  | struct => exact hasData_aggregate (.inl kind) held h
  | union => exact hasData_aggregate (.inr kind) held h
  | enum => exact hasData_enumeration kind held h

theorem name_mem_texts (r : TypeRecord) :
  r.name ∈ r.texts
  := by
  rw [TypeRecord.texts]
  cases r.kind <;> exact List.mem_cons_self

/-! ### Entries -/

/-- The entry of a type is read as what its record says. -/
theorem reads_typeEntry {id : TypeId} {bytes : List UInt8}
    (held : ∀ s ∈ (g.get id).texts, strings.Holds s)
    (narrow : (g.get id).kind = .integer ∨ (g.get id).kind = .float →
      (g.get id).encoding.toNat ≤ 0xff)
    (h : g.typeEntry o strings id = .ok bytes) :
  ∃ e, (bytes ≠ [] ∧ Reads (parseEntry o strings.bytes) bytes e) ∧ g.HasEntry id e
  := by
  obtain ⟨-, -, h⟩ := ok_of_bind h
  obtain ⟨data, found, h⟩ := ok_of_bind h
  cases h
  obtain ⟨count, rest, shape, few, rfl, reads, described⟩ := hasData held narrow found
  refine ⟨⟨(g.get id).name.getD "", (g.get id).kind, true, shape⟩, ⟨?_, ?_⟩,
    ⟨rfl, rfl, rfl, described⟩⟩
  · apply List.ne_nil_of_length_pos
    rw [List.length_append, ByteOrder.length_u32]
    omega
  · apply (reads_text o (held _ (name_mem_texts _))).bind
    apply (Reads.u16 o _).bind
    apply (Reads.ofOption (ofWord?_infoWord _ _ _ few)).bind_nil
    exact reads.bind_last (Reads.pure _)

/-- The entry of a function is read as its signature, or as that of a placeholder. -/
theorem reads_functionEntry {id : TypeId} {bytes : List UInt8}
    (h : g.functionEntry o id = .ok bytes) :
  ∃ s, (bytes ≠ [] ∧ Reads (parseFunction o) bytes s) ∧ g.HasFunction id s
  := by
  rw [functionEntry] at h
  by_cases kind : (g.get id).kind = .unknown
  · rw [if_pos kind] at h
    cases h
    refine ⟨none, ⟨?_, ?_⟩, kind⟩
    · apply List.ne_nil_of_length_pos
      rw [ByteOrder.length_u16]
      decide
    · exact (Reads.u16 o 0).bind_last (Reads.pure _)
  · rw [if_neg kind] at h
    obtain ⟨count, counted, h⟩ := ok_of_bind h
    obtain ⟨returned, found, h⟩ := ok_of_bind h
    obtain ⟨arguments, written, h⟩ := ok_of_bind h
    cases h
    obtain ⟨count_eq, few⟩ := countWord_ok counted
    rw [← count_eq] at few
    obtain ⟨s, reads, signature⟩ := reads_signature found written
    refine ⟨some s, ⟨?_, ?_⟩, kind, signature⟩
    · apply List.ne_nil_of_length_pos
      rw [List.length_append, List.length_append, ByteOrder.length_u16]
      omega
    · rw [List.append_assoc]
      apply (Reads.u16 o _).bind
      rw [if_neg (infoWord_function_ne_zero count few)]
      apply (Reads.ofOption (ofWord?_infoWord _ _ _ few)).bind_nil
      apply (Reads.expect ⟨rfl, rfl⟩).bind_nil
      rw [count_eq]
      exact reads.bind_last (Reads.pure _)

/-- The entry of an object is read as the number of its type. -/
theorem reads_objectEntry {id : TypeId} {bytes : List UInt8}
    (h : g.objectEntry o id = .ok bytes) :
  ∃ n, (bytes ≠ [] ∧ Reads (number o 2) bytes n) ∧ g.RefersTo id n
  := by
  obtain ⟨word, found, h⟩ := ok_of_bind h
  cases h
  refine ⟨word.toNat, ⟨?_, Reads.u16 o word⟩, refersTo_of_referencedWord found⟩
  apply List.ne_nil_of_length_pos
  rw [ByteOrder.length_u16]
  decide

/-! ### Sections -/

/-- If the entries of a section are read one by one, then so is the section. -/
theorem exhaust_of_mapM {α : Type} {f : TypeId → Except Error (List UInt8)} {p : Parser α}
    {Q : TypeId → α → Prop} {ids : List TypeId} {parts : List (List UInt8)}
    (written : ids.mapM f = .ok parts)
    (reads : ∀ id ∈ ids, ∀ bytes, f id = .ok bytes →
      ∃ a, (bytes ≠ [] ∧ Reads p bytes a) ∧ Q id a) :
  ∃ values, exhaust p parts.flatten = some values ∧ List.Forall₂ Q ids values
  := by
  obtain ⟨values, each, described⟩ := exists_forall₂ (forall₂_of_mapM written)
    fun id bytes ⟨mem, h⟩ => reads id mem bytes h
  exact ⟨values, exhaust_flatten each, described⟩

/-- Sections that are read one by one are read as a whole. -/
theorem document?_eq {s : Sections} {label : String} {last : Nat} {objects : List Nat}
    {functions : List (Option Signature)} {types : List Entry}
    (hlabels : exhaust (parseLabel o s.strings.toByteArray) s.labels = some [(label, last)])
    (hobjects : exhaust (number o 2) s.objects = some objects)
    (hfunctions : exhaust (parseFunction o) s.functions = some functions)
    (htypes : exhaust (parseEntry o s.strings.toByteArray) s.types = some types) :
  s.document? o = some ⟨label, last, objects, functions, types⟩
  := by
  rw [Sections.document?]
  simp only [hlabels, hobjects, hfunctions, htypes]
  rfl

/-- The sections that encode a graph say what it holds. -/
theorem document?_sections {label : String} {s : Sections}
    (h : g.sections label o = .ok s)
    (short : s.body.length < wordValues 4)
    (narrow : ∀ id ∈ g.emittedTypes, (g.get id).kind = .integer ∨ (g.get id).kind = .float →
      (g.get id).encoding.toNat ≤ 0xff)
    (nullFree : ∀ text, some text ∈ g.texts label → 0 ∉ utf8Bytes text) :
  ∃ d, s.document? o = some d ∧ d.Describes g label
  := by
  let strings := StringTable.ofTexts (g.texts label)
  obtain ⟨-, -, h⟩ := ok_of_bind h
  obtain ⟨objects, hobjects, h⟩ := ok_of_bind h
  obtain ⟨functions, hfunctions, h⟩ := ok_of_bind h
  obtain ⟨types, htypes, h⟩ := ok_of_bind h
  cases h
  have small : (StringTable.ofTexts (g.texts label)).bytes.size < wordValues 4 := by
    simp only [Sections.body, List.length_append, length_byteList] at short
    omega
  have held (text : Option String) (mem : text ∈ g.texts label) : strings.Holds text := by
    apply StringTable.textAt?_offset_ofTexts _ small text (.inr mem)
    cases text with
    | none => exact List.not_mem_nil
    | some text => exact nullFree text mem
  have labels : exhaust (parseLabel o strings.bytes)
      (o.u32 (strings.offset (some label)) ++ o.u32 g.lastNumber)
      = some [(label, g.lastNumber.toNat)] := by
    have reads : Reads (parseLabel o strings.bytes)
        (o.u32 (strings.offset (some label)) ++ o.u32 g.lastNumber)
        (label, g.lastNumber.toNat) := by
      apply (reads_text o (held (some label) List.mem_cons_self)).bind
      exact (Reads.u32 o g.lastNumber).bind_last (Reads.pure _)
    have whole := exhaust_flatten (.cons ⟨?_, reads⟩ .nil)
    · rwa [List.flatten_singleton] at whole
    · apply List.ne_nil_of_length_pos
      rw [List.length_append, ByteOrder.length_u32]
      omega
  obtain ⟨numbers, readObjects, describedObjects⟩ := exhaust_of_mapM hobjects
    fun _ _ _ h => reads_objectEntry h
  obtain ⟨signatures, readFunctions, describedFunctions⟩ := exhaust_of_mapM hfunctions
    fun _ _ _ h => reads_functionEntry h
  obtain ⟨entries, readTypes, describedTypes⟩ := exhaust_of_mapM htypes fun id mem _ h =>
    reads_typeEntry (fun text used => held text (List.mem_cons_of_mem _
      (List.mem_flatMap_of_mem mem used))) (narrow id mem) h
  refine ⟨⟨label, g.lastNumber.toNat, numbers, signatures, entries⟩, ?_,
    ⟨rfl, toNat_lastNumber g, describedObjects, describedFunctions, describedTypes⟩⟩
  apply document?_eq
  · rw [toByteArray_byteList]
    exact labels
  · exact readObjects
  · exact readFunctions
  · rw [toByteArray_byteList]
    exact readTypes

/-- A file with the header and the body of sections says what these say. -/
theorem read_of_body {s : Sections} {compressed : Bool} {bytes : ByteArray}
    (short : s.body.length < wordValues 4)
    (header : Header.read o bytes = .ok (s.header compressed))
    (body : (s.header compressed).body bytes = .ok s.body.toByteArray) :
  Document.read o bytes = s.document? o
  := by
  rw [Document.read, header]
  change (((s.header compressed).body bytes).toOption >>= _) = _
  rw [body]
  change (Sections.ofBody? (s.header compressed) (byteList s.body.toByteArray) >>= _) = _
  rw [byteList_toByteArray, Sections.ofBody?_body s compressed short]
  rfl

/-- A file that encodes a graph says what the graph holds, provided that its body is shorter
than the offsets in its header can tell, that the encoding of a number fits into a byte, and
that no text has a null byte in it.  It does not matter how the body is compressed, as long as
it can be inflated. -/
theorem read_encode (g : Graph) (label : String) (o : ByteOrder) (compressed : Bool)
    (bytes : ByteArray) (encoded : g.encode label o compressed = .ok bytes)
    (short : ∀ s, g.sections label o = .ok s → s.body.length < wordValues 4)
    (narrow : ∀ id ∈ g.emittedTypes, (g.get id).kind = .integer ∨ (g.get id).kind = .float →
      (g.get id).encoding.toNat ≤ 0xff)
    (nullFree : ∀ text, some text ∈ g.texts label → 0 ∉ utf8Bytes text) :
  ∃ d, Document.read o bytes = some d ∧ d.Describes g label
    ∧ ∀ s packed, g.sections label o = .ok s →
      Deflate.decompress packed.toByteArray = .ok s.body.toByteArray →
      Document.read o ((s.header true).toBytes o ++ packed).toByteArray = some d
  := by
  obtain ⟨s, sections, encoded⟩ := ok_of_bind encoded
  cases encoded
  obtain ⟨d, read, described⟩ := document?_sections sections (short s sections) narrow nullFree
  refine ⟨d, ?_, described, fun s' packed sections' inflated => ?_⟩
  · rw [read_of_body (short s sections) (s.read_toBytes o compressed)
      (s.body_toBytes o compressed), read]
  · rw [sections] at sections'
    cases sections'
    have header := Header.read_toBytes o (s.header true) packed rfl rfl
    rw [read_of_body (short s sections) header (s.body_of_decompress o inflated), read]

/-- Whether the body is short can be told from the sections that have been computed. -/
theorem short_of_sections {label : String} {s : Sections} (h : g.sections label o = .ok s)
    (small : (g.sections label o).map (fun s => decide (s.body.length < wordValues 4)) = .ok true) :
  s.body.length < wordValues 4
  := by
  rw [h] at small
  exact of_decide_eq_true (Except.ok.inj small)

/-- A structure of two numbers, a function that takes it, and an object without a type. -/
def sample : Graph where
  records := #[
    { TypeRecord.ofKind .integer (some "int") with index := 1, size := 4, encoding := 1 },
    { TypeRecord.ofKind .struct (some "pair") with
      index := 2, size := 8, members := #[⟨some "a", 0, 0⟩, ⟨none, 0, 4⟩] },
    { TypeRecord.ofKind .function (some "f") with
      reference := some 0, members := #[⟨none, 1, 0⟩], flags := ⟨true, false, true⟩ },
    { TypeRecord.ofKind .unknown (some "o") with
      reference := some 3, flags := ⟨false, true, true⟩ }]
  allTypes := #[0, 1, 2]
  functions := #[2]
  objects := #[3]
  indexType := some 0

theorem read_encode_sample :
  ∃ bytes d, sample.encode "l" .little true = .ok bytes
    ∧ Document.read .little bytes = some d ∧ d.Describes sample "l"
  := by
  obtain ⟨bytes, encoded⟩ : ∃ bytes, sample.encode "l" .little true = .ok bytes := ⟨_, rfl⟩
  have short (s : Sections) (h : sample.sections "l" .little = .ok s) :
      s.body.length < wordValues 4 := by
    have small : (sample.sections "l" .little).map (fun s => decide (s.body.length < wordValues 4))
        = .ok true := by decide +kernel
    rw [h] at small
    exact of_decide_eq_true (Except.ok.inj small)
  have nullFree : ∀ text ∈ sample.texts "l", 0 ∉ utf8Bytes (text.getD "") := by decide +kernel
  obtain ⟨d, read, described, -⟩ := read_encode sample "l" .little true bytes encoded short
    (by decide) fun text mem => nullFree (some text) mem
  exact ⟨bytes, d, encoded, read, described⟩

end Graph

end CompactTypes

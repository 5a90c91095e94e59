import CompactTypes.Proofs.Dwarf.Enumerations

/-!
# The numbers of attributes

A number that an attribute stands for has 64 bits, `Sections.number?_lt`: variable-length numbers,
words and the numbers in abbreviations have, and values carry no others.  What a reader can yield
is followed from the readers of numbers up to the entries of a unit by `Reader.Yields`.
-/

namespace CompactTypes.Dwarf

theorem wordValues_pos (width : Nat) :
  0 < wordValues width
  := by
  induction width with
  | zero => exact Nat.one_pos
  | succ width ih => exact Nat.mul_pos (by decide) ih

/-- A longer word can have at least as many values. -/
theorem wordValues_le {width width' : Nat} (h : width ≤ width') :
  wordValues width ≤ wordValues width'
  := by
  induction h with
  | refl => exact Nat.le_refl _
  | step _ ih => exact Nat.le_trans ih (Nat.le_mul_of_pos_left _ (by decide))

/-! ### What readers yield -/

namespace Reader

/-- Whatever a reader yields has a property. -/
structure Yields {α : Type} (r : Reader α) (P : α → Prop) : Prop where
  of_ok : ∀ i a j, r i = .ok (a, j) → P a

section

variable {α β : Type} {P : α → Prop} {Q : β → Prop} {r : Reader α}

theorem yields_any (r : Reader α) :
  r.Yields fun _ => True
  := ⟨fun _ _ _ _ => trivial⟩

theorem yields_pure {a : α} (h : P a) :
  (pure a : Reader α).Yields P
  := by
  constructor
  intro i b j hr
  cases hr
  exact h

theorem yields_throw (f : Fault) :
  (throw f : Reader α).Yields P
  := ⟨nofun⟩

theorem Yields.bind {f : α → Reader β} (hr : r.Yields P) (hf : ∀ a, P a → (f a).Yields Q) :
  (r >>= f).Yields Q
  := by
  constructor
  intro i b k h
  obtain ⟨a, j, hi, hj⟩ := bind_ok h
  exact (hf a (hr.of_ok i a j hi)).of_ok j b k hj

theorem Yields.collect {r : Reader (Option α)} (productive : r.Productive)
    (hr : r.Yields fun found => ∀ a ∈ found, P a) (i : Input) :
  ∀ a ∈ (r.collect productive i).1.items, P a
  := by
  induction hsize : i.remaining using Nat.strongRecOn generalizing i with
  | ind n ih =>
    rw [collect_eq]
    cases step : r i with
    | error f => exact fun a mem => absurd mem List.not_mem_nil
    | ok p =>
      obtain ⟨found, j⟩ := p
      cases found with
      | none => exact fun a mem => absurd mem List.not_mem_nil
      | some first =>
        have shorter := productive i first j step
        exact List.forall_mem_cons.mpr
          ⟨hr.of_ok i _ j step first rfl, ih j.remaining (hsize ▸ shorter) j rfl⟩

theorem Yields.many {r : Reader (Option α)} (productive : r.Productive)
    (hr : r.Yields fun found => ∀ a ∈ found, P a) :
  (r.many productive).Yields fun items => ∀ a ∈ items, P a
  := by
  constructor
  intro i items j h
  have all := hr.collect productive i
  unfold Reader.many at h
  split at h
  next collected =>
    cases h
    rw [collected] at all
    exact all
  next => cases h

end

/-! ### Numbers -/

theorem yields_byte :
  byte.Yields fun b => b.toNat < 256
  := ⟨fun _ b _ _ => b.toNat_lt⟩

theorem yields_word (order : ByteOrder) (width : Nat) :
  (word order width).Yields fun n => n < wordValues width
  := ⟨fun _ _ _ h => lt_of_word h⟩

/-- How many values groups of seven bits can have. -/
def groupValues : Nat → Nat
  | 0 => 1
  | count + 1 => 128 * groupValues count

theorem groupValues_pos (count : Nat) :
  0 < groupValues count
  := by
  induction count with
  | zero => exact Nat.one_pos
  | succ count ih => exact Nat.mul_pos (by decide) ih

theorem yields_unsignedGroups (top : UInt8) (more : Nat) :
  (unsignedGroups top more).Yields fun n => n < groupValues more * (top.toNat + 1)
  := by
  induction more with
  | zero =>
    apply yields_byte.bind
    intro b _
    split
    next small =>
      apply yields_pure
      have bound : b.toNat ≤ top.toNat := small
      rw [groupValues]
      omega
    next => exact yields_throw _
  | succ more ih =>
    have positive : 0 < groupValues more * (top.toNat + 1) :=
      Nat.mul_pos (groupValues_pos more) (Nat.succ_pos _)
    rw [groupValues, Nat.mul_assoc]
    apply yields_byte.bind
    intro b narrow
    split
    next last =>
      apply yields_pure
      have bound : b.toNat < 128 := last
      omega
    next =>
      apply ih.bind
      intro high bound
      apply yields_pure
      omega

theorem yields_unsigned :
  unsigned.Yields fun n => n < wordValues 8
  := by
  have all : groupValues 9 * ((1 : UInt8).toNat + 1) = wordValues 8 := by decide
  rw [← all]
  exact yields_unsignedGroups 1 9

theorem yields_signedGroups (more : Nat) :
  (signedGroups more).Yields fun n => -(groupValues more : Int) ≤ n ∧ n < groupValues more
  := by
  induction more with
  | zero =>
    apply yields_byte.bind
    intro b _
    split
    · exact yields_pure ⟨by decide, by decide⟩
    · split
      · exact yields_pure ⟨by decide, by decide⟩
      · exact yields_throw _
  | succ more ih =>
    have positive := groupValues_pos more
    rw [groupValues]
    apply yields_byte.bind
    intro b narrow
    split
    next small =>
      apply yields_pure
      have bound : b.toNat < 64 := small
      omega
    next =>
      split
      next small =>
        apply yields_pure
        have bound : b.toNat < 128 := small
        omega
      next large =>
        have bound : 128 ≤ b.toNat := Nat.le_of_not_lt large
        apply ih.bind
        rintro high ⟨least, most⟩
        apply yields_pure
        omega

theorem yields_signed :
  signed.Yields fun n => n < wordValues 8
  := by
  constructor
  intro i n j h
  have bound : n < (groupValues 9 : Int) := ((yields_signedGroups 9).of_ok i n j h).2
  exact Int.lt_trans bound (by decide)

end Reader

/-! ### Values -/

/-- The number that a value stands for, if it stands for one, has 64 bits. -/
def Value.Short (value : Value) : Prop :=
  ∀ n, value.unsigned? = some n → n < wordValues 8

/-- Words in the form have at most 64 bits. -/
def Form.Short (form : Form) : Prop :=
  ∀ width, form = .data width → width ≤ 8

/-- Words in the form and the constant of a specification have at most 64 bits. -/
structure Specification.Short (spec : Specification) : Prop where
  form : spec.form.Short
  constant : spec.constant < wordValues 8

/-- All specifications in a table are short. -/
def AbbreviationTable.Short (table : AbbreviationTable) : Prop :=
  ∀ code a, table.find? code = some a → ∀ spec ∈ a.specifications, spec.Short

theorem Form.short_ofCode (code : Nat) :
  (ofCode code).Short
  := by
  intro width h
  unfold ofCode at h
  split at h <;> cases h <;> decide

namespace Value

theorem short_of_none {value : Value} (h : value.unsigned? = none) :
  value.Short
  := by
  intro n same
  rw [h] at same
  cases same

theorem short_signed {n : Int} (h : n < wordValues 8) :
  (signed n).Short
  := by
  intro c same
  rw [eq_of_signed same] at h
  exact Int.ofNat_lt.mp h

theorem short_unsigned {n : Nat} (h : n < wordValues 8) :
  (unsigned n).Short
  := by
  intro c same
  cases same
  exact h

theorem yields_readDirect (encoding : Encoding) {constant : Option Int} {form : Form}
    (short : form.Short) (small : ∀ n ∈ constant, n < wordValues 8) :
  (readDirect encoding constant form).Yields Short
  := by
  cases form with
  | data width =>
    apply (Reader.yields_word encoding.order width).bind
    intro n bound
    apply Reader.yields_pure
    intro c same
    cases same
    exact Nat.lt_of_lt_of_le bound (wordValues_le (short width rfl))
  | unsigned =>
    exact Reader.yields_unsigned.bind fun n bound => Reader.yields_pure (short_unsigned bound)
  | signed =>
    exact Reader.yields_signed.bind fun n bound => Reader.yields_pure (short_signed bound)
  | implicitConst =>
    cases constant with
    | none => exact Reader.yields_throw _
    | some n => exact Reader.yields_pure (short_signed (small n rfl))
  | block | blockLeb | expression =>
    apply (Reader.yields_any _).bind
    intro length _
    exact (Reader.yields_any _).bind fun _ _ => Reader.yields_pure (short_of_none rfl)
  | flagPresent => exact Reader.yields_pure (short_of_none rfl)
  | indirect | unknown => exact Reader.yields_throw _
  | _ => exact (Reader.yields_any _).bind fun _ _ => Reader.yields_pure (short_of_none rfl)

theorem yields_readIndirect :
  Reader.Yields readIndirect Form.Short
  := by
  constructor
  intro i form j h
  induction hsize : i.remaining using Nat.strongRecOn generalizing i with
  | ind n ih =>
    rw [readIndirect] at h
    split at h
    next => cases h
    next code k hcode =>
      have shorter := (Reader.progress_unsigned16 i code k hcode).2
      split at h
      · exact ih k.remaining (hsize ▸ shorter) k h rfl
      · cases h
        exact Form.short_ofCode code

theorem yields_readStored (encoding : Encoding) {spec : Specification} (short : spec.Short) :
  (readStored encoding spec).Yields Short
  := by
  unfold readStored
  split
  · apply yields_readIndirect.bind
    exact fun form short => yields_readDirect encoding short nofun
  · apply yields_readDirect encoding short.form
    rintro n ⟨⟩
    exact short.constant

theorem Short.named {value : Value} (h : value.Short) (encoding : Encoding) (key : AttributeName) :
  (Value.named encoding key value).Short
  := by
  unfold Value.named
  split
  · split
    · exact short_of_none rfl
    · exact h
  · split <;> exact short_of_none rfl
  · exact h

theorem yields_read (encoding : Encoding) {spec : Specification} (short : spec.Short) :
  (read encoding spec).Yields Short
  := (yields_readStored encoding short).bind fun _ h =>
    Reader.yields_pure (h.named encoding spec.name)

end Value

/-! ### Abbreviations -/

theorem Specification.yields_read? :
  read?.Yields fun found => ∀ spec ∈ found, spec.Short
  := by
  have form : readForm.Yields Form.Short := by
    apply (Reader.yields_any _).bind
    intro code _
    split
    · exact Reader.yields_throw _
    · exact Reader.yields_pure (Form.short_ofCode code)
  apply (Reader.yields_any _).bind
  intro name _
  split
  · apply (Reader.yields_any _).bind
    intro code _
    split
    · exact Reader.yields_pure nofun
    · exact Reader.yields_throw _
  · apply form.bind
    intro form short
    split
    · apply Reader.yields_signed.bind
      intro constant small
      apply Reader.yields_pure
      rintro spec ⟨⟩
      exact ⟨short, small⟩
    · apply Reader.yields_pure
      rintro spec ⟨⟩
      exact ⟨short, Int.ofNat_lt.mpr (wordValues_pos 8)⟩

theorem Abbreviation.yields_read? :
  read?.Yields fun found => ∀ a ∈ found, ∀ spec ∈ a.specifications, spec.Short
  := by
  apply (Reader.yields_any _).bind
  intro code _
  split
  · exact Reader.yields_pure nofun
  · apply (Reader.yields_any _).bind
    intro tag _
    split
    · exact Reader.yields_throw _
    · apply (Reader.yields_any _).bind
      intro hasChildren _
      apply (Specification.yields_read?.many _).bind
      intro specifications short
      apply Reader.yields_pure
      rintro a ⟨⟩
      exact short

namespace AbbreviationTable

theorem short_ofList {abbreviations : List Abbreviation}
    (short : ∀ a ∈ abbreviations, ∀ spec ∈ a.specifications, spec.Short) :
  (ofList abbreviations).Short
  := by
  have step (abbreviations : List Abbreviation) (table : AbbreviationTable) (h : table.Short)
      (short : ∀ a ∈ abbreviations, ∀ spec ∈ a.specifications, spec.Short) :
      Short (abbreviations.foldl (fun table a => table.insert a.code a) table) := by
    induction abbreviations generalizing table with
    | nil => exact h
    | cons first abbreviations ih =>
      obtain ⟨here, short⟩ := List.forall_mem_cons.mp short
      refine ih _ (fun code a found => ?_) short
      rw [find?, Std.TreeMap.getElem?_insert] at found
      split at found
      · cases found
        exact here
      · exact h code a found
  refine step abbreviations ∅ (fun code a found => ?_) short
  simp [find?] at found

theorem short_read {bytes : ByteArray} {offset : Nat} {table : AbbreviationTable}
    (h : read bytes offset = .ok table) :
  table.Short
  := by
  unfold read at h
  cases skipped : Reader.skip offset (Input.ofBytes bytes) with
  | error f =>
    rw [skipped] at h
    cases h
  | ok p =>
    rw [skipped] at h
    change (if _ then _ else _) = _ at h
    split at h
    · split at h
      · cases h
      · cases h
        exact short_ofList (Abbreviation.yields_read?.collect _ _)
    · cases h

end AbbreviationTable

/-! ### Entries -/

/-- All attributes of an entry are short. -/
def Entry.Short (e : Entry) : Prop :=
  ∀ pair ∈ e.attributes, pair.2.Short

theorem AttributeRun.short_read (encoding : Encoding) {specifications : List Specification}
    (short : ∀ spec ∈ specifications, spec.Short) (i : Input) :
  ∀ pair ∈ (AttributeRun.read encoding specifications i).attributes, pair.2.Short
  := by
  induction specifications generalizing i with
  | nil => exact fun pair mem => absurd mem List.not_mem_nil
  | cons spec specifications ih =>
    obtain ⟨here, short⟩ := List.forall_mem_cons.mp short
    unfold AttributeRun.read
    cases value : Value.read encoding spec i with
    | error f => exact fun pair mem => absurd mem List.not_mem_nil
    | ok p =>
      have first := (Value.yields_read encoding here).of_ok i p.1 p.2 value
      exact List.forall_mem_cons.mpr ⟨first, ih short p.2⟩

namespace Node

theorem yields_read (encoding : Encoding) {table : AbbreviationTable} (short : table.Short) :
  (read encoding table).Yields fun node => ∀ e, node = .entry e → e.Short
  := by
  constructor
  intro i node j h
  obtain ⟨code, k, -, coded⟩ := Reader.bind_ok h
  unfold readCoded at coded
  split at coded
  · cases coded
    exact nofun
  · split at coded
    next => cases coded
    next a found =>
      cases coded
      rintro e ⟨⟩
      exact AttributeRun.short_read encoding (short code a found) k

theorem short_entries (encoding : Encoding) {table : AbbreviationTable} (short : table.Short)
    (depth : Int) (i : Input) :
  ∀ item ∈ (entries encoding table depth i).items, item.2.Short
  := by
  induction hsize : i.remaining using Nat.strongRecOn generalizing i depth with
  | ind n ih =>
    rw [entries_eq]
    split
    · exact fun item mem => absurd mem List.not_mem_nil
    · cases step : read encoding table i with
      | error f => exact fun item mem => absurd mem List.not_mem_nil
      | ok p =>
        obtain ⟨node, j⟩ := p
        have shorter := (progress_read encoding table i node j step).2
        cases node with
        | null => exact ih j.remaining (hsize ▸ shorter) (depth - 1) j rfl
        | entry e =>
          have here := (yields_read encoding short).of_ok i _ j step e rfl
          dsimp only
          split
          · exact List.forall_mem_singleton.mpr here
          · exact List.forall_mem_cons.mpr ⟨here, ih j.remaining (hsize ▸ shorter) _ j rfl⟩

end Node

theorem CompilationUnit.abbreviations_ofHeader {header : UnitHeader} {table : AbbreviationTable}
    {u : CompilationUnit} (h : ofHeader header table = .ok u) :
  u.abbreviations = table
  := by
  unfold ofHeader at h
  cases first : Node.firstEntry? header.encoding table header.entries with
  | error f =>
    rw [first] at h
    cases h
  | ok root? =>
    rw [first] at h
    cases root? with
    | none => cases h
    | some root =>
      change (stringOffsetsBaseOf root >>= _) = _ at h
      cases base : stringOffsetsBaseOf root with
      | error f =>
        rw [base] at h
        cases h
      | ok offset =>
        rw [base] at h
        cases h
        rfl

theorem short_openAfter {bytes : ByteArray} (last : Option Fault) {opened : Array CompilationUnit}
    {known : KnownTables} (faithful : known.Faithful bytes)
    (short : ∀ u ∈ opened, u.abbreviations.Short) (headers : List UnitHeader) :
  ∀ u ∈ (openAfter bytes last opened known headers).items, u.abbreviations.Short
  := by
  induction headers generalizing opened known with
  | nil => exact fun u mem => short u (Array.mem_def.mpr mem)
  | cons header headers ih =>
    rw [openAfter, tableAt_eq_read faithful]
    cases read : AbbreviationTable.read bytes header.abbreviationOffset with
    | error f => exact fun u mem => short u (Array.mem_def.mpr mem)
    | ok table =>
      dsimp only
      cases made : CompilationUnit.ofHeader header table with
      | error f => exact fun u mem => short u (Array.mem_def.mpr mem)
      | ok u =>
        refine ih (faithful.insert read) fun u' mem => ?_
        rcases Array.mem_push.mp mem with mem | rfl
        · exact short u' mem
        · rw [CompilationUnit.abbreviations_ofHeader made]
          exact AbbreviationTable.short_read read

/-- A number that an attribute of an entry stands for has 64 bits. -/
theorem Sections.number?_lt {s : Sections} {u : CompilationUnit} (unit : u ∈ s.units.items)
    {item : Int × Entry} (mem : item ∈ u.contents.items) {key : AttributeName} {n : Nat}
    (h : item.2.number? key = .ok (some n)) :
  n < wordValues 8
  := by
  have table : u.abbreviations.Short :=
    short_openAfter s.unitHeaders.fault (KnownTables.faithful_empty _)
      (fun u mem => absurd mem (Array.not_mem_empty u)) _ u unit
  have short : item.2.Short := Node.short_entries u.encoding table 0 u.entries item mem
  rw [Entry.number?, Entry.value?] at h
  cases found : item.2.attributes.lookup key with
  | none =>
    rw [found] at h
    cases fault : item.2.fault <;> rw [fault] at h <;> cases h
  | some value =>
    rw [found] at h
    obtain ⟨before, after, listed, -⟩ := List.lookup_eq_some_iff.mp found
    refine short (key, value) ?_ n (Except.ok.inj h)
    rw [listed]
    exact List.mem_append_right _ List.mem_cons_self

end CompactTypes.Dwarf

import CompactTypes.Dwarf.Value

/-!
# Debugging entries

An `Entry` is a debugging entry with the attributes that could be read from it.  The entries
of a unit are stored one after the other; an entry that has children is followed by them and
by a null entry.  `Node.entries` reads such a sequence of entries and null entries, and tells
how deeply each entry is nested.
-/

namespace CompactTypes.Dwarf

/-- A debugging entry.  `attributes` are those in front of the first that could not be read,
and `fault` says why it could not. -/
structure Entry where
  /-- The offset in the unit. -/
  offset : Nat
  tag : Tag
  hasChildren : Bool
  attributes : List (AttributeName × Value)
  fault : Option Fault
  deriving DecidableEq, Inhabited

/-- The value of the first attribute with the given name.  An attribute that cannot be read
hides all those after it. -/
def Entry.value? (e : Entry) (key : AttributeName) : Except Fault (Option Value) :=
  match e.attributes.lookup key, e.fault with
  | some value, _ => .ok (some value)
  | none, some f => .error f
  | none, none => .ok none

/-- Attributes that have been read one after the other: those in front of the first that
could not be read, what was left of the input, and the fault. -/
structure AttributeRun where
  attributes : List (AttributeName × Value)
  rest : Input
  fault : Option Fault
  deriving Inhabited

/-- Reads the attributes that the specifications describe. -/
def AttributeRun.read (encoding : Encoding) : List Specification → Input → AttributeRun
  | [], i => ⟨[], i, none⟩
  | s :: specifications, i =>
    match Value.read encoding s i with
    | .error f => ⟨[], i, some f⟩
    | .ok (value, j) =>
      let run := AttributeRun.read encoding specifications j
      { run with attributes := (s.name, value) :: run.attributes }

/-- An entry, or the null entry that ends a sequence of children. -/
inductive Node where
  | null
  | entry (e : Entry)
  deriving DecidableEq, Inhabited

namespace Node

/-- The entry whose abbreviation has the given code, or the null entry if the code is
zero. -/
def readCoded (encoding : Encoding) (table : AbbreviationTable) (offset code : Nat) :
    Reader Node := fun i =>
  if code = 0 then
    .ok (null, i)
  else
    match table.find? code with
    | none => .error .unknownAbbreviation
    | some a =>
      let run := AttributeRun.read encoding a.specifications i
      .ok (entry ⟨offset, a.tag, a.hasChildren, run.attributes, run.fault⟩, run.rest)

/-- The next node. -/
def read (encoding : Encoding) (table : AbbreviationTable) : Reader Node := fun i =>
  (Reader.unsigned >>= readCoded encoding table i.offset) i

theorem before_attributeRun (encoding : Encoding) (specifications : List Specification)
    (i : Input) :
  i.Before (AttributeRun.read encoding specifications i).rest
  := by
  induction specifications generalizing i with
  | nil => exact Input.Before.refl i
  | cons s specifications ih =>
    unfold AttributeRun.read
    cases hs : Value.read encoding s i with
    | error f => exact Input.Before.refl i
    | ok p => exact (Value.forward_read encoding s i p.1 p.2 hs).trans (ih p.2)

theorem forward_readCoded (encoding : Encoding) (table : AbbreviationTable)
    (offset code : Nat) :
  (readCoded encoding table offset code).Forward
  := by
  intro i node j h
  unfold readCoded at h
  split at h
  · cases h
    exact Input.Before.refl i
  · split at h
    · cases h
    · rename_i a ha
      cases h
      exact before_attributeRun encoding a.specifications i

theorem progress_read (encoding : Encoding) (table : AbbreviationTable) :
  (read encoding table).Progress
  := by
  intro i node j h
  exact Reader.progress_unsigned.bind
    (forward_readCoded encoding table i.offset) i node j h

/-- The first entry of an input, if it has one; null entries can stand in front of it. -/
def firstEntry? (encoding : Encoding) (table : AbbreviationTable) (i : Input) :
    Except Fault (Option Entry) :=
  if i.remaining = 0 then
    .ok none
  else
    match h : read encoding table i with
    | .error f => .error f
    | .ok (.entry e, _) => .ok (some e)
    | .ok (.null, j) =>
      have := (progress_read encoding table i .null j h).2
      firstEntry? encoding table j
termination_by i.remaining

/-- The entries of an input, after the ones that have been found before, each with its depth;
`depth` is the depth of the first node.  An entry with children leads one level down, and a
null entry back up, however far. -/
def entriesAfter (encoding : Encoding) (table : AbbreviationTable)
    (found : Array (Int × Entry)) (depth : Int) (i : Input) : Stream (Int × Entry) :=
  if i.remaining = 0 then
    ⟨found.toList, none⟩
  else
    match h : read encoding table i with
    | .error f => ⟨found.toList, some f⟩
    | .ok (.null, j) =>
      have := (progress_read encoding table i .null j h).2
      entriesAfter encoding table found (depth - 1) j
    | .ok (.entry e, j) =>
      match e.fault with
      | some f => ⟨(found.push (depth, e)).toList, some f⟩
      | none =>
        have := (progress_read encoding table i (.entry e) j h).2
        entriesAfter encoding table (found.push (depth, e))
          (if e.hasChildren then depth + 1 else depth) j
termination_by i.remaining

/-- The entries of an input, each with its depth, up to the end or to the first node that
cannot be read. -/
def entries (encoding : Encoding) (table : AbbreviationTable) (depth : Int) (i : Input) :
    Stream (Int × Entry) :=
  entriesAfter encoding table #[] depth i

theorem entriesAfter_eq (encoding : Encoding) (table : AbbreviationTable)
    (found : Array (Int × Entry)) (depth : Int) (i : Input) :
  entriesAfter encoding table found depth i =
    if i.remaining = 0 then ⟨found.toList, none⟩
    else
      match read encoding table i with
      | .error f => ⟨found.toList, some f⟩
      | .ok (.null, j) => entriesAfter encoding table found (depth - 1) j
      | .ok (.entry e, j) =>
        match e.fault with
        | some f => ⟨(found.push (depth, e)).toList, some f⟩
        | none =>
          entriesAfter encoding table (found.push (depth, e))
            (if e.hasChildren then depth + 1 else depth) j
  := by
  rw [entriesAfter]
  split
  · rfl
  · split <;> simp [*]

theorem entriesAfter_eq_prepend (encoding : Encoding) (table : AbbreviationTable)
    (found : Array (Int × Entry)) (depth : Int) (i : Input) :
  entriesAfter encoding table found depth i =
    (entries encoding table depth i).prepend found.toList
  := by
  induction hsize : i.remaining using Nat.strongRecOn generalizing i found depth with
  | ind n ih =>
    unfold entries
    rw [entriesAfter_eq, entriesAfter_eq encoding table #[]]
    split
    · simp [Stream.prepend]
    · cases hr : read encoding table i with
      | error f => simp [Stream.prepend]
      | ok p =>
        obtain ⟨node, j⟩ := p
        have shorter := (progress_read encoding table i node j hr).2
        cases node with
        | null => exact ih j.remaining (hsize ▸ shorter) found (depth - 1) j rfl
        | entry e =>
          dsimp only
          split
          · simp [Stream.prepend]
          · rw [ih j.remaining (hsize ▸ shorter) (found.push (depth, e)) _ j rfl,
              ih j.remaining (hsize ▸ shorter) (#[].push (depth, e)) _ j rfl]
            simp [Stream.prepend]

theorem entries_eq (encoding : Encoding) (table : AbbreviationTable) (depth : Int)
    (i : Input) :
  entries encoding table depth i =
    if i.remaining = 0 then .empty
    else
      match read encoding table i with
      | .error f => .failed f
      | .ok (.null, j) => entries encoding table (depth - 1) j
      | .ok (.entry e, j) =>
        match e.fault with
        | some f => ⟨[(depth, e)], some f⟩
        | none =>
          (entries encoding table (if e.hasChildren then depth + 1 else depth) j).cons
            (depth, e)
  := by
  rw [entries, entriesAfter_eq]
  split
  · rfl
  · cases hr : read encoding table i with
    | error f => rfl
    | ok p =>
      obtain ⟨node, j⟩ := p
      cases node with
      | null => rfl
      | entry e =>
        dsimp only
        split
        · rfl
        · rw [entriesAfter_eq_prepend]
          rfl

end Node

end CompactTypes.Dwarf

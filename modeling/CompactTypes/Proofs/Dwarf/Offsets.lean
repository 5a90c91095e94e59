import CompactTypes.Dwarf.Unit
import CompactTypes.Proofs.Results

/-!
# Offsets of entries

The units follow one another in the section of entries, and the entries of a unit follow one
another in the unit.  Hence the offsets of all entries in the section increase strictly in the
order in which a walk meets the entries, `pairwise_offsets`, and no two entries share one.
-/

namespace CompactTypes.Dwarf

/-! ### Entries of a unit -/

theorem Input.offset_lt_of_progress {i j : Input} (before : i.Before j)
    (less : j.remaining < i.remaining) :
  i.offset < j.offset
  := by
  have place := before.place_le
  simp only [remaining, before.bytes_eq] at less
  simp only [offset, before.base_eq]
  omega

namespace Node

theorem offset_read {encoding : Encoding} {table : AbbreviationTable} {i j : Input} {e : Entry}
    (h : read encoding table i = .ok (entry e, j)) :
  e.offset = i.offset
  := by
  obtain ⟨code, k, -, coded⟩ := Reader.bind_ok h
  unfold readCoded at coded
  split at coded
  · cases coded
  · split at coded
    · cases coded
    · cases coded
      rfl

/-- The offsets of entries are among those of the input and increase strictly. -/
theorem offsets_entries (encoding : Encoding) (table : AbbreviationTable) (depth : Int)
    (i : Input) :
  let offsets := (entries encoding table depth i).items.map fun item => item.2.offset
  offsets.Pairwise (· < ·) ∧ ∀ o ∈ offsets, i.offset ≤ o ∧ o < i.base + i.bytes.size
  := by
  induction hsize : i.remaining using Nat.strongRecOn generalizing i depth with
  | ind n ih =>
    rw [entries_eq]
    split
    next => simp [Stream.empty]
    next filled =>
      have inside : i.offset < i.base + i.bytes.size := by
        simp only [Input.remaining] at filled
        simp only [Input.offset]
        omega
      cases hread : read encoding table i with
      | error f => simp [Stream.failed]
      | ok found =>
        obtain ⟨node, j⟩ := found
        obtain ⟨before, shorter⟩ := progress_read encoding table i node j hread
        have later := Input.offset_lt_of_progress before shorter
        -- What comes after the node lies behind it.
        have rest (depth : Int) := ih j.remaining (hsize ▸ shorter) depth j rfl
        simp only [before.bytes_eq, before.base_eq] at rest
        cases node with
        | null =>
          obtain ⟨increasing, bounds⟩ := rest (depth - 1)
          refine ⟨increasing, fun o mem => ?_⟩
          obtain ⟨least, greatest⟩ := bounds o mem
          exact ⟨Nat.le_of_lt (Nat.lt_of_lt_of_le later least), greatest⟩
        | entry e =>
          have here := offset_read hread
          dsimp only
          split
          next => simp [here, inside]
          next =>
            obtain ⟨increasing, bounds⟩ := rest (if e.hasChildren then depth + 1 else depth)
            simp only [Stream.cons, List.map_cons, List.pairwise_cons, List.mem_cons]
            refine ⟨⟨fun o mem => ?_, increasing⟩, ?_⟩
            · rw [here]
              exact Nat.lt_of_lt_of_le later (bounds o mem).1
            · rintro o (rfl | mem)
              · exact ⟨Nat.le_of_eq here.symm, here ▸ inside⟩
              · obtain ⟨least, greatest⟩ := bounds o mem
                exact ⟨Nat.le_of_lt (Nat.lt_of_lt_of_le later least), greatest⟩

end Node

namespace CompilationUnit

/-- The offsets of the entries of a unit in the section of entries. -/
def offsets (u : CompilationUnit) : List Nat :=
  u.contents.items.map fun item => u.globalOffset item.2.offset

/-- The first offset in the section of entries that is behind a unit. -/
def stop (u : CompilationUnit) : Nat :=
  u.offset + (u.entries.base + u.entries.bytes.size)

theorem pairwise_offsets (u : CompilationUnit) :
  u.offsets.Pairwise (· < ·) ∧ ∀ o ∈ u.offsets, u.offset ≤ o ∧ o < u.stop
  := by
  obtain ⟨increasing, bounds⟩ :=
    Node.offsets_entries u.encoding u.abbreviations 0 u.entries
  have split : u.offsets = (u.contents.items.map fun item => item.2.offset).map u.globalOffset := by
    rw [List.map_map]
    rfl
  rw [split]
  constructor
  · rw [List.pairwise_map]
    exact increasing.imp fun less => Nat.add_lt_add_left less u.offset
  · intro o mem
    obtain ⟨inner, hinner, rfl⟩ := List.mem_map.mp mem
    obtain ⟨-, greatest⟩ := bounds inner hinner
    exact ⟨Nat.le_add_right u.offset inner, Nat.add_lt_add_left greatest u.offset⟩

end CompilationUnit

/-! ### Units of a section -/

namespace UnitHeader

/-- The first offset in the section of entries that is behind a unit. -/
def stop (h : UnitHeader) : Nat :=
  h.offset + (h.entries.base + h.entries.bytes.size)

/-- Each unit starts where the one before it stops, or later. -/
def Consecutive (start : Nat) : List UnitHeader → Prop
  | [] => True
  | h :: headers => start ≤ h.offset ∧ Consecutive h.stop headers

theorem word_ok {order : ByteOrder} {n v : Nat} {i j : Input}
    (h : Reader.word order n i = .ok (v, j)) :
  j = i.advance n
  := by
  obtain ⟨bytes, k, block, pure⟩ := Reader.bind_ok h
  obtain ⟨-, -, rfl⟩ := Reader.block_ok block
  cases pure
  rfl

/-- The length of a unit takes as many bytes as its block is said to start after. -/
theorem readLength_ok {order : ByteOrder} {length offsetSize : Nat} {i j : Input}
    (h : readLength order i = .ok ((length, offsetSize), j)) :
  j = i.advance (if offsetSize = 4 then 4 else 12)
  := by
  obtain ⟨short, k, word, h⟩ := Reader.bind_ok h
  have first := word_ok word
  split at h
  · cases h
    exact first
  · split at h
    · obtain ⟨long, l, word, h⟩ := Reader.bind_ok h
      have second := word_ok word
      cases h
      rw [second, first]
      rfl
    · cases h

theorem forward_readAddressSize :
  readAddressSize.Forward
  := by
  apply Reader.progress_byte.forward.bind
  intro size
  split
  · apply Reader.forward_pure
  · apply Reader.forward_throw

theorem forward_skipTypeFields (offsetSize : Nat) (unitType : UInt8) :
  (skipTypeFields offsetSize unitType).Forward
  := by
  unfold skipTypeFields
  split
  · apply Reader.forward_pure
  · split
    · exact Reader.forward_skip 8
    · split
      · exact (Reader.forward_skip 8).bind fun _ => Reader.forward_skip offsetSize
      · apply Reader.forward_throw

theorem forward_readFields (order : ByteOrder) (offsetSize : Nat) :
  (readFields order offsetSize).Forward
  := by
  apply (Reader.forward_word order 2).bind
  intro version
  split
  · apply (Reader.forward_word order offsetSize).bind
    intro abbreviationOffset
    exact forward_readAddressSize.bind fun _ => Reader.forward_pure _
  · split
    · apply Reader.progress_byte.forward.bind
      intro unitType
      apply forward_readAddressSize.bind
      intro addressSize
      apply (Reader.forward_word order offsetSize).bind
      intro abbreviationOffset
      exact (forward_skipTypeFields offsetSize unitType).bind fun _ => Reader.forward_pure _
    · apply Reader.forward_throw

/-- A unit is as long as the bytes that have been read. -/
theorem read_ok {order : ByteOrder} {i j : Input} {h : UnitHeader}
    (hread : read order i = .ok (h, j)) :
  h.offset = i.offset ∧ h.stop = j.offset
  := by
  obtain ⟨⟨length, offsetSize⟩, k, hlength, hread⟩ := Reader.bind_ok hread
  have first := readLength_ok hlength
  obtain ⟨block, l, hblock, hread⟩ := Reader.bind_ok hread
  obtain ⟨fits, rfl, rfl⟩ := Reader.block_ok hblock
  obtain ⟨header, hheader, hread⟩ := ok_of_bind hread
  cases hread
  obtain ⟨⟨fields, entries⟩, hfields, hheader⟩ := ok_of_bind hheader
  cases hheader
  have within := forward_readFields order offsetSize _ _ _ hfields
  have size : (k.bytes.extract k.place (k.place + length)).size = length := by
    rw [ByteArray.size_extract]
    omega
  refine ⟨rfl, ?_⟩
  simp only [stop, within.base_eq, within.bytes_eq, size]
  simp only [first, Input.offset, Input.advance]
  omega

theorem read?_ok {order : ByteOrder} {i j : Input} {h : UnitHeader}
    (hread : read? order i = .ok (some h, j)) :
  read order i = .ok (h, j)
  := by
  unfold read? at hread
  split at hread
  · cases hread
  · split at hread
    next found =>
      cases hread
      exact found
    next => cases hread

theorem consecutive_collect (order : ByteOrder) (i : Input) :
  Consecutive i.offset (Reader.collect (read? order) (productive_read? order) i).1.items
  := by
  induction hsize : i.remaining using Nat.strongRecOn generalizing i with
  | ind n ih =>
    rw [Reader.collect_eq]
    cases hread : read? order i with
    | error f => exact trivial
    | ok found =>
      obtain ⟨header?, j⟩ := found
      cases header? with
      | none => exact trivial
      | some h =>
        have shorter := productive_read? order i h j hread
        obtain ⟨first, stop⟩ := read_ok (read?_ok hread)
        refine ⟨Nat.le_of_eq first.symm, ?_⟩
        rw [stop]
        exact ih j.remaining (hsize ▸ shorter) j rfl

end UnitHeader

namespace CompilationUnit

/-- Each unit starts where the one before it stops, or later. -/
def Consecutive (start : Nat) : List CompilationUnit → Prop
  | [] => True
  | u :: units => start ≤ u.offset ∧ Consecutive u.stop units

theorem ofHeader_ok {header : UnitHeader} {table : AbbreviationTable} {u : CompilationUnit}
    (h : ofHeader header table = .ok u) :
  u.offset = header.offset ∧ u.entries = header.entries
  := by
  obtain ⟨root?, -, h⟩ := ok_of_bind h
  cases root? with
  | none => cases h
  | some root =>
    obtain ⟨base, -, h⟩ := ok_of_bind h
    cases h
    exact ⟨rfl, rfl⟩

theorem consecutive_openAfter (bytes : ByteArray) (last : Option Fault) (start : Nat)
    (headers : List UnitHeader) (consecutive : UnitHeader.Consecutive start headers)
    (opened : Array CompilationUnit) (known : KnownTables) :
  ∃ units, (openAfter bytes last opened known headers).items = opened.toList ++ units
    ∧ Consecutive start units
  := by
  induction headers generalizing start opened known with
  | nil => exact ⟨[], by rw [openAfter, List.append_nil], trivial⟩
  | cons header headers ih =>
    obtain ⟨first, consecutive⟩ := consecutive
    rw [openAfter]
    split
    next => exact ⟨[], (List.append_nil _).symm, trivial⟩
    next table _ =>
      split
      next => exact ⟨[], (List.append_nil _).symm, trivial⟩
      next u hu =>
        obtain ⟨units, items, rest⟩ := ih header.stop consecutive (opened.push u) _
        obtain ⟨offset, entries⟩ := ofHeader_ok hu
        have stop : u.stop = header.stop := by
          rw [CompilationUnit.stop, UnitHeader.stop, offset, entries]
        refine ⟨u :: units, ?_, ?_, ?_⟩
        · rw [items, Array.toList_push, List.append_assoc, List.singleton_append]
        · rw [offset]
          exact first
        · rw [stop]
          exact rest

theorem Consecutive.pairwise_offsets {start : Nat} {units : List CompilationUnit}
    (h : Consecutive start units) :
  (units.flatMap offsets).Pairwise (· < ·) ∧ ∀ o ∈ units.flatMap offsets, start ≤ o
  := by
  induction units generalizing start with
  | nil => exact ⟨.nil, fun o mem => absurd mem List.not_mem_nil⟩
  | cons u units ih =>
    obtain ⟨first, rest⟩ := h
    obtain ⟨increasing, least⟩ := ih rest
    obtain ⟨inner, bounds⟩ := u.pairwise_offsets
    have length : u.offset ≤ u.stop := Nat.le_add_right _ _
    rw [List.flatMap_cons, List.pairwise_append]
    refine ⟨⟨inner, increasing, fun o mem o' mem' => ?_⟩, fun o mem => ?_⟩
    · exact Nat.lt_of_lt_of_le (bounds o mem).2 (least o' mem')
    · rcases List.mem_append.mp mem with mem | mem
      · exact Nat.le_trans first (bounds o mem).1
      · exact Nat.le_trans first (Nat.le_trans length (least o mem))

end CompilationUnit

namespace Sections

/-- The offsets of all entries increase strictly. -/
theorem pairwise_offsets (s : Sections) :
  (s.units.items.flatMap CompilationUnit.offsets).Pairwise (· < ·)
  := by
  have headers := UnitHeader.consecutive_collect s.order (Input.ofBytes s.info)
  obtain ⟨units, items, consecutive⟩ := CompilationUnit.consecutive_openAfter s.abbreviations
    s.unitHeaders.fault _ s.unitHeaders.items headers #[] ∅
  have opened : s.units.items = units := items
  rw [opened]
  exact consecutive.pairwise_offsets.1

end Sections

end CompactTypes.Dwarf

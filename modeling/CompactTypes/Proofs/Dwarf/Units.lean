import CompactTypes.Dwarf.Walk
import CompactTypes.Proofs.Results

/-!
# Units of longer sections

A reader that has found what it looks for finds the same if more bytes come after those of its
input, `Reader.Local`.  Hence the units of a section of entries are the first units of every longer
one, `Sections.units_append`, and the width of an address stays the same.
-/

namespace CompactTypes.Dwarf

/-- The input with more bytes at the end. -/
def Input.append (i : Input) (more : ByteArray) : Input :=
  { i with bytes := i.bytes ++ more }

/-- The debugging sections with more bytes at the end of the section of entries. -/
def Sections.append (s : Sections) (more : ByteArray) : Sections :=
  { s with info := s.info ++ more }

/-! ### Readers -/

namespace Reader

/-- A reader that yields a value yields the same if there are more bytes. -/
structure Local {α : Type} (r : Reader α) : Prop where
  of_ok : ∀ i a j more, r i = .ok (a, j) → r (i.append more) = .ok (a, j.append more)

section

variable {α β : Type} {r : Reader α}

theorem local_pure (a : α) :
  (pure a : Reader α).Local
  := by
  constructor
  intro i b j more h
  cases h
  rfl

theorem local_throw (f : Fault) :
  (throw f : Reader α).Local
  := ⟨nofun⟩

theorem Local.bind {f : α → Reader β} (hr : r.Local) (hf : ∀ a, (f a).Local) :
  (r >>= f).Local
  := by
  constructor
  intro i b k more h
  obtain ⟨a, j, hi, hj⟩ := bind_ok h
  change (r (i.append more) >>= fun p => f p.1 p.2) = _
  rw [hr.of_ok i a j more hi]
  exact (hf a).of_ok j b k more hj

/-- What a reader finds again and again in an input it finds first in a longer one. -/
theorem collect_append {r : Reader (Option α)} (productive : r.Productive)
    (found : ∀ i a j more, r i = .ok (some a, j) →
      r (i.append more) = .ok (some a, j.append more)) (i : Input) (more : ByteArray) :
  (r.collect productive i).1.items <+: (r.collect productive (i.append more)).1.items
  := by
  induction hsize : i.remaining using Nat.strongRecOn generalizing i with
  | ind n ih =>
    rw [collect_eq]
    cases step : r i with
    | error f => exact List.nil_prefix
    | ok p =>
      obtain ⟨item, j⟩ := p
      cases item with
      | none => exact List.nil_prefix
      | some a =>
        have shorter := productive i a j step
        rw [collect_eq r productive (i.append more), found i a j more step]
        exact (List.prefix_cons_inj a).mpr (ih j.remaining (hsize ▸ shorter) j rfl)

end

theorem local_block (n : Nat) :
  (block n).Local
  := by
  constructor
  intro i bytes j more h
  obtain ⟨fits, rfl, rfl⟩ := block_ok h
  have fits' : i.place + n ≤ (i.bytes ++ more).size := by
    rw [ByteArray.size_append]
    exact Nat.le_add_right_of_le fits
  have same : (i.bytes ++ more).extract i.place (i.place + n)
      = i.bytes.extract i.place (i.place + n) := by
    have none : more.extract (i.place - i.bytes.size) 0 = ByteArray.empty :=
      ByteArray.extract_eq_empty_iff.mpr (by simp)
    rw [ByteArray.extract_append, Nat.sub_eq_zero_of_le fits, none, ByteArray.append_empty]
  unfold block excerpt? Input.append
  rw [if_pos fits', same]
  rfl

theorem local_word (order : ByteOrder) (n : Nat) :
  (word order n).Local
  := (local_block n).bind fun _ => local_pure _

end Reader

/-! ### Headers -/

namespace UnitHeader

theorem local_readLength (order : ByteOrder) :
  (readLength order).Local
  := by
  apply (Reader.local_word order 4).bind
  intro length
  split
  · exact Reader.local_pure _
  · split
    · exact (Reader.local_word order 8).bind fun _ => Reader.local_pure _
    · exact Reader.local_throw _

theorem local_lift {α : Type} (result : Except Fault α) :
  Reader.Local (result : Reader α)
  := by
  cases result with
  | error f => exact Reader.local_throw f
  | ok a => exact Reader.local_pure a

theorem local_readAt (order : ByteOrder) (offset : Nat) :
  (readAt order offset).Local
  := by
  apply (local_readLength order).bind
  intro p
  exact (Reader.local_block _).bind fun _ => local_lift _

theorem local_read (order : ByteOrder) :
  (read order).Local
  := ⟨fun i => (local_readAt order i.offset).of_ok i⟩

theorem read?_append (order : ByteOrder) (i : Input) (header : UnitHeader) (j : Input)
    (more : ByteArray) (h : read? order i = .ok (some header, j)) :
  read? order (i.append more) = .ok (some header, j.append more)
  := by
  unfold read? at h ⊢
  split at h
  next => cases h
  next left =>
    have left' : (i.append more).remaining ≠ 0 := by
      have size : (i.append more).bytes.size = i.bytes.size + more.size :=
        ByteArray.size_append
      have place : (i.append more).place = i.place := rfl
      rw [Input.remaining] at left
      rw [Input.remaining, size, place]
      omega
    rw [if_neg left']
    split at h
    next header' j' read =>
      cases h
      rw [(local_read order).of_ok i _ _ more read]
    next => cases h

end UnitHeader

/-! ### Units -/

/-- Units that are open already come first. -/
theorem openAfter_prefix (bytes : ByteArray) (last : Option Fault) (opened : Array CompilationUnit)
    (known : KnownTables) (headers : List UnitHeader) :
  opened.toList <+: (openAfter bytes last opened known headers).items
  := by
  induction headers generalizing opened known with
  | nil => exact List.prefix_rfl
  | cons header headers ih =>
    rw [openAfter]
    split
    · exact List.prefix_rfl
    · split
      next => exact List.prefix_rfl
      next u _ =>
        have first : opened.toList <+: (opened.push u).toList := by
          rw [Array.toList_push]
          exact List.prefix_append _ _
        exact first.trans (ih _ _)

theorem openAfter_append (bytes : ByteArray) (last last' : Option Fault)
    (opened : Array CompilationUnit) (known : KnownTables) (headers more : List UnitHeader) :
  (openAfter bytes last opened known headers).items
    <+: (openAfter bytes last' opened known (headers ++ more)).items
  := by
  induction headers generalizing opened known with
  | nil => exact openAfter_prefix bytes last' opened known more
  | cons header headers ih =>
    rw [List.cons_append, openAfter, openAfter]
    split
    · exact List.prefix_rfl
    · split
      · exact List.prefix_rfl
      · exact ih _ _

namespace Sections

/-- The units of a section of entries come first in a longer one. -/
theorem units_append (s : Sections) (more : ByteArray) :
  s.units.items <+: (s.append more).units.items
  := by
  have headers : s.unitHeaders.items <+: (s.append more).unitHeaders.items :=
    Reader.collect_append (UnitHeader.productive_read? s.order) (UnitHeader.read?_append s.order)
      (Input.ofBytes s.info) more
  obtain ⟨others, all⟩ := headers
  rw [units, units, ← all]
  exact openAfter_append _ _ _ _ _ _ _

/-- The first unit of a section decides how wide an address is, also in a longer section. -/
theorem addressSize_append {s : Sections} {size : Nat} (nonempty : 0 < s.info.size)
    (h : s.addressSize = .ok size) (more : ByteArray) :
  (s.append more).addressSize = .ok size
  := by
  unfold Sections.addressSize at h ⊢
  have filled : s.info.isEmpty = false := by
    rw [ByteArray.isEmpty]
    exact beq_false_of_ne (Nat.ne_of_gt nonempty)
  have filled' : (s.append more).info.isEmpty = false := by
    have size : (s.append more).info.size = s.info.size + more.size := ByteArray.size_append
    rw [ByteArray.isEmpty, size]
    exact beq_false_of_ne (Nat.ne_of_gt (Nat.add_pos_left nonempty _))
  rw [if_neg (by simp [filled])] at h
  rw [if_neg (by simp [filled'])]
  obtain ⟨⟨header, rest⟩, read, h⟩ := ok_of_bind h
  have again : UnitHeader.read s.order (Input.ofBytes (s.append more).info) = _ :=
    (UnitHeader.local_read s.order).of_ok (Input.ofBytes s.info) header rest more read
  change (UnitHeader.read s.order (Input.ofBytes (s.append more).info) >>= _) = _
  rw [again]
  exact h

end Sections

end CompactTypes.Dwarf

import CompactTypes.Bytes.Order
import CompactTypes.Ctf.StringTable
import CompactTypes.Proofs.Bytes.Lists
import Mathlib.Data.List.Induction
import Mathlib.Data.List.ReduceOption

/-!
# The texts of a string table

`StringTable.Lists t texts` says that a table consists of the given distinct texts and knows
where they are.  Adding texts to such a table keeps the texts in it and appends the new ones,
`Lists.addAll`, and every text in it can be read at its offset, `Lists.textAt?_offset`.  The offset
that a text gets when it is added stays its offset, `Knows.addAll`, so that all offsets can be told
from the last table, `offsets_ofTexts`.
-/

namespace CompactTypes.Ctf.StringTable

/-- Texts, each followed by a null byte. -/
def stored (texts : List String) : List UInt8 :=
  texts.flatMap fun s => utf8Bytes s ++ [0]

@[simp]
theorem stored_nil :
  stored [] = []
  := rfl

theorem stored_append (texts texts' : List String) :
  stored (texts ++ texts') = stored texts ++ stored texts'
  := List.flatMap_append

theorem stored_cons (s : String) (texts : List String) :
  stored (s :: texts) = utf8Bytes s ++ 0 :: stored texts
  := by
  simp [stored]

/-- The table consists of the texts, in this order, after the empty one. -/
structure Lists (t : StringTable) (texts : List String) : Prop where
  bytes_eq : byteList t.bytes = 0 :: stored texts
  nodup : texts.Nodup
  nonempty : "" ∉ texts
  mem_offsets : ∀ s, s ∈ t.offsets ↔ s ∈ texts
  offset_eq : ∀ front s back, texts = front ++ s :: back →
    t.offsets[s]? = some (UInt32.ofNat (1 + (stored front).length))

theorem lists_empty :
  empty.Lists []
  := by
  constructor
  · simp [empty, byteList]
  · exact List.nodup_nil
  · exact List.not_mem_nil
  · simp [empty]
  · intro front s back h
    cases front <;> cases h

theorem Lists.size_bytes {t : StringTable} {texts : List String} (h : t.Lists texts) :
  t.bytes.size = 1 + (stored texts).length
  := by
  rw [← length_byteList, h.bytes_eq, List.length_cons, Nat.add_comm]

/-- The texts with one more at the end, unless it is missing, empty or there already. -/
def keep (texts : List String) : Option String → List String
  | none => texts
  | some s => if s = "" ∨ s ∈ texts then texts else texts ++ [s]

/-- The texts that are neither missing nor empty, in the order of their first use. -/
def distinct (texts : List (Option String)) : List String :=
  texts.foldl keep []

/-! ### Adding texts -/

/-- A new text is stored after the others, which stay where they are. -/
theorem Lists.append {t : StringTable} {texts : List String} (h : t.Lists texts) {s : String}
    (filled : s ≠ "") (fresh : s ∉ texts) :
  (t.append s).Lists (texts ++ [s])
  := by
  have size := h.size_bytes
  have missing (s' : String) (mem : s' ∈ texts) : ¬compare s s' = .eq := by
    intro same
    have equal := Std.LawfulEqOrd.eq_of_compare same
    exact fresh (equal ▸ mem)
  constructor
  · have bytes : byteList (t.append s).bytes = byteList t.bytes ++ utf8Bytes s ++ [0] := by
      rw [StringTable.append, byteList_push, byteList_append, utf8Bytes]
    rw [bytes, h.bytes_eq, stored_append, stored_cons, stored_nil]
    simp
  · rw [List.nodup_append]
    refine ⟨h.nodup, by simp, ?_⟩
    intro s' mem other only same
    rw [List.mem_singleton] at only
    exact fresh (only ▸ same ▸ mem)
  · intro mem
    rcases List.mem_append.mp mem with mem | mem
    · exact h.nonempty mem
    · exact filled (List.mem_singleton.mp mem).symm
  · intro s'
    rw [StringTable.append, Std.TreeMap.mem_insert, h.mem_offsets, List.mem_append,
      List.mem_singleton, Std.LawfulEqOrd.compare_eq_iff_eq]
    constructor
    · rintro (rfl | mem)
      · exact .inr rfl
      · exact .inl mem
    · rintro (mem | rfl)
      · exact .inr mem
      · exact .inl rfl
  · intro front s' back parts
    rw [StringTable.append, Std.TreeMap.getElem?_insert]
    rcases List.eq_nil_or_concat back with rfl | ⟨back', last, rfl⟩
    · obtain ⟨rfl, last⟩ := List.append_inj' parts rfl
      cases last
      rw [if_pos Std.ReflOrd.compare_self, size]
    · rw [List.concat_eq_append, ← List.cons_append, ← List.append_assoc] at parts
      obtain ⟨parts, -⟩ := List.append_inj' parts rfl
      rw [if_neg (missing s' (by simp [parts])), h.offset_eq front s' back' parts]

theorem Lists.add {t : StringTable} {texts : List String} (h : t.Lists texts)
    (s : Option String) :
  (t.add s).Lists (keep texts s)
  := by
  cases s with
  | none => exact h
  | some s =>
    rw [StringTable.add, keep]
    by_cases known : s = "" ∨ s ∈ texts
    · rw [if_pos known, if_pos (known.imp id (h.mem_offsets s).mpr)]
      exact h
    · rw [if_neg known, if_neg fun k => known (k.imp id (h.mem_offsets s).mp)]
      rw [not_or] at known
      exact h.append known.left known.right

theorem Lists.addAll {t : StringTable} {texts : List String} (h : t.Lists texts)
    (more : List (Option String)) :
  (t.addAll more).Lists (more.foldl keep texts)
  := by
  induction more generalizing t texts with
  | nil => exact h
  | cons s more ih => exact ih (h.add s)

/-- A table made from texts consists of the distinct ones among them. -/
theorem lists_ofTexts (texts : List (Option String)) :
  (ofTexts texts).Lists (distinct texts)
  := lists_empty.addAll texts

theorem mem_foldl_keep (more : List (Option String)) (texts : List String) (s : String)
    (filled : s ≠ "") :
  s ∈ more.foldl keep texts ↔ s ∈ texts ∨ some s ∈ more
  := by
  induction more generalizing texts with
  | nil => simp
  | cons first more ih =>
    rw [List.foldl_cons, ih, List.mem_cons]
    have first_mem : s ∈ keep texts first ↔ s ∈ texts ∨ some s = first := by
      cases first with
      | none => simp [keep]
      | some s' =>
        rw [keep, Option.some.injEq]
        split
        next known =>
          constructor
          · exact .inl
          · rintro (mem | rfl)
            · exact mem
            · exact known.resolve_left filled
        next => rw [List.mem_append, List.mem_singleton]
    rw [first_mem, or_assoc]

theorem mem_distinct (texts : List (Option String)) (s : String) (filled : s ≠ "") :
  s ∈ distinct texts ↔ some s ∈ texts
  := by
  rw [distinct, mem_foldl_keep texts [] s filled]
  simp

/-! ### Reading texts -/

/-- What a table holds at the offset of a text in it is this text. -/
theorem Lists.textAt?_offset {t : StringTable} {texts : List String} (h : t.Lists texts)
    (short : t.bytes.size < wordValues 4) (s : String) (known : s = "" ∨ s ∈ texts)
    (nullFree : 0 ∉ utf8Bytes s) :
  textAt? t.bytes (t.offset (some s)).toNat = some s.toUTF8
  := by
  rw [← toByteArray_byteList t.bytes, h.bytes_eq]
  by_cases filled : s = ""
  · subst filled
    exact textAt?_eq_some [] [] (stored texts) List.not_mem_nil
  · obtain ⟨front, back, parts⟩ := List.append_of_mem (known.resolve_left filled)
    have size := h.size_bytes
    rw [parts, stored_append, stored_cons, List.length_append] at size
    have fits : (UInt32.ofNat (1 + (stored front).length)).toNat = 1 + (stored front).length := by
      apply UInt32.toNat_ofNat_of_lt
      rw [wordValues_four] at short
      exact Nat.lt_of_le_of_lt (by omega) short
    have place : (t.offset (some s)).toNat = (0 :: stored front).length := by
      rw [offset, if_neg filled, Std.TreeMap.getD_eq_getD_getElem?, h.offset_eq front s back parts,
        Option.getD_some, fits, List.length_cons, Nat.add_comm]
    have found := textAt?_eq_some (0 :: stored front) (utf8Bytes s) (stored back) nullFree
    rw [utf8Bytes, toByteArray_byteList] at found
    rw [place, parts, stored_append, stored_cons]
    exact found

/-- Every text that a table is made from can be read from it, a missing one as empty. -/
theorem textAt?_offset_ofTexts (texts : List (Option String))
    (short : (ofTexts texts).bytes.size < wordValues 4) (s : Option String)
    (known : s = none ∨ s ∈ texts) (nullFree : 0 ∉ utf8Bytes (s.getD "")) :
  textAt? (ofTexts texts).bytes ((ofTexts texts).offset s).toNat = some (s.getD "").toUTF8
  := by
  have lists := lists_ofTexts texts
  cases s with
  | none => exact lists.textAt?_offset short "" (.inl rfl) nullFree
  | some s =>
    apply lists.textAt?_offset short s _ nullFree
    by_cases filled : s = ""
    · exact .inl filled
    · have mem := known.resolve_left (by simp)
      exact .inr ((mem_distinct texts s filled).mpr mem)

/-! ### Offsets -/

/-- The offsets that texts get when they are added to a table one after the other. -/
def offsetsAdding (t : StringTable) : List (Option String) → List UInt32
  | [] => []
  | s :: more => (t.add s).offset s :: (t.add s).offsetsAdding more

/-- A text has its offset in a table. -/
def Knows (t : StringTable) : Option String → Prop
  | none => True
  | some s => s = "" ∨ s ∈ t.offsets

theorem knows_add (t : StringTable) (s : Option String) :
  (t.add s).Knows s
  := by
  cases s with
  | none => trivial
  | some s =>
    rw [add]
    split
    next known => exact known
    next => exact .inr Std.TreeMap.mem_insert_self

/-- Adding a text moves no other text. -/
theorem Knows.add {t : StringTable} {s : Option String} (h : t.Knows s) (s' : Option String) :
  (t.add s').Knows s ∧ (t.add s').offset s = t.offset s
  := by
  cases s' with
  | none => exact ⟨h, rfl⟩
  | some s' =>
    rw [StringTable.add]
    split
    next => exact ⟨h, rfl⟩
    next new =>
      cases s with
      | none => exact ⟨trivial, rfl⟩
      | some s =>
        refine ⟨h.imp_right fun mem => Std.TreeMap.mem_insert.mpr (.inr mem), ?_⟩
        rw [offset, offset]
        by_cases filled : s = ""
        · rw [if_pos filled, if_pos filled]
        · have other : ¬compare s' s = .eq := by
            intro same
            have equal := Std.LawfulEqOrd.eq_of_compare same
            exact new (.inr (equal ▸ h.resolve_left filled))
          rw [if_neg filled, if_neg filled, append, Std.TreeMap.getD_insert, if_neg other]

theorem Knows.addAll {t : StringTable} {s : Option String} (h : t.Knows s)
    (more : List (Option String)) :
  (t.addAll more).offset s = t.offset s
  := by
  induction more generalizing t with
  | nil => rfl
  | cons s' more ih =>
    obtain ⟨known, same⟩ := h.add s'
    exact (ih known).trans same

/-- The offset that a text gets is still its offset when all texts have been added. -/
theorem offsetsAdding_eq_map (t : StringTable) (texts : List (Option String)) :
  t.offsetsAdding texts = texts.map (t.addAll texts).offset
  := by
  induction texts generalizing t with
  | nil => rfl
  | cons s texts ih =>
    rw [offsetsAdding, ih, List.map_cons]
    exact congrArg (· :: _) ((t.knows_add s).addAll texts).symm

/-- The texts of a table are those that it has been made from, without repetitions. -/
theorem distinct_eq_eraseDups (texts : List (Option String)) :
  distinct texts = (texts.reduceOption.filter (· ≠ "")).eraseDups
  := by
  induction texts using List.reverseRecOn with
  | nil => rfl
  | append_singleton texts s ih =>
    have last : distinct (texts ++ [s]) = keep (distinct texts) s := by
      rw [distinct, List.foldl_append]
      rfl
    rw [last, ih, List.reduceOption_append, List.filter_append, List.eraseDups_append]
    cases s with
    | none => simp [keep]
    | some s =>
      by_cases filled : s = ""
      · simp [keep, filled]
      · by_cases known : some s ∈ texts
        · simp [keep, filled, known, List.removeAll, List.reduceOption_mem_iff]
        · simp [keep, filled, known, List.removeAll, List.reduceOption_mem_iff, List.eraseDups_cons]

/-- Texts that are added to the empty table one after the other.  The table holds the empty text and
then those that are not empty, without repetitions, in the order in which each appears first.  The
offset of a missing or empty text is zero.  Whatever is added after a text, this text can be read at
the offset that it got; and two texts got one offset exactly if they are equal, where a missing text
is as good as an empty one. -/
theorem offsets_ofTexts (texts : List (Option String))
    (nullFree : ∀ s ∈ texts, 0 ∉ utf8Bytes (s.getD ""))
    (short : (ofTexts texts).bytes.size < wordValues 4) :
  let t := ofTexts texts
  let additions := texts.zip (empty.offsetsAdding texts)
  additions.map Prod.fst = texts
  ∧ byteList t.bytes = 0 :: stored (texts.reduceOption.filter (· ≠ "")).eraseDups
  ∧ (∀ a ∈ additions, a.1.getD "" = "" → a.2 = 0)
  ∧ (∀ a ∈ additions, textAt? t.bytes a.2.toNat = some (a.1.getD "").toUTF8)
  ∧ ∀ a ∈ additions, ∀ a' ∈ additions, a.2 = a'.2 ↔ a.1.getD "" = a'.1.getD ""
  := by
  intro t additions
  have offsets : empty.offsetsAdding texts = texts.map t.offset := empty.offsetsAdding_eq_map texts
  have all : additions = texts.map fun s => (s, t.offset s) := by
    rw [List.map_prod_left_eq_zip, ← offsets]
  have text (s : Option String) (mem : s ∈ texts) :
      textAt? t.bytes (t.offset s).toNat = some (s.getD "").toUTF8 :=
    textAt?_offset_ofTexts texts short s (.inr mem) (nullFree s mem)
  have offset_getD (s : Option String) : t.offset s = t.offset (some (s.getD "")) := by
    cases s <;> rfl
  rw [all]
  simp only [List.forall_mem_map]
  refine ⟨?_, ?_, ?_, text, ?_⟩
  · rw [List.map_map]
    exact List.map_id texts
  · rw [(lists_ofTexts texts).bytes_eq, distinct_eq_eraseDups]
  · intro s _ nothing
    rw [offset_getD, nothing]
    rfl
  · intro s mem s' mem'
    constructor
    · intro same
      have read := text s mem
      rw [same, text s' mem', Option.some.injEq] at read
      exact (String.toByteArray_inj.mp read).symm
    · intro same
      rw [offset_getD s, same, ← offset_getD s']

/-- A text that ends like another one is stored on its own. -/
theorem offsets_ofTexts_repeated :
  let texts := [some "ab", none, some "b", some "ab", some ""]
  (∀ s ∈ texts, 0 ∉ utf8Bytes (s.getD "")) ∧ (ofTexts texts).bytes.size < wordValues 4
  ∧ byteList (ofTexts texts).bytes = [0, 97, 98, 0, 98, 0]
  ∧ empty.offsetsAdding texts = [1, 0, 4, 1, 0]
  := by
  intro texts
  have nullFree : ∀ s ∈ texts, 0 ∉ utf8Bytes (s.getD "") := by decide +kernel
  have short : (ofTexts texts).bytes.size < wordValues 4 := by decide +kernel
  obtain ⟨-, bytes, -⟩ := offsets_ofTexts texts nullFree short
  refine ⟨nullFree, short, bytes.trans ?_, ?_⟩ <;> decide +kernel

end CompactTypes.Ctf.StringTable

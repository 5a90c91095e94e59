import CompactTypes.Text.Utf8
import Std.Data.TreeMap

/-!
# The string table

A `StringTable` holds texts one after the other, each followed by a null byte, and finds the
offset of each of them.  A text that is in the table already is not added again.  The empty
text stands at the offset zero, and a text that is missing counts as empty.
-/

namespace CompactTypes.Ctf

/-- Texts, each followed by a null byte, and where each of them starts. -/
structure StringTable where
  bytes : ByteArray
  offsets : Std.TreeMap String UInt32

namespace StringTable

/-- The table that holds the empty text only. -/
def empty : StringTable :=
  ⟨ByteArray.empty.push 0, ∅⟩

instance : Inhabited StringTable :=
  ⟨empty⟩

/-- The offset of a text in the table. -/
def offset (t : StringTable) : Option String → UInt32
  | none => 0
  | some s => if s = "" then 0 else t.offsets.getD s 0

/-- Adds a text that is not empty and not in the table yet. -/
def append (t : StringTable) (s : String) : StringTable :=
  let start := UInt32.ofNat t.bytes.size
  { bytes := (t.bytes ++ s.toUTF8).push 0
    offsets := t.offsets.insert s start }

/-- Adds a text, unless it is missing, empty or in the table already. -/
def add (t : StringTable) : Option String → StringTable
  | none => t
  | some s => if s = "" ∨ s ∈ t.offsets then t else t.append s

/-- Adds texts in order. -/
def addAll (t : StringTable) (texts : List (Option String)) : StringTable :=
  texts.foldl add t

/-- The table of some texts, in the order in which each appears first. -/
def ofTexts (texts : List (Option String)) : StringTable :=
  empty.addAll texts

end StringTable

end CompactTypes.Ctf

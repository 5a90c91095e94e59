import CompactTypes.Graph.Basic
import Std.Data.TreeMap

/-!
# The name index

A `NameIndex` finds the record that a symbol can take by the class and the name of the
symbol.  Of the records with one class and one name, the first to be inserted stays.
-/

namespace CompactTypes

/-- The records that symbols can take, by name, for either class of symbols. -/
structure NameIndex where
  functions : Std.TreeMap String TypeId
  objects : Std.TreeMap String TypeId

namespace NameIndex

/-- The index without records. -/
def empty : NameIndex :=
  ⟨∅, ∅⟩

instance : Inhabited NameIndex :=
  ⟨empty⟩

/-- The records of a class, by name. -/
def table (index : NameIndex) : SymbolClass → Std.TreeMap String TypeId
  | .function => index.functions
  | .object => index.objects

/-- The record of a class that has the given name. -/
def find? (index : NameIndex) (c : SymbolClass) (key : String) : Option TypeId :=
  (index.table c)[key]?

/-- The class and the name under which a record can be found. -/
def key? (r : TypeRecord) : Option (SymbolClass × String) :=
  match r.symbolClass?, r.name with
  | some c, some name => some (c, name)
  | _, _ => none

/-- Adds a record under a class and a name that are still free. -/
def insertAt (index : NameIndex) (id : TypeId) (c : SymbolClass) (name : String) :
    NameIndex :=
  match c with
  | .function => { index with functions := index.functions.insertIfNew name id }
  | .object => { index with objects := index.objects.insertIfNew name id }

/-- Whether a record can be added: it has a class and a name, and they are free. -/
def accepts (index : NameIndex) (r : TypeRecord) : Bool :=
  match key? r with
  | some (c, name) => (index.find? c name).isNone
  | none => false

/-- Adds a record, if it has a class and a name and they are free. -/
def insert (index : NameIndex) (id : TypeId) (r : TypeRecord) : NameIndex :=
  match key? r with
  | some (c, name) => index.insertAt id c name
  | none => index

/-- The index of all the types of a graph. -/
def ofGraph (g : Graph) : NameIndex :=
  g.allTypes.toList.foldl (fun index id => index.insert id (g.get id)) empty

/-! ### Laws -/

@[simp]
theorem find?_empty (c : SymbolClass) (key : String) :
  empty.find? c key = none
  := by
  cases c <;> simp [find?, table, empty]

theorem getElem?_insertIfNew (names : Std.TreeMap String TypeId) (name key : String)
    (id : TypeId) :
  (names.insertIfNew name id)[key]? =
    if name = key then names[name]?.or (some id) else names[key]?
  := by
  simp only [Std.TreeMap.getElem?_insertIfNew, Std.LawfulEqCmp.compare_eq_iff_eq]
  by_cases same : name = key
  · subst same
    cases found : names[name]? with
    | none =>
      have absent : name ∉ names := by
        intro present
        rw [Std.TreeMap.getElem?_eq_some_getElem present] at found
        cases found
      simp [absent]
    | some other =>
      have present : name ∈ names := by
        apply Classical.byContradiction
        intro absent
        rw [Std.TreeMap.getElem?_eq_none absent] at found
        cases found
      simp [present]
  · simp [same]

theorem find?_insertAt (index : NameIndex) (id : TypeId) (c c' : SymbolClass)
    (name key : String) :
  (index.insertAt id c name).find? c' key =
    if c = c' ∧ name = key then (index.find? c name).or (some id) else index.find? c' key
  := by
  cases c <;> cases c' <;> simp [find?, table, insertAt, getElem?_insertIfNew]

end NameIndex

end CompactTypes

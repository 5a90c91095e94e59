import CompactTypes.Graph.NameIndex
import Mathlib.Data.List.Basic

/-!
# What a name index finds

`NameIndex.find?` finds the first of the inserted records that has the class and the name, as a
search through all the types of a graph does, `find?_ofGraph`.  A record is accepted exactly if it
has a class and a name under which none has been inserted before it, `accepts_insertAll`, so that
what is found does not change any more, `find?_first`.  The index depends on the classes and the
names of the types only, `ofGraph_congr`.
-/

namespace CompactTypes

namespace NameIndex

/-- Inserting a record changes what is found only under its own class and name, and only if
nothing was found there. -/
theorem find?_insert (index : NameIndex) (id : TypeId) (r : TypeRecord) (c : SymbolClass)
    (key : String) :
  (index.insert id r).find? c key
    = (index.find? c key).or (if key? r = some (c, key) then some id else none)
  := by
  rw [insert]
  cases found : key? r with
  | none => simp
  | some place =>
    obtain ⟨c', name⟩ := place
    rw [find?_insertAt]
    by_cases same : c' = c ∧ name = key
    · obtain ⟨rfl, rfl⟩ := same
      simp
    · have other : some (c', name) ≠ some (c, key) := by
        intro equal
        cases equal
        exact same ⟨rfl, rfl⟩
      rw [if_neg same, if_neg other, Option.or_none]

/-- Adds records in order. -/
def insertAll (index : NameIndex) (entries : List (TypeId × TypeRecord)) : NameIndex :=
  entries.foldl (fun index e => index.insert e.1 e.2) index

/-- What was found before is found still, and otherwise the first record that is added under the
class and the name. -/
theorem find?_insertAll (index : NameIndex) (entries : List (TypeId × TypeRecord))
    (c : SymbolClass) (key : String) :
  (index.insertAll entries).find? c key
    = (index.find? c key).or ((entries.find? fun e => key? e.2 = some (c, key)).map Prod.fst)
  := by
  induction entries generalizing index with
  | nil => simp [insertAll]
  | cons e entries ih =>
    rw [insertAll, List.foldl_cons, ← insertAll, ih, find?_insert, Option.or_assoc,
      List.find?_cons]
    by_cases here : key? e.2 = some (c, key) <;> simp [here]

/-- The index of a graph finds what a search through its types finds. -/
theorem find?_ofGraph (g : Graph) (c : SymbolClass) (key : String) :
  (ofGraph g).find? c key
    = g.allTypes.toList.find? fun id => key? (g.get id) = some (c, key)
  := by
  have all : ofGraph g = empty.insertAll (g.allTypes.toList.map fun id => (id, g.get id)) := by
    rw [insertAll, List.foldl_map]
    rfl
  rw [all, find?_insertAll, find?_empty, Option.none_or, List.find?_map, Option.map_map]
  exact Option.map_id'

theorem key?_eq_some_iff {r : TypeRecord} {c : SymbolClass} {name : String} :
  key? r = some (c, name) ↔ r.symbolClass? = some c ∧ r.name = some name
  := by
  rw [key?]
  cases r.symbolClass? <;> cases r.name <;> simp

/-- A record is inserted under its class and its name, whatever else it says. -/
theorem insert_congr (index : NameIndex) (id : TypeId) {r r' : TypeRecord}
    (same : key? r' = key? r) :
  index.insert id r' = index.insert id r
  := by
  rw [insert, insert, same]

/-- Graphs with the same types have the same index, as long as these have the same classes and
names. -/
theorem ofGraph_congr {g g' : Graph} (allTypes : g'.allTypes = g.allTypes)
    (same : ∀ id ∈ g.allTypes, key? (g'.get id) = key? (g.get id)) :
  ofGraph g' = ofGraph g
  := by
  rw [ofGraph, ofGraph, allTypes]
  apply List.foldl_ext
  intro index id mem
  exact insert_congr index id (same id (Array.mem_toList_iff.mp mem))

/-! ### Accepted records -/

theorem accepts_iff (index : NameIndex) (r : TypeRecord) :
  index.accepts r = true ↔ ∃ c name, key? r = some (c, name) ∧ index.find? c name = none
  := by
  rw [accepts]
  cases key? r with
  | none => simp
  | some place =>
    obtain ⟨c, name⟩ := place
    simp

/-- A record is found exactly if it has been accepted. -/
theorem find?_insert_eq_ite (index : NameIndex) (id : TypeId) (r : TypeRecord) (c : SymbolClass)
    (key : String) :
  (index.insert id r).find? c key
    = if index.accepts r = true ∧ key? r = some (c, key) then some id else index.find? c key
  := by
  rw [find?_insert]
  by_cases place : key? r = some (c, key)
  · have accepted : index.accepts r = (index.find? c key).isNone := by rw [accepts, place]
    rw [if_pos place, accepted]
    cases index.find? c key <;> simp [place]
  · rw [if_neg place, if_neg fun new => place new.2, Option.or_none]

/-- After some records, a record is accepted if none of them has its class and its name. -/
theorem accepts_insertAll (entries : List (TypeId × TypeRecord)) (r : TypeRecord) :
  (empty.insertAll entries).accepts r = true ↔ ∃ c name, key? r = some (c, name)
    ∧ ∀ e ∈ entries, key? e.2 ≠ some (c, name)
  := by
  simp only [accepts_iff, find?_insertAll, find?_empty, Option.none_or, Option.map_eq_none_iff,
    List.find?_eq_none, decide_eq_true_eq, ne_eq]

/-- The index of a graph finds what a search through its types finds: the first type of the class
that has exactly this name, and nothing if there is none.  When records are added one after the
other, a record is accepted exactly if it has a class and a name and no record before it has the
same class and name; it is found from then on if it is accepted, and otherwise nothing changes; and
what is found under a class and a name stays so whatever records are added. -/
theorem find?_first :
  (∀ (g : Graph) (c : SymbolClass) (key : String),
    ((ofGraph g).find? c key = g.allTypes.toList.find? fun id =>
      (g.get id).symbolClass? = some c ∧ (g.get id).name = some key)
    ∧ ∀ id, (ofGraph g).find? c key = some id →
      id ∈ g.allTypes ∧ (g.get id).symbolClass? = some c ∧ (g.get id).name = some key)
  ∧ ∀ (front back : List (TypeId × TypeRecord)) (id : TypeId) (r : TypeRecord),
    let index := empty.insertAll front
    (index.accepts r = true ↔ ∃ c name, r.symbolClass? = some c ∧ r.name = some name
      ∧ ∀ e ∈ front, ¬(e.2.symbolClass? = some c ∧ e.2.name = some name))
    ∧ (∀ c key, (index.insert id r).find? c key
      = if index.accepts r = true ∧ r.symbolClass? = some c ∧ r.name = some key then some id
        else index.find? c key)
    ∧ ∀ c key found, index.find? c key = some found →
      (index.insertAll back).find? c key = some found
  := by
  refine ⟨fun g c key => ?_, fun front back id r => ⟨?_, ?_, ?_⟩⟩
  · have search : (ofGraph g).find? c key = g.allTypes.toList.find? fun id =>
        (g.get id).symbolClass? = some c ∧ (g.get id).name = some key := by
      simp only [find?_ofGraph, key?_eq_some_iff]
    refine ⟨search, fun id found => ?_⟩
    rw [search] at found
    have wanted := List.find?_some found
    exact ⟨Array.mem_toList_iff.mp (List.mem_of_find?_eq_some found), of_decide_eq_true wanted⟩
  · simp only [accepts_insertAll, key?_eq_some_iff, ne_eq, and_assoc]
  · intro c key
    simp only [find?_insert_eq_ite, key?_eq_some_iff]
  · intro c key found known
    rw [find?_insertAll, known, Option.some_or]

end NameIndex

end CompactTypes

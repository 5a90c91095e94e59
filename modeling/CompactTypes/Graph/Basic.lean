import CompactTypes.Error
import CompactTypes.Graph.Record

/-!
# The type graph

A `Graph` holds records, which it never gives up, and the lists from which the output is
built: `allTypes` in the order in which they were found, and the records that the symbols of
either class have taken, in the order of the symbol table.  A new record always stands at
`Graph.nextId`.
-/

namespace CompactTypes

/-- Records that refer to each other by their position, and the lists built over them. -/
structure Graph where
  records : Array TypeRecord
  allTypes : Array TypeId
  functions : Array TypeId
  objects : Array TypeId
  /-- The type of array indices. -/
  indexType : Option TypeId
  deriving DecidableEq, Repr

namespace Graph

/-- The graph without records. -/
def empty : Graph :=
  ⟨#[], #[], #[], #[], none⟩

instance : Inhabited Graph :=
  ⟨empty⟩

/-- The position of the next record. -/
def nextId (g : Graph) : TypeId :=
  g.records.size

/-- The record at a position. -/
def get (g : Graph) (id : TypeId) : TypeRecord :=
  g.records.getD id default

/-- Adds a record that is in no list. -/
def pushDetached (g : Graph) (r : TypeRecord) : Graph :=
  { g with records := g.records.push r }

/-- Adds a record and lists it among all types. -/
def push (g : Graph) (r : TypeRecord) : Graph :=
  let id := g.nextId
  { g with records := g.records.push r, allTypes := g.allTypes.push id }

/-- Changes the record at a position. -/
def update (g : Graph) (id : TypeId) (f : TypeRecord → TypeRecord) : Graph :=
  { g with records := g.records.modify id f }

/-- Chooses the type of array indices. -/
def withIndexType (g : Graph) (id : TypeId) : Graph :=
  { g with indexType := some id }

/-- The copy of a record that is to stand at `newId`: no symbol has taken it, and a record
that refers to itself has a copy that refers to itself. -/
def copyAt (g : Graph) (id newId : TypeId) : TypeRecord :=
  let copy := (g.get id).unclaimed
  if copy.reference = some id then copy.withReference newId else copy

/-- Adds a copy of a record, in no list. -/
def duplicate (g : Graph) (id : TypeId) : Graph :=
  let copy := g.copyAt id g.nextId
  g.pushDetached copy

/-- The positions that the symbols of a class have taken. -/
def taken (g : Graph) : SymbolClass → Array TypeId
  | .function => g.functions
  | .object => g.objects

/-- Lists a record as taken by a symbol of a class. -/
def addTaken (g : Graph) (c : SymbolClass) (id : TypeId) : Graph :=
  match c with
  | .function => { g with functions := g.functions.push id }
  | .object => { g with objects := g.objects.push id }

/-- The types that have a place in the output, in order. -/
def emittedTypes (g : Graph) : List TypeId :=
  g.allTypes.toList.filter fun id => !(g.get id).isSymbol

/-- Numbers the records at the given positions in order, from `next` on. -/
def numberFrom (g : Graph) (next : UInt32) : List TypeId → Graph
  | [] => g
  | id :: ids => (g.update id (·.withIndex next)).numberFrom (next + 1) ids

/-- Numbers the types that have a place in the output in order, from one on. -/
def assignIndices (g : Graph) : Graph :=
  g.numberFrom 1 g.emittedTypes

/-- The number of types that have a place in the output. -/
def typeCount (g : Graph) : Nat :=
  g.emittedTypes.length

/-- The record that the record at a position refers to. -/
def referenced (g : Graph) (id : TypeId) : Except Error TypeRecord :=
  match (g.get id).reference with
  | some target => .ok (g.get target)
  | none => .error (.unresolvedReference (g.get id).kind (g.get id).name)

/-- The number of the type of array indices, or zero if there is none. -/
def indexTypeNumber (g : Graph) : UInt32 :=
  match g.indexType with
  | some id => (g.get id).index
  | none => 0

/-! ### Laws -/

@[simp]
theorem nextId_pushDetached (g : Graph) (r : TypeRecord) :
  (g.pushDetached r).nextId = g.nextId + 1
  := Array.size_push r

@[simp]
theorem nextId_push (g : Graph) (r : TypeRecord) :
  (g.push r).nextId = g.nextId + 1
  := Array.size_push r

@[simp]
theorem nextId_update (g : Graph) (id : TypeId) (f : TypeRecord → TypeRecord) :
  (g.update id f).nextId = g.nextId
  := Array.size_modify

theorem get_pushDetached (g : Graph) (r : TypeRecord) (id : TypeId) :
  (g.pushDetached r).get id = if id = g.nextId then r else g.get id
  := by
  simp only [get, pushDetached, nextId, Array.getD_eq_getD_getElem?, Array.getElem?_push]
  split <;> rfl

theorem get_push (g : Graph) (r : TypeRecord) (id : TypeId) :
  (g.push r).get id = if id = g.nextId then r else g.get id
  := get_pushDetached g r id

theorem get_update_of_ne (g : Graph) {id other : TypeId} (f : TypeRecord → TypeRecord)
    (h : other ≠ id) :
  (g.update id f).get other = g.get other
  := by
  simp [get, update, Array.getElem?_modify, h.symm]

theorem get_update_self (g : Graph) {id : TypeId} (f : TypeRecord → TypeRecord)
    (h : id < g.nextId) :
  (g.update id f).get id = f (g.get id)
  := by
  have bound : id < g.records.size := h
  simp [get, update, bound, Array.getElem_modify]

end Graph

end CompactTypes

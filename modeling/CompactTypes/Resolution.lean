import CompactTypes.Graph.NameIndex
import CompactTypes.Symbol

/-!
# Resolution

`resolve` gives every symbol that has a class a record of the graph.  The first symbol with
a base name takes the record that has the class and this name, each later one takes a copy
of it, and a symbol without such a record takes a placeholder.  The records are listed in
the order of the symbol table.
-/

namespace CompactTypes

/-- How a symbol got its record. -/
inductive Outcome where
  /-- It took a record of the graph. -/
  | matched
  /-- It took a copy of a record that another symbol had taken. -/
  | duplicated
  /-- It took a placeholder. -/
  | unknown
  deriving DecidableEq, Repr, Inhabited

/-- How many symbols had each of the outcomes. -/
structure Statistics where
  matched : Nat
  duplicated : Nat
  unknown : Nat
  deriving DecidableEq, Repr, Inhabited

/-- A graph whose symbols have records, and how each symbol got its own, in order. -/
structure Resolution where
  graph : Graph
  outcomes : Array (Symbol × Outcome)
  deriving Inhabited

/-- The record of a symbol without type information, which is to stand at `id`.  It refers
to itself. -/
def placeholder (s : Symbol) (c : SymbolClass) (id : TypeId) : TypeRecord :=
  { TypeRecord.ofKind .unknown (some s.name) with
    flags := Flags.ofClass c
    reference := some id }

namespace Graph

/-- Lets a symbol of a class take a record. -/
def claim (g : Graph) (c : SymbolClass) (id : TypeId) (slot : Nat) : Graph :=
  (g.update id (·.claimedBy slot)).addTaken c id

/-- Gives a symbol of a class its record, and says how. -/
def resolveSymbol (g : Graph) (index : NameIndex) (s : Symbol) (c : SymbolClass) :
    Graph × Outcome :=
  let newId := g.nextId
  match index.find? c s.baseName with
  | none => ((g.pushDetached (placeholder s c newId)).claim c newId s.index, .unknown)
  | some id =>
    if (g.get id).flags.claimed then
      ((g.duplicate id).claim c newId s.index, .duplicated)
    else
      (g.claim c id s.index, .matched)

end Graph

namespace Resolution

/-- One more symbol. -/
def step (index : NameIndex) (r : Resolution) (s : Symbol) : Resolution :=
  match s.symbolClass?, r with
  | none, r => r
  | some c, ⟨graph, outcomes⟩ =>
    let (graph, outcome) := graph.resolveSymbol index s c
    ⟨graph, outcomes.push (s, outcome)⟩

/-- How many symbols had an outcome. -/
def count (r : Resolution) (outcome : Outcome) : Nat :=
  r.outcomes.toList.countP fun entry => entry.2 = outcome

/-- How many symbols had each of the outcomes. -/
def statistics (r : Resolution) : Statistics :=
  ⟨r.count .matched, r.count .duplicated, r.count .unknown⟩

end Resolution

/-- Gives every symbol of a table that has a class a record of the graph. -/
def resolve (g : Graph) (symbols : List Symbol) : Resolution :=
  symbols.foldl (Resolution.step (NameIndex.ofGraph g)) ⟨g, #[]⟩

end CompactTypes

import CompactTypes.Dwarf.Decoding

/-!
# Walks

`Decoding.visit` is the step of a walk at one entry, `Decoding.walkUnit` walks over the
entries of a unit, and `Decoding.walkUnits` over the units of the debugging sections.  A walk
stops at the first fault; what it has built up to there is kept.
-/

namespace CompactTypes.Dwarf

namespace Decoding

/-- The step of a walk at an entry of a unit. -/
def visit (s : Sections) (u : CompilationUnit) (depth : Int) (e : Entry) (d : Decoding) :
    Decoding × Option Fault :=
  let d := closeFrom depth d.scopes d
  let reading := Contribution.read s u (d.parentScope depth) depth e
  let d := d.note reading.notices
  match reading.value with
  | .error f => (d.abandon (Contribution.unfinished? s u depth e), some f)
  | .ok contribution =>
    let entry := u.globalOffset e.offset
    let scope := opened d.graph.nextId entry contribution
    ((d.add entry contribution).enter depth e.hasChildren scope, none)

/-- The steps of a walk at some entries of a unit. -/
def visitAll (s : Sections) (u : CompilationUnit) :
    List (Int × Entry) → Decoding → Decoding × Option Fault
  | [], d => (d, none)
  | (depth, e) :: entries, d =>
    match d.visit s u depth e with
    | (d, some f) => (d, some f)
    | (d, none) => visitAll s u entries d

/-- Walks over the entries of a unit. -/
def walkUnit (s : Sections) (u : CompilationUnit) (d : Decoding) :
    Decoding × Option Fault :=
  let contents := u.contents
  match visitAll s u contents.items d with
  | (d, some f) => (d, some f)
  | (d, none) =>
    match contents.fault with
    | some f => (d, some f)
    | none => (closeAll d.scopes d, none)

/-- Walks over units in order. -/
def walkUnits (s : Sections) : List CompilationUnit → Decoding → Decoding × Option Fault
  | [], d => (d, none)
  | u :: units, d =>
    match d.walkUnit s u with
    | (d, some f) => (d, some f)
    | (d, none) => walkUnits s units d

end Decoding

namespace Sections

/-- The width of an address in the first unit, which is 8 bytes if there is no unit. -/
def addressSize (s : Sections) : Except Fault Nat :=
  if s.info.isEmpty then
    .ok 8
  else do
    let (header, _) ← UnitHeader.read s.order (Input.ofBytes s.info)
    return header.encoding.addressSize

/-- Walks over units, and adds what they describe to a graph in which array indices have the
given width. -/
def walk (s : Sections) (units : Stream CompilationUnit) (g : Graph) (indexSize : Nat) :
    Decoding × Option Fault :=
  match (Decoding.start g indexSize).walkUnits s units.items with
  | (d, some f) => (d, some f)
  | (d, none) => (d, units.fault)

end Sections

end CompactTypes.Dwarf

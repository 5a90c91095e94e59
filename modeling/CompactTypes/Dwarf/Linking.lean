import CompactTypes.Dwarf.Walk

/-!
# Linking

After a walk the collected references are set: `Decoding.resolve?` finds the record that the
entry at an offset stands for, and `Decoding.linkAll` puts such records into the slots that
wait for them.  Then the members of every struct and union are put in the order of their
offsets.  `Sections.decode` is the whole way from debugging sections to a graph.
-/

namespace CompactTypes.Dwarf

/-- A graph to which debugging sections have been added, as far as possible. -/
structure Decoded where
  graph : Graph
  /-- Why strings could not be read. -/
  notices : List Fault
  /-- The number of units. -/
  unitCount : Nat
  /-- What has stopped the decoding. -/
  error : Option Error

namespace Decoding

/-- How many synonyms are followed one after the other. -/
def maxSynonyms : Nat :=
  4

/-- The record that the entry at an offset stands for, if `steps` look-ups lead there. -/
def follow (d : Decoding) : Nat → Nat → Option TypeId
  | 0, _ => none
  | steps + 1, offset =>
    match d.meanings[offset]? with
    | none => none
    | some (.record id) => some id
    | some (.synonym none) => some d.void
    | some (.synonym (some next)) => d.follow steps next

/-- The record that a reference to an offset, or to no type at all, leads to. -/
def resolve? (d : Decoding) : Option Nat → Option TypeId
  | none => some d.void
  | some offset => d.follow (maxSynonyms + 1) offset

/-- Puts a reference into its slot. -/
def setSlot (g : Graph) (target : TypeId) : Slot → Graph
  | .reference id => g.update id (·.withReference target)
  | .member owner place =>
    g.update owner fun r =>
      { r with members := r.members.modify place fun m => { m with reference := target } }

/-- Sets references in order, up to the first that leads nowhere. -/
def linkAll (d : Decoding) : List Link → Graph → Graph × Option Error
  | [], g => (g, none)
  | l :: links, g =>
    match d.resolve? l.target with
    | none => (g, some (.danglingReference l.entry (l.target.getD 0)))
    | some target => d.linkAll links (setSlot g target l.slot)

end Decoding

/-- The record with its members in the order of their offsets, if it is a struct or union.
Members with one offset keep their order. -/
def sortMembers (r : TypeRecord) : TypeRecord :=
  match r.kind with
  | .struct | .union =>
    let members := r.members.toList.mergeSort fun m m' => m.offset ≤ m'.offset
    { r with members := members.toArray }
  | _ => r

/-- Sorts the members of all records at the given positions. -/
def sortAll (ids : List TypeId) (g : Graph) : Graph :=
  ids.foldl (fun g id => g.update id sortMembers) g

/-- The error about the first type that has to refer to another one and does not. -/
def unresolved? (g : Graph) : Option Error :=
  (g.allTypes.toList.map g.get).findSome? fun r =>
    if r.kind.needsReference ∧ r.reference = none then
      some (.unresolvedReference r.kind r.name)
    else
      none

/-- Sets the collected references, and sorts the members. -/
def Decoding.finish (d : Decoding) : Graph × Option Error :=
  match d.linkAll d.links.toList d.graph with
  | (g, some e) => (g, some e)
  | (g, none) =>
    match unresolved? g with
    | some e => (g, some e)
    | none => (sortAll g.allTypes.toList g, none)

/-- Adds what the debugging sections describe to a graph. -/
def Sections.decode (s : Sections) (g : Graph) : Decoded :=
  match s.addressSize with
  | .error f => ⟨g, [], 0, some (.malformedDwarf f)⟩
  | .ok size =>
    let units := s.units
    let unitCount := units.items.length
    match s.walk units g size with
    | (d, some f) => ⟨d.graph, d.notices.toList, unitCount, some (.malformedDwarf f)⟩
    | (d, none) =>
      let (linked, error) := d.finish
      ⟨linked, d.notices.toList, unitCount, error⟩

end CompactTypes.Dwarf

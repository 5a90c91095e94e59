import CompactTypes.Dwarf.Contribution
import CompactTypes.Graph.Basic
import Std.Data.TreeMap

/-!
# Decodings

A `Decoding` is the state of a walk over debugging entries: the graph built so far, the
records and synonyms that entries stand for, the references that are still to be set, and
the scopes of the entries that enclose the current one.  `Decoding.add` adds the
contribution of an entry and `Decoding.close` completes the record of a scope that ends.
References are only collected, since they can point forward or into another unit.
-/

namespace CompactTypes.Dwarf

/-- The slot of a record into which a reference is to be put. -/
inductive Slot where
  /-- The type that a record is built on, returns or has. -/
  | reference (id : TypeId)
  /-- The type of the member of a record at a place. -/
  | member (owner : TypeId) (place : Nat)
  deriving DecidableEq, Repr, Inhabited

/-- A reference that is still to be set: from the entry at the offset `entry` to the type at
the offset `target`, or to no type at all. -/
structure Link where
  slot : Slot
  entry : Nat
  target : Option Nat
  deriving DecidableEq, Repr, Inhabited

/-- What a reference to an entry means. -/
inductive Meaning where
  | record (id : TypeId)
  /-- The entry is another name for the type at an offset, or for no type at all. -/
  | synonym (target : Option Nat)
  deriving DecidableEq, Repr, Inhabited

/-- The state of a walk over debugging entries. -/
structure Decoding where
  graph : Graph
  /-- The type that stands for no type at all. -/
  void : TypeId
  /-- What references to an entry mean, by the offset of the entry. -/
  meanings : Std.TreeMap Nat Meaning
  links : Array Link
  /-- The scopes of the enclosing entries with the depths of these, the innermost first. -/
  scopes : List (Int × Scope)
  /-- Why strings could not be read. -/
  notices : Array Fault

namespace Decoding

/-- The record for no type at all. -/
def voidRecord : TypeRecord :=
  { TypeRecord.ofKind .integer (some "void") with encoding := 1 }

/-- The record for the type of array indices. -/
def indexRecord (addressSize : Nat) : TypeRecord :=
  { TypeRecord.ofKind .integer (some "unsigned long") with
    size := UInt64.ofNat addressSize }

/-- The start of a walk that adds to a graph. -/
def start (g : Graph) (addressSize : Nat) : Decoding :=
  let void := g.nextId
  { graph := ((g.push voidRecord).push (indexRecord addressSize)).withIndexType (void + 1)
    void := void
    meanings := ∅
    links := #[]
    scopes := []
    notices := #[] }

/-- Adds a record to the types of the graph. -/
def push (d : Decoding) (r : TypeRecord) : Decoding :=
  { d with graph := d.graph.push r }

/-- Lets references to an entry have a meaning. -/
def define (d : Decoding) (entry : Nat) (m : Meaning) : Decoding :=
  { d with meanings := d.meanings.insert entry m }

/-- Adds a record that references to an entry mean. -/
def register (d : Decoding) (entry : Nat) (r : TypeRecord) : Decoding :=
  let id := d.graph.nextId
  (d.push r).define entry (.record id)

/-- Collects a reference. -/
def link (d : Decoding) (slot : Slot) (entry : Nat) (target : Option Nat) : Decoding :=
  { d with links := d.links.push ⟨slot, entry, target⟩ }

/-- Changes a record. -/
def update (d : Decoding) (id : TypeId) (f : TypeRecord → TypeRecord) : Decoding :=
  { d with graph := d.graph.update id f }

/-- Notes strings that could not be read. -/
def note (d : Decoding) (notices : List Fault) : Decoding :=
  { d with notices := d.notices ++ notices }

/-! ### Scopes -/

/-- Adds an array for each of the given lengths, each of which is the element type of the
one before it and the first of which is the element type of the array at `outer`, and
collects the reference of the last one. -/
def nestArrays (entry : Nat) (target : Option Nat) :
    TypeId → List UInt32 → Decoding → Decoding
  | outer, [], d => d.link (.reference outer) entry target
  | outer, count :: counts, d =>
    let inner := d.graph.nextId
    let record := { TypeRecord.ofKind .array none with elementCount := count }
    nestArrays entry target inner counts
      ((d.push record).update outer (·.withReference inner))

/-- Completes an array whose dimensions are known.  Of several dimensions the first belongs
to the outermost array. -/
def closeArray (d : Decoding) (id : TypeId) (entry : Nat) (target : Option Nat)
    (counts : List UInt32) : Decoding :=
  nestArrays entry target id counts.tail
    (d.update id fun r => { r with elementCount := counts.headD 0 })

/-- Completes the record of a scope that ends. -/
def close (d : Decoding) : Scope → Decoding
  | .function id =>
    d.update id fun r => { r with elementCount := UInt32.ofNat r.members.size }
  | .array id entry target counts => d.closeArray id entry target counts.reverse
  | .other | .aggregate _ | .enumeration _ => d

/-- Ends the innermost scopes that are not shallower than an entry at the given depth. -/
def closeFrom (depth : Int) : List (Int × Scope) → Decoding → Decoding
  | [], d => { d with scopes := [] }
  | (scopeDepth, scope) :: scopes, d =>
    if scopeDepth < depth then { d with scopes := (scopeDepth, scope) :: scopes }
    else closeFrom depth scopes (d.close scope)

/-- Ends every scope, the innermost first. -/
def closeAll : List (Int × Scope) → Decoding → Decoding
  | [], d => { d with scopes := [] }
  | (_, scope) :: scopes, d => closeAll scopes (d.close scope)

/-- The scope that the parent of an entry at the given depth has opened, if the parent is
the innermost entry with a scope. -/
def parentScope (d : Decoding) (depth : Int) : Option Scope :=
  match d.scopes with
  | (scopeDepth, scope) :: _ => if scopeDepth = depth - 1 then some scope else none
  | [] => none

/-- Adds a dimension to the innermost scope, if it belongs to an array. -/
def addDimension (d : Decoding) (count : UInt32) : Decoding :=
  match d.scopes with
  | (depth, .array id entry target counts) :: scopes =>
    { d with scopes := (depth, .array id entry target (count :: counts)) :: scopes }
  | _ => d

/-! ### Contributions -/

/-- Adds a member to a record, whose type is no type at all until its reference is set. -/
def addMember (d : Decoding) (owner : TypeId) (name : Option String) (offset : UInt64)
    (entry : Nat) (target : Option Nat) : Decoding :=
  let place := (d.graph.get owner).members.size
  let m : Member := ⟨name, d.void, offset⟩
  (d.update owner (·.addMember m)).link (.member owner place) entry target

/-- Adds the contribution of the entry at an offset. -/
def add (d : Decoding) (entry : Nat) (contribution : Contribution) : Decoding :=
  let id := d.graph.nextId
  match contribution with
  | .nothing => d
  | .plain record => d.register entry record
  | .derived record target => (d.register entry record).link (.reference id) entry target
  | .array record _ => d.register entry record
  | .aggregate record => d.register entry record
  | .enumeration record => d.register entry record
  | .subroutine record target => (d.register entry record).link (.reference id) entry target
  | .subprogram record target => (d.push record).link (.reference id) entry target
  | .object record target => (d.push record).link (.reference id) entry target
  | .dimension count => d.addDimension count
  | .member owner name offset target => d.addMember owner name offset entry target
  | .enumerator owner e => d.update owner (·.addEnumerator e)
  | .synonym target => d.define entry (.synonym target)

/-- Adds the record, if there is one, of an entry whose reading a fault has stopped. -/
def abandon (d : Decoding) : Option TypeRecord → Decoding
  | none => d
  | some record => d.push record

/-- The scope that the entry at an offset opens by a contribution whose record stands at
`id`. -/
def opened (id : TypeId) (entry : Nat) : Contribution → Option Scope
  | .array _ target => some (.array id entry target [])
  | .aggregate _ => some (.aggregate id)
  | .enumeration _ => some (.enumeration id)
  | .subroutine .. | .subprogram .. => some (.function id)
  | .nothing | .plain _ | .derived .. | .object .. | .dimension _ | .member ..
  | .enumerator .. | .synonym _ => none

/-- Opens the scope of an entry at the given depth.  The scope of an entry without children
ends at once. -/
def enter (d : Decoding) (depth : Int) (hasChildren : Bool) (scope : Option Scope) :
    Decoding :=
  if hasChildren then
    { d with scopes := (depth, scope.getD .other) :: d.scopes }
  else
    match scope with
    | some scope => d.close scope
    | none => d

end Decoding

end CompactTypes.Dwarf

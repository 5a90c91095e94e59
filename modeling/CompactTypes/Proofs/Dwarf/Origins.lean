import CompactTypes.Proofs.Dwarf.Arrays

/-!
# Inherited names and types

The name and the type of a function, a variable or an argument are those of the nearest entries on
its chain of origins that have one.  They are two searches of their own, which may end at different
entries.  The first one decides whether a function has a record, and the second one which type the
record refers to, `Contribution.ofSubprogram_ok_iff`.  The result is `Sections.inherited_decode`.
-/

namespace CompactTypes.Dwarf

namespace Contribution

variable {s : Sections} {u : CompilationUnit} {e : Entry}

/-- The name that a function, a variable, a member or an argument gets. -/
def name? : Contribution → Option String
  | subprogram r _ | object r _ => r.name
  | member _ name _ _ => name
  | nothing | plain _ | derived .. | array .. | aggregate _ | enumeration _ | subroutine ..
  | dimension _ | enumerator .. | synonym _ => none

/-- Functions, variables and arguments have the nearest name and refer to the nearest type. -/
theorem nearest_of_read {parent : Option Scope} {depth : Int} {c : Contribution}
    {target : Option Nat}
    (inherits : e.tag = .subprogram ∨ e.tag = .object ∨ e.tag = .formalParameter)
    (h : (read s u parent depth e).value = .ok c) (refers : c.reference = some target) :
  c.name? = s.nearestName? u 4 e ∧ target = u.nearestTarget? 4 e
  := by
  cases stems_read h with
  | subprogram _ named points | object _ named points =>
    cases refers
    exact ⟨named.symm, CompilationUnit.pointsTo_iff.mp points⟩
  | argument _ _ points =>
    cases refers
    exact ⟨rfl, CompilationUnit.pointsTo_iff.mp points⟩
  | derived tag => rcases inherits with tag' | tag' | tag' <;> rw [tag'] at tag <;> cases tag
  | array tag | subroutine tag | member tag =>
    rcases inherits with tag' | tag' | tag' <;> rw [tag'] at tag <;> cases tag
  | _ => cases refers

/-! ### Functions -/

/-- A function that is not only declared has a record exactly if it has a name. -/
theorem functionRecord?_ok_iff (defined : e.isDeclaration = .ok false) (r : Option TypeRecord) :
  (functionRecord? s u e).value = .ok r ↔ u.Readable .name maxOrigins e
    ∧ r = (s.nearestName? u maxOrigins e).map (symbolRecord .function)
  := by
  have value_eq : (functionRecord? s u e).value
      = (s.inheritedNameOf u e).value >>= fun name => .ok (name.map (symbolRecord .function)) := by
    rw [functionRecord?, Reading.value_bind, Reading.ofExcept, defined]
    exact Reading.value_bind _ _
  rw [value_eq, map_ok_iff (s.inheritedNameOf_ok_iff u e)]

/-- What a function that is not only declared contributes depends on its name.  Only if it has one,
its type is looked for. -/
theorem ofSubprogram_ok_iff (defined : e.isDeclaration = .ok false) (c : Contribution) :
  (ofSubprogram s u e).value = .ok c ↔ u.Readable .name maxOrigins e
    ∧ match s.nearestName? u maxOrigins e with
      | none => c = nothing
      | some name => u.Readable .type maxOrigins e
        ∧ c = subprogram (symbolRecord .function name) (u.nearestTarget? maxOrigins e)
  := by
  rw [ofSubprogram, Reading.value_bind, bind_ok_iff (functionRecord?_ok_iff defined)]
  apply and_congr_right'
  cases s.nearestName? u maxOrigins e with
  | none =>
    change Except.ok nothing = .ok c ↔ c = nothing
    rw [Except.ok.injEq, eq_comm]
  | some name =>
    rw [Option.map_some, Reading.value_bind]
    exact map_ok_iff (u.inheritedTypeOf_ok_iff e) (subprogram (symbolRecord .function name)) c

theorem isDeclaration_of_subprogram {r : TypeRecord} {target : Option Nat}
    (h : (ofSubprogram s u e).value = .ok (subprogram r target)) :
  e.isDeclaration = .ok false
  := by
  obtain ⟨r?, found, h⟩ := Reading.ok_of_bind h
  obtain ⟨declared, declaration, found⟩ := Reading.ok_of_bind found
  cases declared with
  | false => exact declaration
  | true =>
    cases found
    cases h

theorem read_of_subprogram (tag : e.tag = .subprogram) (parent : Option Scope) (depth : Int) :
  read s u parent depth e = ofSubprogram s u e
  := by
  rw [read, tag]

/-- Among all records only those of functions can be taken by the symbol of a function. -/
theorem exists_subprogram {c : Contribution} {r : TypeRecord} {parent : Option Scope}
    (record : c.record? = some r) (fits : c.Fits parent)
    (hclass : r.symbolClass? = some .function) :
  ∃ target, c = subprogram r target
  := by
  cases c with
  | subprogram r' target =>
    cases record
    exact ⟨target, rfl⟩
  | nothing | dimension | member | enumerator | synonym => cases record
  | plain | derived | array | aggregate | enumeration | subroutine | object =>
    cases record
    obtain ⟨-, other, -⟩ := fits
    rw [hclass] at other
    cases other

end Contribution

/-- The record at a position describes a function with the given name. -/
structure IsFunctionNamed (g : Graph) (name : String) (id : TypeId) : Prop where
  listed : id ∈ g.allTypes
  kind_eq : (g.get id).kind = .function
  class_eq : (g.get id).symbolClass? = some .function
  name_eq : (g.get id).name = some name

section

variable {s : Sections} {size : Nat} {d : Decoding} {visits : List Visit} {void : TypeId}
  {g : Graph}

/-- The records that the symbol of a function can take stem from functions that are not only
declared. -/
theorem Decoding.visit_of_function (walked : s.walk s.units .empty size = (d, none)) {id : TypeId}
    (hclass : (d.graph.get id).symbolClass? = some .function) :
  ∃ v ∈ s.visits s.units.items .empty size, v.made? = some id ∧ v.entry.tag = .subprogram
    ∧ v.entry.isDeclaration = .ok false
  := by
  have inside : id < d.graph.nextId := by
    apply Graph.lt_nextId_of_field TypeRecord.symbolClass?
    rw [hclass]
    exact Option.some_ne_none _
  have kind := (Sections.emits_walk walked).fresh.regular id inside
  rw [TypeRecord.Regular, hclass] at kind
  obtain ⟨v, mem, made⟩ := functions_walk walked (decide_eq_true kind)
  obtain ⟨r, record, rfl⟩ := Option.map_eq_some_iff.mp made
  have same : core (d.graph.get v.id) = core r := ((tracks_walk walked).made v mem r record).2
  have read := (s.visits_of_walk walked).2 v mem
  obtain ⟨target, contribution⟩ :=
    Contribution.exists_subprogram record (Contribution.fits_read read)
      ((congrArg TypeRecord.symbolClass? same).symm.trans hclass)
  rw [Visit.Faithful, contribution] at read
  have tag : v.entry.tag = .subprogram := Contribution.suits_read read
  rw [Contribution.read_of_subprogram tag] at read
  exact ⟨v, mem, made, tag, Contribution.isDeclaration_of_subprogram read⟩

/-- The record that a function gets. -/
theorem Linked.function (linked : Linked visits void g) (complete : g.Complete) {v : Visit}
    (mem : v ∈ visits) {name : String} {target : Option Nat}
    (contribution : v.contribution
      = .subprogram (Contribution.symbolRecord .function name) target) :
  v.made? = some v.id ∧ IsFunctionNamed g name v.id
    ∧ ∃ id, (g.get v.id).reference = some id ∧ Leads visits void target id
  := by
  have record : v.contribution.record? = some (Contribution.symbolRecord .function name) := by
    rw [contribution]
    rfl
  have same := linked.made v mem _ record
  have kind : (g.get v.id).kind = .function := kind_of_core same
  have listed : v.id ∈ g.allTypes := by
    rw [Array.mem_def, complete.allTypes_eq, List.mem_range]
    apply lt_nextId_of_kind
    rw [kind]
    exact TypeKind.noConfusion
  obtain ⟨id, leads, refers⟩ := linked.reference v mem target (by rw [contribution]; rfl)
  refine ⟨by rw [Visit.made?, record]; rfl, ⟨listed, kind, ?_, ?_⟩, id, refers, leads⟩
  · exact congrArg TypeRecord.symbolClass? same
  · exact congrArg TypeRecord.name same

end

namespace Sections

/-- A search for an attribute succeeds if every entry that it visits can be read, and then it finds
the value of the nearest entry of the chain of origins that has the attribute, at most four hops
away; without such an entry it finds nothing.  So the names and the types of functions, variables
and arguments are found, in searches of their own, and the type is where the value points.  In a
graph that has been decoded without an error, the functions that are not only declared have records
of their own exactly if their nearest name can be read, and there are no other records that the
symbol of a function can take.  The record has this name, and refers to the nearest type, or to no
type if there is none. -/
theorem inherited_decode :
  (∀ (u : CompilationUnit) (key : AttributeName) (e : Entry) (value : Option Value),
    u.inherited? key maxOrigins e = .ok value ↔ u.Readable key 4 e ∧ value = u.nearest? key 4 e)
  ∧ (∀ (u : CompilationUnit) (e : Entry),
    u.PointsTo (u.nearest? .type 4 e) (u.nearestTarget? 4 e))
  ∧ (∀ (s : Sections) (u : CompilationUnit) (parent : Option Scope) (depth : Int) (e : Entry)
      (c : Contribution),
    (e.tag = .subprogram ∨ e.tag = .object ∨ e.tag = .formalParameter →
      (Contribution.read s u parent depth e).value = .ok c →
      ∀ target, c.reference = some target →
        c.name? = s.nearestName? u 4 e ∧ target = u.nearestTarget? 4 e)
    ∧ (e.tag = .subprogram → e.isDeclaration = .ok false →
      ((Contribution.read s u parent depth e).value = .ok c ↔ u.Readable .name 4 e
        ∧ match s.nearestName? u 4 e with
          | none => c = .nothing
          | some name => u.Readable .type 4 e
            ∧ c = .subprogram (Contribution.symbolRecord .function name) (u.nearestTarget? 4 e))))
  ∧ ∀ (s : Sections) (size : Nat), s.addressSize = .ok size → (s.decode .empty).error = none →
    let visits := s.visits s.units.items .empty size
    let void := (Decoding.start .empty size).void
    let g := (s.decode .empty).graph
    visits.map Visit.place = s.entries
    ∧ (∀ v ∈ visits, ∀ w ∈ visits, ∀ id, v.made? = some id → w.made? = some id → v = w)
    ∧ (∀ id, (g.get id).symbolClass? = some .function → ∃ v ∈ visits, v.made? = some id
      ∧ v.entry.tag = .subprogram ∧ v.entry.isDeclaration = .ok false)
    ∧ ∀ v ∈ visits, v.entry.tag = .subprogram → v.entry.isDeclaration = .ok false →
      v.unit.Readable .name 4 v.entry
      ∧ match s.nearestName? v.unit 4 v.entry with
        | none => v.made? = none
        | some name => v.made? = some v.id ∧ IsFunctionNamed g name v.id
          ∧ v.unit.Readable .type 4 v.entry
          ∧ ∃ id, (g.get v.id).reference = some id
            ∧ Leads visits void (v.unit.nearestTarget? 4 v.entry) id
            ∧ (v.unit.nearest? .type 4 v.entry = none → id = void)
  := by
  refine ⟨fun u key => u.inherited?_ok_iff key 4, fun u e => u.pointsTo_target? _, ?_, ?_⟩
  · refine fun s u parent depth e c => ⟨fun tag read target refers => ?_, fun tag defined => ?_⟩
    · exact Contribution.nearest_of_read tag read refers
    · rw [Contribution.read_of_subprogram tag]
      exact Contribution.ofSubprogram_ok_iff defined c
  intro s size width decoded visits void g
  obtain ⟨d, walked, graph_eq, success, tracked⟩ := tracked_of_decode width decoded
  have linked : Linked visits void g := linked_of_decode width decoded
  obtain ⟨places, faithful⟩ := s.visits_of_walk walked
  refine ⟨places, fun v mem w mem' id => Decoding.eq_of_made mem mem', ?_, ?_⟩
  · intro id hclass
    have same : (d.finish.1.get id).symbolClass? = (d.graph.get id).symbolClass? :=
      tracked.field_finish success TypeRecord.symbolClass? (fun _ _ => rfl) (fun _ _ => rfl) id
    rw [show g = d.finish.1 from graph_eq, same] at hclass
    exact Decoding.visit_of_function walked hclass
  · intro v mem tag defined
    have read := faithful v mem
    rw [Visit.Faithful, Contribution.read_of_subprogram tag,
      Contribution.ofSubprogram_ok_iff defined] at read
    obtain ⟨readable, contributes⟩ := read
    refine ⟨readable, ?_⟩
    cases hname : s.nearestName? v.unit 4 v.entry with
    | none =>
      rw [show s.nearestName? v.unit maxOrigins v.entry = none from hname] at contributes
      rw [Visit.made?, contributes]
      rfl
    | some name =>
      rw [show s.nearestName? v.unit maxOrigins v.entry = some name from hname] at contributes
      obtain ⟨readable, contribution⟩ := contributes
      obtain ⟨made, function, id, refers, leads⟩ :=
        linked.function (complete_decode decoded) mem contribution
      refine ⟨made, function, readable, id, refers, leads, fun missing => ?_⟩
      have nowhere : v.unit.nearestTarget? maxOrigins v.entry = none :=
        congrArg v.unit.target? missing
      rw [nowhere] at leads
      exact leads

/-- An empty unit, and after it a unit with a function whose name is that of its abstract origin.
Its type is that of the specification of the abstract origin, which is its own specification. -/
def selfReferring : Sections where
  order := .little
  abbreviations := ⟨#[
    1, 0x11, 1, 0, 0,
    2, 0x24, 0, 3, 8, 0x0b, 0x0b, 0x3e, 0x0b, 0, 0,
    3, 0x2e, 0, 0x31, 0x13, 0, 0,
    4, 0x2e, 0, 3, 8, 0x3c, 0x19, 0x47, 0x13, 0, 0,
    5, 0x2e, 0, 0x3c, 0x19, 0x49, 0x13, 0x47, 0x13, 0, 0,
    0]⟩
  info := ⟨#[
    9, 0, 0, 0, 4, 0, 0, 0, 0, 0, 8,
    1,
    0,
    35, 0, 0, 0, 4, 0, 0, 0, 0, 0, 8,
    1,
    2, 105, 0, 4, 5,
    3, 22, 0, 0, 0,
    4, 102, 0, 29, 0, 0, 0,
    5, 12, 0, 0, 0, 29, 0, 0, 0,
    0]⟩
  strings := .empty
  stringOffsets := .empty
  lineStrings := .empty

/-- The function is named and returns a number.  The search for an attribute that its specification
lacks ends although it never leaves the specification. -/
theorem inherited_decode_selfReferring :
  let g := (selfReferring.decode .empty).graph
  selfReferring.addressSize = .ok 8 ∧ (selfReferring.decode .empty).error = none
  ∧ (∃ id target, IsFunctionNamed g "f" id ∧ (g.get id).reference = some target
    ∧ (g.get target).name = some "i")
  ∧ ∃ (u : CompilationUnit) (e : Entry), u.origin? e = some e
    ∧ u.Readable .byteSize 4 e ∧ u.nearest? .byteSize 4 e = none
  := by
  intro g
  have width : selfReferring.addressSize = .ok 8 := by decide +kernel
  have decoded : (selfReferring.decode .empty).error = none := by decide +kernel
  obtain ⟨search, -, -, decodes⟩ := inherited_decode
  obtain ⟨-, -, -, functions⟩ := decodes selfReferring 8 width decoded
  let visits := selfReferring.visits selfReferring.units.items .empty 8
  let v := visits.get ⟨3, by decide +kernel⟩
  let w := visits.get ⟨5, by decide +kernel⟩
  refine ⟨width, decoded, ?_, w.unit, w.entry, by decide +kernel, ?_⟩
  · have function := (functions v (List.get_mem _ _) (by decide +kernel) (by decide +kernel)).2
    have name : selfReferring.nearestName? v.unit 4 v.entry = some "f" := by decide +kernel
    rw [name] at function
    obtain ⟨-, named, -⟩ := function
    have refers : (g.get v.id).reference = some 2 := by decide +kernel
    exact ⟨v.id, 2, named, refers, by decide +kernel⟩
  · have found : w.unit.inherited? .byteSize maxOrigins w.entry = .ok none := by decide +kernel
    obtain ⟨readable, none_eq⟩ := (search w.unit .byteSize w.entry none).mp found
    exact ⟨readable, none_eq.symm⟩

end Sections

end CompactTypes.Dwarf

import CompactTypes.Proofs.Dwarf.Children

/-!
# Members and arguments

The members of a struct or union are those that the children of its entry define, sorted by their
offsets so that members with one offset stay in order, `StablySorted`.  The arguments of a function
are those of the children of its entry, in order.  A member is `Described` by its own entry, also
after the sorting: the types of members are set before it.  The result is
`Sections.members_decode`.
-/

namespace CompactTypes.Dwarf

/-- Whether an entry is a member that is not only declared. -/
def Entry.definesMember (e : Entry) : Bool :=
  e.tag = .member && !e.declares

/-- Whether an entry is an argument. -/
def Entry.isArgument (e : Entry) : Bool :=
  e.tag = .formalParameter

/-- A list holds the members of another one by their offsets, and those with one offset in the same
order. -/
structure StablySorted (declared members : List Member) : Prop where
  perm : members.Perm declared
  ordered : members.Pairwise fun m m' => m.offset ≤ m'.offset
  stable : ∀ offset, members.filter (fun m => m.offset = offset)
    = declared.filter fun m => m.offset = offset

/-- A member has a given name and a proper offset, and the type to which the value of an attribute
points. -/
structure Described (visits : List Visit) (void : TypeId) (u : CompilationUnit)
    (name : Option String) (proper : UInt64 → Prop) (type : Option Value) (m : Member) : Prop where
  name_eq : m.name = name
  placed : proper m.offset
  leads : ∃ target, u.PointsTo type target ∧ Leads visits void target m.reference

/-- A member has the only offset that is proper, and refers to the only record to which its type
leads. -/
theorem Described.eq {visits : List Visit} {void id : TypeId} {u : CompilationUnit}
    {name : Option String} {proper : UInt64 → Prop} {type : Option Value} {target : Option Nat}
    {offset : UInt64} {m : Member} (h : Described visits void u name proper type m)
    (unique : ∀ target id id', Leads visits void target id → Leads visits void target id' →
      id = id')
    (points : u.PointsTo type target) (leads : Leads visits void target id)
    (only : ∀ offset', proper offset' → offset' = offset) :
  m = ⟨name, id, offset⟩
  := by
  obtain ⟨target', points', leads'⟩ := h.leads
  rw [points.unique points'] at leads
  rw [← h.name_eq, ← only m.offset h.placed, unique target' _ _ leads leads']

theorem stablySorted_mergeSort (members : List Member) :
  StablySorted members (members.mergeSort fun m m' => m.offset ≤ m'.offset)
  := by
  have trans (m m' m'' : Member) (h : decide (m.offset ≤ m'.offset) = true)
      (h' : decide (m'.offset ≤ m''.offset) = true) : decide (m.offset ≤ m''.offset) = true :=
    decide_eq_true (UInt64.le_trans (of_decide_eq_true h) (of_decide_eq_true h'))
  have total (m m' : Member) : (decide (m.offset ≤ m'.offset) || decide (m'.offset ≤ m.offset))
      = true := by
    rw [Bool.or_eq_true, decide_eq_true_eq, decide_eq_true_eq]
    exact UInt64.le_total m.offset m'.offset
  have perm := List.mergeSort_perm members fun m m' => decide (m.offset ≤ m'.offset)
  refine ⟨perm, ?_, fun offset => ?_⟩
  · exact (List.pairwise_mergeSort trans total members).imp fun h => of_decide_eq_true h
  · -- Members with one offset are sorted as they are, so that sorting leaves them in order.
    have sorted : (members.filter fun m => m.offset = offset).Pairwise
        fun m m' => decide (m.offset ≤ m'.offset) = true := by
      apply List.pairwise_of_forall_mem_list
      intro m mem m' mem'
      have same := of_decide_eq_true (List.mem_filter.mp mem).2
      have same' := of_decide_eq_true (List.mem_filter.mp mem').2
      rw [same, same']
      exact decide_eq_true (UInt64.le_refl offset)
    have kept := (List.sublist_mergeSort trans total sorted List.filter_sublist).filter
      fun m => m.offset = offset
    rw [List.filter_filter] at kept
    simp only [Bool.and_self] at kept
    exact (kept.eq_of_length (perm.filter _).length_eq.symm).symm

theorem stablySorted_inOrder {kind : TypeKind} (h : kind = .struct ∨ kind = .union)
    (members : List Member) :
  StablySorted members (inOrder kind members)
  := by
  rcases h with rfl | rfl <;> exact stablySorted_mergeSort members

/-! ### Members that have been read -/

namespace Contribution

variable {s : Sections} {u : CompilationUnit} {depth : Int} {e : Entry} {c : Contribution}
  {owner : TypeId} {name : Option String} {offset : UInt64} {target : Option Nat}

theorem exists_of_isMemberOf (h : c.isMemberOf owner) :
  ∃ name offset target, c = member owner name offset target
  := by
  cases c with
  | member owner' name offset target =>
    obtain rfl : owner' = owner := of_decide_eq_true h
    exact ⟨name, offset, target, rfl⟩
  | _ => cases h

/-- What a struct or union gets as a member from an entry. -/
theorem read_aggregate (h : (read s u (some (.aggregate owner)) depth e).value
    = .ok (member owner name offset target)) :
  e.definesMember ∧ name = s.ownName? u e ∧ u.PlacedAt e offset
    ∧ u.PointsTo (e.attributes.lookup .type) target
  := by
  cases stems_read h with
  | member tag _ defined placed points =>
    refine ⟨?_, rfl, placed, points⟩
    rw [Entry.definesMember, tag, defined]
    rfl
  | argument _ inside => cases inside

/-- What a function gets as an argument from an entry. -/
theorem read_function (h : (read s u (some (.function owner)) depth e).value
    = .ok (member owner name offset target)) :
  e.isArgument ∧ name = s.nearestName? u 4 e ∧ offset = 0
    ∧ u.PointsTo (u.nearest? .type 4 e) target
  := by
  cases stems_read h with
  | member _ inside => cases inside
  | argument tag _ points => exact ⟨decide_eq_true tag, rfl, rfl, points⟩

/-- The members of a struct or union stem from the entries that define one. -/
theorem isMemberOf_aggregate_iff (h : (read s u (some (.aggregate owner)) depth e).value = .ok c) :
  c.isMemberOf owner ↔ e.definesMember
  := by
  constructor
  · intro member
    obtain ⟨name, offset, target, rfl⟩ := exists_of_isMemberOf member
    exact (read_aggregate h).1
  · intro defines
    rw [Entry.definesMember, Bool.and_eq_true, decide_eq_true_eq, Bool.not_eq_true'] at defines
    obtain ⟨offset, target, rfl⟩ := (stems_read h).of_member defines.1 defines.2
    exact decide_eq_true rfl

/-- The members of a function stem from arguments. -/
theorem isMemberOf_function_iff (h : (read s u (some (.function owner)) depth e).value = .ok c) :
  c.isMemberOf owner ↔ e.isArgument
  := by
  constructor
  · intro member
    obtain ⟨name, offset, target, rfl⟩ := exists_of_isMemberOf member
    exact (read_function h).1
  · intro argument
    obtain ⟨target, rfl⟩ := (stems_read h).of_formalParameter (of_decide_eq_true argument)
    exact decide_eq_true rfl

end Contribution

/-! ### Members of records -/

section

variable {s : Sections} {u : CompilationUnit} {visits : List Visit} {owner void : TypeId}
  {depth : Int} {scope : Scope} {select : Entry → Bool} {children : List Entry}

/-- The members of a record stem from those children of its entry that are selected. -/
theorem membersOf_eq_filter (faithful : ∀ v ∈ visits, v.Faithful s)
    (parents : ∀ v ∈ childrenOf owner visits, v.unit = u ∧ v.parent = some scope)
    (selects : ∀ depth e c, (Contribution.read s u (some scope) depth e).value = .ok c →
      (c.isMemberOf owner ↔ select e)) :
  membersOf owner visits = (childrenOf owner visits).filter fun v => select v.entry
  := by
  have selects (v : Visit) (mem : v ∈ visits) (child : v.parent.bind Scope.owner? = some owner) :
      v.contribution.isMemberOf owner ↔ select v.entry := by
    obtain ⟨unit, parent⟩ := parents v (List.mem_filter.mpr ⟨mem, decide_eq_true child⟩)
    have read := faithful v mem
    rw [Visit.Faithful, unit, parent] at read
    exact selects v.depth v.entry v.contribution read
  rw [membersOf, childrenOf, List.filter_filter]
  apply List.filter_congr
  intro v mem
  rw [Bool.eq_iff_iff, Bool.and_eq_true, decide_eq_true_eq]
  constructor
  · intro member
    have child : v.parent.bind Scope.owner? = some owner := by
      obtain ⟨name, offset, target, contribution⟩ := Contribution.exists_of_isMemberOf member
      have fits := Contribution.fits_read (faithful v mem)
      rw [contribution] at fits
      rcases fits with aggregate | function
      · rw [aggregate]
        rfl
      · rw [function]
        rfl
    exact ⟨(selects v mem child).mp member, child⟩
  · rintro ⟨selected, child⟩
    exact (selects v mem child).mpr selected

/-- The members of a record before they are sorted are described by the children of its entry that
are selected, in order. -/
theorem exists_declared {g : Graph} {names : Entry → Option String}
    {proper : Entry → UInt64 → Prop} {types : Entry → Option Value}
    (linked : Linked visits void g) (faithful : ∀ v ∈ visits, v.Faithful s)
    (places : (childrenOf owner visits).map Visit.place = children.map (u, depth, ·))
    (parents : ∀ v ∈ childrenOf owner visits, v.parent = some scope)
    (selects : ∀ depth e c, (Contribution.read s u (some scope) depth e).value = .ok c →
      (c.isMemberOf owner ↔ select e))
    (reads : ∀ depth e name offset target,
      (Contribution.read s u (some scope) depth e).value = .ok (.member owner name offset target) →
      select e ∧ name = names e ∧ proper e offset ∧ u.PointsTo (types e) target) :
  ∃ declared, List.Forall₂
      (fun e m => Described visits void u (names e) (proper e) (types e) m)
      (children.filter select) declared
    ∧ (g.get owner).members.toList = inOrder (g.get owner).kind declared
  := by
  obtain ⟨all, unit⟩ := entries_of_places places
  have members := membersOf_eq_filter faithful (fun v mem => ⟨unit v mem, parents v mem⟩) selects
  have entries : (membersOf owner visits).map Visit.entry = children.filter select := by
    rw [members, ← all, List.filter_map]
    rfl
  obtain ⟨declared, found, sorted⟩ := linked.members owner
  refine ⟨declared, ?_, sorted⟩
  rw [← entries, List.forall₂_map_left_iff]
  apply (forall₂_and_mem found).imp
  rintro v m ⟨mem, target, contribution, leads⟩
  have child : v ∈ childrenOf owner visits := (List.mem_filter.mp (members ▸ mem)).1
  have read := faithful v (List.mem_filter.mp child).1
  rw [Visit.Faithful, unit v child, parents v child, contribution] at read
  obtain ⟨-, name, offset, points⟩ := reads v.depth v.entry m.name m.offset target read
  exact ⟨name, offset, target, points, leads⟩

end

/-! ### Functions -/

/-- Whether a record describes a function or the type of one. -/
def isFunction (r : TypeRecord) : Bool :=
  r.kind = .function

/-- A record of a function lets arguments be added. -/
theorem opened_of_isFunction {id : TypeId} {entry : Nat} {c : Contribution} {r : TypeRecord}
    {parent : Option Scope} (record : c.record? = some r) (fits : c.Fits parent)
    (function : isFunction r) :
  Decoding.opened id entry c = some (.function id)
  := by
  have kind : r.kind = .function := of_decide_eq_true function
  cases c with
  | subroutine | subprogram => rfl
  | nothing | dimension | member | enumerator | synonym => cases record
  | plain | aggregate =>
    cases record
    obtain ⟨-, -, other | other⟩ := fits <;> rw [kind] at other <;> cases other
  | array | enumeration | object =>
    cases record
    obtain ⟨-, -, other⟩ := fits
    rw [kind] at other
    cases other
  | derived =>
    cases record
    obtain ⟨-, -, other⟩ := fits
    rw [kind] at other
    exact absurd other (by decide)

namespace Decoding

variable {s : Sections} {d : Decoding}

theorem steady_isFunction :
  Steady isFunction
  := ⟨fun _ _ => rfl, fun _ _ => rfl, fun _ => rfl⟩

/-- Records of functions are made by records of contributions only. -/
theorem isFunction_add {c : Contribution} {entry : Nat} {id : TypeId}
    (function : isFunction ((d.add entry c).graph.get id)) :
  isFunction (d.graph.get id) ∨ id = d.graph.nextId ∧ ∃ r, c.record? = some r
  := by
  cases c with
  | plain r | derived r | array r | aggregate r | enumeration r | subroutine r | subprogram r
  | object r =>
    rw [graph_add_record rfl, Graph.get_push] at function
    split at function
    next new => exact .inr ⟨new, r, rfl⟩
    next => exact .inl function
  | nothing | synonym => exact .inl function
  | dimension count =>
    simp only [add, addDimension] at function
    split at function <;> exact .inl function
  | member owner name offset =>
    have same := d.graph.field_get_update isFunction owner (·.addMember ⟨name, d.void, offset⟩)
      (fun _ => rfl) id
    exact .inl (same.symm.trans function)
  | enumerator owner e =>
    have same := d.graph.field_get_update isFunction owner (·.addEnumerator e) (fun _ => rfl) id
    exact .inl (same.symm.trans function)

/-- Throughout a walk, every record of a function stems from a visit. -/
theorem followed_functions (s : Sections) :
  Followed s fun visits d =>
    ∀ id, isFunction (d.graph.get id) → ∃ v ∈ visits, v.made? = some id
  := by
  constructor
  · intro visits d u depth e v made hv _ id function
    obtain ⟨-, rfl, -, -, -, id_eq, notices, result⟩ := visit_of_ok hv
    rw [result, after, steady_isFunction.enter] at function
    rcases isFunction_add function with old | ⟨rfl, r, record⟩
    · have before : isFunction ((d.arrive v.depth).graph.get id) := old
      rw [arrive, steady_isFunction.closeFrom] at before
      obtain ⟨w, mem, same⟩ := made id before
      exact ⟨w, List.mem_append_left _ mem, same⟩
    · refine ⟨v, List.mem_append_right _ List.mem_cons_self, ?_⟩
      rw [Visit.made?, record, id_eq]
      rfl
  · intro visits d made id function
    rw [steady_isFunction.closeAll] at function
    exact made id function

theorem functions_walk {size : Nat} (walked : s.walk s.units .empty size = (d, none)) {id : TypeId}
    (function : isFunction (d.graph.get id)) :
  ∃ v ∈ s.visits s.units.items .empty size, v.made? = some id
  := by
  have start (id : TypeId) (function : isFunction ((start .empty size).graph.get id)) :
      ∃ v ∈ ([] : List Visit), v.made? = some id := by
    rw [get_start] at function
    split at function
    · cases function
    · split at function <;> cases function
  exact (Sections.followed_walk (followed_functions s) start walked).1 id function

end Decoding

namespace Sections

/-- In a graph that has been decoded without an error, the members of a struct or union are sorted
by their offsets, and those with one offset are in the order in which the children of its entry
define them.  The arguments of a function are in the order in which the children of its entry list
them, and there are no other functions.  Each member has the name and the offset that its own entry
has, and the type to which its own entry refers. -/
theorem members_decode {s : Sections} {size : Nat} (width : s.addressSize = .ok size)
    (decoded : (s.decode .empty).error = none) :
  let visits := s.visits s.units.items .empty size
  let void := (Decoding.start .empty size).void
  let g := (s.decode .empty).graph
  visits.map Visit.place = s.entries
  ∧ (∀ target id id', Leads visits void target id → Leads visits void target id' → id = id')
  ∧ (∀ id, (g.get id).kind = .function → ∃ v ∈ visits, v.made? = some id)
  ∧ ∀ u ∈ s.units.items, ∀ (front back : List (Int × Entry)) (depth : Int) (e : Entry),
    u.contents.items = front ++ (depth, e) :: back →
    ∃ p ∈ visits, p.place = (u, depth, e)
      ∧ (e.tag = .structureType ∨ e.tag = .classType ∨ e.tag = .unionType →
        p.meaning? = some (.record p.id)
        ∧ ((g.get p.id).kind = .struct ∨ (g.get p.id).kind = .union)
        ∧ ∃ declared, List.Forall₂
            (fun child m => Described visits void u (s.ownName? u child) (u.PlacedAt child)
              (child.attributes.lookup .type) m)
            ((directChildren depth back).filter Entry.definesMember) declared
          ∧ StablySorted declared (g.get p.id).members.toList)
      ∧ ∀ id, p.made? = some id → (g.get id).kind = .function →
        List.Forall₂
          (fun child m => Described visits void u (s.nearestName? u 4 child) (· = 0)
            (u.nearest? .type 4 child) m)
          ((directChildren depth back).filter Entry.isArgument) (g.get id).members.toList
  := by
  intro visits void g
  obtain ⟨d, walked, graph_eq, success, tracked⟩ := tracked_of_decode width decoded
  have linked : Linked visits void g := linked_of_decode width decoded
  obtain ⟨places, faithful⟩ := s.visits_of_walk walked
  refine ⟨places, fun _ _ _ => leads_unique_of_decode width decoded, ?_, ?_⟩
  · intro id function
    rw [show g = d.finish.1 from graph_eq,
      tracked.field_finish success TypeRecord.kind (fun _ _ => rfl) fun _ _ => rfl] at function
    exact Decoding.functions_walk walked (decide_eq_true function)
  · intro u mem front back depth e contents
    obtain ⟨p, mem, place, read, children⟩ := children_walk walked mem contents
    have kind (r : TypeRecord) (record : p.contribution.record? = some r) :
        (g.get p.id).kind = r.kind := by
      rw [show g = d.finish.1 from graph_eq, tracked.kind_finish success mem record]
    refine ⟨p, mem, place, ?_, ?_⟩
    · intro tag
      rw [Visit.Faithful, show p.entry = e from congrArg (fun place => place.2.2) place] at read
      obtain ⟨r, contribution, aggregate⟩ := (Contribution.stems_read read).of_aggregateType tag
      have same := kind r (by rw [contribution]; rfl)
      obtain ⟨listed, parents⟩ := children (.aggregate p.id) (by rw [contribution]; rfl)
      obtain ⟨declared, described, sorted⟩ := exists_declared linked faithful listed
        (fun v mem => (parents v mem).elim fun _ parent => parent)
        (fun _ _ _ => Contribution.isMemberOf_aggregate_iff)
        fun _ _ _ _ _ => Contribution.read_aggregate
      refine ⟨by rw [Visit.meaning?, contribution]; rfl, same ▸ aggregate, declared, described, ?_⟩
      rw [sorted, same]
      exact stablySorted_inOrder aggregate declared
    · intro id made function
      obtain ⟨r, record, rfl⟩ := Option.map_eq_some_iff.mp made
      have opened : Decoding.opened p.id p.offset p.contribution = some (.function p.id) :=
        opened_of_isFunction record (Contribution.fits_read read)
          (decide_eq_true ((kind r record).symm.trans function))
      obtain ⟨listed, parents⟩ := children (.function p.id) opened
      obtain ⟨declared, described, sorted⟩ := exists_declared linked faithful listed
        (fun v mem => (parents v mem).elim fun _ parent => parent)
        (fun _ _ _ => Contribution.isMemberOf_function_iff)
        fun _ _ _ _ _ => Contribution.read_function
      rw [sorted, function]
      exact described

/-- An empty unit, and after it a unit with two numbers and a structure whose members are not in the
order of their offsets. -/
def unsortedStruct : Sections where
  order := .little
  abbreviations := ⟨#[
    1, 0x11, 1, 0, 0,
    2, 0x24, 0, 3, 8, 0x0b, 0x0b, 0x3e, 0x0b, 0, 0,
    3, 0x13, 1, 3, 8, 0x0b, 0x0b, 0, 0,
    4, 0x0d, 0, 3, 8, 0x49, 0x13, 0x38, 0x0b, 0, 0,
    0]⟩
  info := ⟨#[
    9, 0, 0, 0, 4, 0, 0, 0, 0, 0, 8,
    1,
    0,
    48, 0, 0, 0, 4, 0, 0, 0, 0, 0, 8,
    1,
    2, 105, 0, 4, 5,
    2, 99, 0, 1, 6,
    3, 115, 0, 8,
    4, 98, 0, 12, 0, 0, 0, 4,
    4, 97, 0, 17, 0, 0, 0, 0,
    4, 100, 0, 17, 0, 0, 0, 4,
    0,
    0]⟩
  strings := .empty
  stringOffsets := .empty
  lineStrings := .empty

/-- Its members are declared at the offsets 4, 0 and 4.  The types of the first and the second one
are different. -/
theorem members_decode_unsortedStruct :
  let g := (unsortedStruct.decode .empty).graph
  unsortedStruct.addressSize = .ok 8 ∧ (unsortedStruct.decode .empty).error = none
  ∧ (g.get 2).name = some "i" ∧ (g.get 3).name = some "c"
  ∧ ∃ id, ((g.get id).kind = .struct ∨ (g.get id).kind = .union)
    ∧ StablySorted [⟨some "b", 2, 4⟩, ⟨some "a", 3, 0⟩, ⟨some "d", 3, 4⟩]
      (g.get id).members.toList
  := by
  intro g
  have width : unsortedStruct.addressSize = .ok 8 := by decide +kernel
  have decoded : (unsortedStruct.decode .empty).error = none := by decide +kernel
  obtain ⟨-, unique, -, inside⟩ := members_decode width decoded
  let visits := unsortedStruct.visits unsortedStruct.units.items .empty 8
  let void := (Decoding.start .empty 8).void
  let u := unsortedStruct.units.items.get ⟨1, by decide +kernel⟩
  let items := u.contents.items
  let parent := (items[3]?.getD default).2
  let b := (items[4]?.getD default).2
  let a := (items[5]?.getD default).2
  let d := (items[6]?.getD default).2
  have contents : u.contents.items = items.take 3 ++ (1, parent) :: items.drop 4 := by
    decide +kernel
  obtain ⟨p, -, -, members, -⟩ :=
    inside u (List.get_mem _ _) (items.take 3) (items.drop 4) 1 parent contents
  obtain ⟨-, kind, declared, described, sorted⟩ := members (by decide +kernel)
  have children : (directChildren 1 (items.drop 4)).filter Entry.definesMember = [b, a, d] := by
    decide +kernel
  rw [children] at described
  obtain ⟨mb, _, first, described', rfl⟩ := List.forall₂_cons_left_iff.mp described
  obtain ⟨ma, _, second, described'', rfl⟩ := List.forall₂_cons_left_iff.mp described'
  obtain ⟨md, _, third, none, rfl⟩ := List.forall₂_cons_left_iff.mp described''
  obtain rfl := List.forall₂_nil_left_iff.mp none
  -- The offsets 12 and 17 are counted from the start of the unit, which is at 13.
  have number : Leads visits void (some 25) 2 :=
    leads_record (List.get_mem visits ⟨2, by decide +kernel⟩) (by decide +kernel)
      (by decide +kernel)
  have character : Leads visits void (some 30) 3 :=
    leads_record (List.get_mem visits ⟨3, by decide +kernel⟩) (by decide +kernel)
      (by decide +kernel)
  have described_eq (e : Entry) (m : Member) (name : Option String) (target : Option Nat)
      (id : TypeId) (n : Nat)
      (h : Described visits void u (unsortedStruct.ownName? u e) (u.PlacedAt e)
        (e.attributes.lookup .type) m)
      (named : unsortedStruct.ownName? u e = name)
      (points : target = u.target? (e.attributes.lookup .type))
      (leads : Leads visits void target id)
      (location : e.attributes.lookup .memberLocation = some (.data 1 n)) :
      m = ⟨name, id, UInt64.ofNat n⟩ := by
    rw [← named]
    exact h.eq unique (CompilationUnit.pointsTo_iff.mpr points) leads
      fun _ h => h.unique (.number location rfl)
  have eqB : mb = ⟨some "b", 2, 4⟩ := described_eq b mb _ (some 25) 2 4 first (by decide +kernel)
    (by decide +kernel) number (by decide +kernel)
  have eqA : ma = ⟨some "a", 3, 0⟩ := described_eq a ma _ (some 30) 3 0 second (by decide +kernel)
    (by decide +kernel) character (by decide +kernel)
  have eqD : md = ⟨some "d", 3, 4⟩ := described_eq d md _ (some 30) 3 4 third (by decide +kernel)
    (by decide +kernel) character (by decide +kernel)
  rw [eqB, eqA, eqD] at sorted
  exact ⟨width, decoded, by decide +kernel, by decide +kernel, p.id, kind, sorted⟩

end Sections

end CompactTypes.Dwarf

import CompactTypes.Proofs.Dwarf.Forest

/-!
# What a subtree leaves alone

A walk over the children of an entry changes no record that was there before, except the one
that the entry has made, `spares_walk`.  That record takes what its direct children contribute,
in order, and nothing from deeper entries, `attached_walk`.  A member, enumerator, argument or
dimension whose parent does not take it contributes nothing, `read_of_not_takes`.
-/

namespace CompactTypes.Dwarf

/-- The position of the record that an entry with a scope has made. -/
def Scope.owner? : Scope → Option TypeId
  | aggregate id | enumeration id | function id | array id _ _ _ => some id
  | other => none

/-- The record with the member or enumerator that a contribution is. -/
def Contribution.attach (void : TypeId) (r : TypeRecord) : Contribution → TypeRecord
  | member _ name offset _ => r.addMember ⟨name, void, offset⟩
  | enumerator _ e => r.addEnumerator e
  | _ => r

/-- What the first entries of a forest contribute, up to the first that cannot be read. -/
def Forest.contributions (s : Sections) (u : CompilationUnit) (depth : Int) (parent : Scope) :
    Forest → List Contribution
  | nil => []
  | node e _ siblings =>
    match (Contribution.read s u (some parent) depth e).value with
    | .error _ => []
    | .ok c => c :: siblings.contributions s u depth parent

/-! ### Scopes -/

theorem Scope.owner?_receive (scope : Scope) (c : Contribution) :
  (scope.receive c).owner? = scope.owner?
  := by
  cases scope with
  | array => cases c <;> rfl
  | _ => rfl

/-- What a child contributes does not depend on the dimensions before it. -/
theorem Contribution.read_receive (s : Sections) (u : CompilationUnit) (scope : Scope)
    (c : Contribution) (depth : Int) (e : Entry) :
  read s u (some (scope.receive c)) depth e = read s u (some scope) depth e
  := by
  cases scope with
  | array =>
    cases c with
    | dimension count =>
      unfold read
      cases e.tag <;> rfl
    | _ => rfl
  | _ => rfl

theorem Forest.contributions_receive (f : Forest) (s : Sections) (u : CompilationUnit)
    (depth : Int) (scope : Scope) (c : Contribution) :
  f.contributions s u depth (scope.receive c) = f.contributions s u depth scope
  := by
  induction f with
  | nil => rfl
  | node e children siblings _ ih =>
    rw [contributions, contributions, Contribution.read_receive, ih]

namespace Decoding

variable {d d' d'' : Decoding}

/-! ### Records that stay -/

/-- Every record stays as it is except possibly that of an owner. -/
structure Spares (owner? : Option TypeId) (d d' : Decoding) : Prop where
  nextId_le : d.graph.nextId ≤ d'.graph.nextId
  void_eq : d'.void = d.void
  get_eq : ∀ id < d.graph.nextId, owner? ≠ some id → d'.graph.get id = d.graph.get id

theorem Spares.refl (owner? : Option TypeId) (d : Decoding) :
  Spares owner? d d
  := ⟨Nat.le_refl _, rfl, fun _ _ _ => rfl⟩

/-- A second owner does not matter if its record is new. -/
theorem Spares.trans {owner? owner?' : Option TypeId} (h : Spares owner? d d')
    (h' : Spares owner?' d' d'')
    (new : ∀ id, owner?' = some id → owner? = some id ∨ d.graph.nextId ≤ id) :
  Spares owner? d d''
  := by
  refine ⟨Nat.le_trans h.nextId_le h'.nextId_le, h'.void_eq.trans h.void_eq, ?_⟩
  intro id inside other
  have other' : owner?' ≠ some id := by
    intro same
    rcases new id same with same | outside
    · exact other same
    · exact Nat.not_le_of_lt inside outside
  rw [h'.get_eq id (Nat.lt_of_lt_of_le inside h.nextId_le) other', h.get_eq id inside other]

theorem spares_update (d : Decoding) (owner : TypeId) (f : TypeRecord → TypeRecord) :
  Spares (some owner) d (d.update owner f)
  := by
  refine ⟨Nat.le_of_eq (d.graph.nextId_update owner f).symm, rfl, fun id _ other => ?_⟩
  exact d.graph.get_update_of_ne f fun same => other (congrArg some same.symm)

theorem spares_push (owner? : Option TypeId) (d : Decoding) (r : TypeRecord) :
  Spares owner? d (d.push r)
  := by
  constructor
  · exact Nat.le_trans (Nat.le_succ _) (Nat.le_of_eq (d.graph.nextId_push r).symm)
  · rfl
  · intro id inside _
    exact (d.graph.get_push r id).trans (if_neg (Nat.ne_of_lt inside))

/-- The same graph is one in which every record stays. -/
theorem spares_of_graph_eq (owner? : Option TypeId) (graph : d'.graph = d.graph)
    (void : d'.void = d.void) :
  Spares owner? d d'
  := ⟨Nat.le_of_eq (by rw [graph]), void, fun _ _ _ => by rw [graph]⟩

theorem spares_note (owner? : Option TypeId) (d : Decoding) (notices : List Fault) :
  Spares owner? d (d.note notices)
  := spares_of_graph_eq owner? rfl rfl

/-- An entry that cannot be read to its end changes no record. -/
theorem spares_abandon (owner? : Option TypeId) (d : Decoding) (record : Option TypeRecord) :
  Spares owner? d (d.abandon record)
  := by
  cases record with
  | none => exact .refl owner? d
  | some r => exact spares_push owner? d r

theorem spares_nestArrays (entry : Nat) (target : Option Nat) (counts : List UInt32)
    (outer : TypeId) (d : Decoding) :
  Spares (some outer) d (nestArrays entry target outer counts d)
  := by
  induction counts generalizing outer d with
  | nil => exact spares_of_graph_eq _ rfl rfl
  | cons count counts ih =>
    rw [nestArrays]
    have pushed := spares_push (some outer) d
      { TypeRecord.ofKind .array none with elementCount := count }
    have nested := pushed.trans (spares_update _ outer (·.withReference d.graph.nextId))
      fun id same => .inl same
    refine nested.trans (ih d.graph.nextId _) fun id same => .inr ?_
    cases same
    apply Nat.le_refl

theorem spares_close (scope : Scope) (d : Decoding) :
  Spares scope.owner? d (d.close scope)
  := by
  cases scope with
  | other | aggregate | enumeration => exact .refl _ d
  | function id => exact spares_update d id _
  | array id entry target counts =>
    have counted := spares_update d id fun r => { r with elementCount := counts.reverse.headD 0 }
    exact counted.trans (spares_nestArrays entry target _ id _) fun _ same => .inl same

theorem spares_contribute {c : Contribution} {parent : Scope} (fits : c.Fits (some parent))
    (offset : Nat) (d : Decoding) :
  Spares parent.owner? d (d.contribute offset c)
  := by
  cases c with
  | nothing | dimension | synonym => exact spares_of_graph_eq _ rfl rfl
  | plain r | array r | aggregate r | enumeration r | derived r | subroutine r | subprogram r
  | object r =>
    have pushed := spares_push parent.owner? d r
    exact pushed.trans (spares_of_graph_eq none rfl rfl) nofun
  | member owner name place target =>
    have parent_owner : parent.owner? = some owner := by
      rcases fits with same | same <;> cases same <;> rfl
    rw [parent_owner]
    have updated := spares_update d owner (·.addMember ⟨name, d.void, place⟩)
    exact updated.trans (spares_of_graph_eq none rfl rfl) nofun
  | enumerator owner e =>
    have parent_owner : parent.owner? = some owner := by
      cases fits
      rfl
    rw [parent_owner]
    exact spares_update d owner _

variable {s : Sections} {u : CompilationUnit}

/-- The record of the scope that an entry opens is a new one. -/
theorem owner?_opened {id : TypeId} {offset : Nat} {c : Contribution} {owner : TypeId}
    (h : ((opened id offset c).getD .other).owner? = some owner) :
  owner = id
  := by
  cases c <;> cases h <;> rfl

/-- An entry changes no record except that of its parent. -/
theorem spares_start {e : Entry} {depth : Int} {parent : Scope} {c : Contribution}
    {start : Decoding} (value : (Contribution.read s u (some parent) depth e).value = .ok c)
    (hstart : start = (d.note (Contribution.read s u (some parent) depth e).notices).contribute
      (u.globalOffset e.offset) c) :
  Spares parent.owner? d start
  := by
  have added := spares_contribute (Contribution.fits_read value) (u.globalOffset e.offset)
    (d.note (Contribution.read s u (some parent) depth e).notices)
  rw [hstart]
  exact (spares_note parent.owner? d _).trans added fun _ => .inl

theorem owner?_walk (f : Forest) (depth : Int) (parent : Scope) (d : Decoding) :
  (f.walk s u depth parent d).2.1.owner? = parent.owner?
  := by
  induction f generalizing depth parent d with
  | nil => rfl
  | node e children siblings ihc ihs =>
    rcases Forest.walk_node s u e children siblings depth parent d with
      ⟨f, -, walked⟩ | ⟨c, own, own', start, inner, -, -, -, ⟨f, -, walked⟩ | ⟨-, walked⟩⟩
    · rw [walked]
    · rw [walked]
    · rw [walked, ihs, Scope.owner?_receive]

/-- Completing the scope that a walk yields changes no other record either. -/
theorem Spares.close_walk {children : Forest} {depth : Int} {own own' : Scope}
    {start inner : Decoding} {fault : Option Fault} (below : Spares own.owner? start inner)
    (inside : children.walk s u depth own start = (inner, own', fault)) :
  Spares own.owner? start (inner.close own')
  := by
  have owner_eq := owner?_walk (s := s) (u := u) children depth own start
  rw [inside] at owner_eq
  exact below.trans (spares_close own' inner) fun owner h => .inl (owner_eq ▸ h)

/-- A walk over the children of an entry changes no record that was there before, except that of
the entry. -/
theorem spares_walk (f : Forest) (depth : Int) (parent : Scope) (d : Decoding) :
  Spares parent.owner? d (f.walk s u depth parent d).1
  := by
  induction f generalizing depth parent d with
  | nil => exact .refl _ d
  | node e children siblings ihc ihs =>
    rcases Forest.walk_node s u e children siblings depth parent d with
      ⟨f, -, walked⟩ | ⟨c, own, own', start, inner, value, hstart, hown, step⟩
    · rw [walked]
      exact (spares_note parent.owner? d _).trans (spares_abandon parent.owner? _ _) fun _ => .inl
    · have started := spares_start value hstart
      -- The record of the entry, if it has made one, is new.
      have new (owner : TypeId) (h : own.owner? = some owner) : d.graph.nextId ≤ owner := by
        rw [hown] at h
        exact Nat.le_of_eq (owner?_opened h).symm
      have below := ihc (depth + 1) own start
      rcases step with ⟨f, inside, walked⟩ | ⟨inside, walked⟩
      · rw [inside] at below
        rw [walked]
        exact started.trans below fun owner h => .inr (new owner h)
      · rw [inside] at below
        have closed := started.trans (below.close_walk inside) fun owner h => .inr (new owner h)
        have rest := ihs depth (parent.receive c) (inner.close own')
        rw [Scope.owner?_receive] at rest
        rw [walked]
        exact closed.trans rest fun _ => .inl

/-! ### The record that takes -/

/-- A contribution is attached to the record of the parent. -/
theorem get_contribute {c : Contribution} {parent : Scope} (fits : c.Fits (some parent))
    (offset : Nat) (d : Decoding) {owner : TypeId} (inside : owner < d.graph.nextId)
    (parent_owner : parent.owner? = some owner) :
  (d.contribute offset c).graph.get owner = c.attach d.void (d.graph.get owner)
  := by
  cases c with
  | nothing | dimension | synonym => rfl
  | plain r | array r | aggregate r | enumeration r | derived r | subroutine r | subprogram r
  | object r => exact (d.graph.get_push r owner).trans (if_neg (Nat.ne_of_lt inside))
  | member owner' name place target =>
    have same : owner' = owner := by
      rcases fits with h | h <;> cases h <;> exact Option.some.inj parent_owner
    rw [same]
    exact d.graph.get_update_self (·.addMember ⟨name, d.void, place⟩) inside
  | enumerator owner' e =>
    have same : owner' = owner := by
      cases fits
      exact Option.some.inj parent_owner
    rw [same]
    exact d.graph.get_update_self (·.addEnumerator e) inside

/-- The record of an entry takes what the children of the entry contribute, and so does its scope.
Deeper entries do not matter. -/
theorem attached_walk (f : Forest) (depth : Int) (parent : Scope) (d : Decoding)
    (success : (f.walk s u depth parent d).2.2 = none) :
  (f.walk s u depth parent d).2.1
      = (f.contributions s u depth parent).foldl (fun scope c => scope.receive c) parent
    ∧ ∀ owner < d.graph.nextId, parent.owner? = some owner →
      (f.walk s u depth parent d).1.graph.get owner
        = (f.contributions s u depth parent).foldl (Contribution.attach d.void)
          (d.graph.get owner)
  := by
  induction f generalizing depth parent d with
  | nil => exact ⟨rfl, fun _ _ _ => rfl⟩
  | node e children siblings ihc ihs =>
    rcases Forest.walk_node s u e children siblings depth parent d with
      ⟨f, -, walked⟩ | ⟨c, own, own', start, inner, value, hstart, hown, step⟩
    · rw [walked] at success
      cases success
    · rcases step with ⟨f, inside, walked⟩ | ⟨inside, walked⟩
      · rw [walked] at success
        cases success
      · have contributions_eq : (Forest.node e children siblings).contributions s u depth parent
            = c :: siblings.contributions s u depth parent := by
          rw [Forest.contributions, value]
        rw [walked] at success ⊢
        obtain ⟨scope_eq, get_eq⟩ := ihs depth (parent.receive c) (inner.close own') success
        rw [Forest.contributions_receive] at scope_eq get_eq
        rw [contributions_eq]
        refine ⟨scope_eq, fun owner old parent_owner => ?_⟩
        have started := spares_start value hstart
        have below := spares_walk (s := s) (u := u) children (depth + 1) own start
        rw [inside] at below
        have closed := below.close_walk inside
        have old_start : owner < start.graph.nextId := Nat.lt_of_lt_of_le old started.nextId_le
        have other : own.owner? ≠ some owner := by
          intro same
          rw [hown] at same
          exact Nat.ne_of_lt old (owner?_opened same)
        have taken : start.graph.get owner = c.attach d.void (d.graph.get owner) := by
          rw [hstart]
          exact get_contribute (Contribution.fits_read value) _ (d.note _) old parent_owner
        rw [get_eq owner (Nat.lt_of_lt_of_le old_start closed.nextId_le)
          ((parent.owner?_receive c).trans parent_owner), closed.void_eq, started.void_eq,
          closed.get_eq owner old_start other, taken]
        rfl

end Decoding

/-! ### Which parents take what -/

/-- Whether entries with a tag open a scope of this kind. -/
def Scope.IsOf (tag : Tag) : Scope → Prop
  | other => True
  | aggregate _ => tag = .structureType ∨ tag = .classType ∨ tag = .unionType
  | enumeration _ => tag = .enumerationType
  | function _ => tag = .subroutineType ∨ tag = .subprogram
  | array .. => tag = .arrayType

namespace Contribution

variable {s : Sections} {u : CompilationUnit} {e : Entry} {depth : Int}

/-- An entry whose parent does not take it contributes nothing, and is not even read. -/
theorem read_of_not_takes {scope : Scope} (h : scope.takes e.tag = false) :
  read s u (some scope) depth e = ⟨[], .ok nothing⟩
  := by
  unfold read
  cases htag : e.tag with
  | member | enumerator | subrangeType | formalParameter =>
    rw [htag] at h
    cases scope <;> first | rfl | cases h
  | _ =>
    rw [htag] at h
    cases scope <;> cases h

/-- The scope that an entry opens is that of its own record. -/
theorem opened_read {parent : Option Scope} {c : Contribution} {id : TypeId} {offset : Nat}
    {scope : Scope} (h : (read s u parent depth e).value = .ok c)
    (hopened : Decoding.opened id offset c = some scope) :
  scope.owner? = some id ∧ scope.IsOf e.tag
  := by
  cases stems_read h with
  | array tag | enumeration tag =>
    cases hopened
    exact ⟨rfl, tag⟩
  | aggregate tag =>
    cases hopened
    exact ⟨rfl, (of_aggregateKind? tag).1⟩
  | subroutine tag =>
    cases hopened
    exact ⟨rfl, .inl tag⟩
  | subprogram tag =>
    cases hopened
    exact ⟨rfl, .inr tag⟩
  | _ => cases hopened

end Contribution

namespace Decoding

/-- The walk over the entries of a unit is the walk by recursion over their forest.  In this walk
the records that were there before the children of an entry stay as they are, except that of the
entry, which takes what its children contribute, and nothing of entries that it does not take;
the scope that an entry opens for its children is that of its own record. -/
theorem walkUnit_forest {s : Sections} {u : CompilationUnit} {f : Forest} {d : Decoding}
    (contents : u.contents = ⟨f.entries 0, none⟩) (fresh : d.scopes = []) :
  (let flat := walkUnit s u d
    let tree := f.walk s u 0 .other d
    flat.2 = tree.2.2 ∧ flat.1.inside [] = tree.1 ∧ (flat.2 = none → flat.1.scopes = []))
  ∧ (∀ (children : Forest) (depth : Int) (own : Scope) (d : Decoding),
    let walked := children.walk s u depth own d
    let contributions := children.contributions s u depth own
    (∀ id < d.graph.nextId, own.owner? ≠ some id → walked.1.graph.get id = d.graph.get id)
    ∧ (walked.2.2 = none →
      walked.2.1 = contributions.foldl (fun scope c => scope.receive c) own
      ∧ ∀ owner < d.graph.nextId, own.owner? = some owner →
        walked.1.graph.get owner
          = contributions.foldl (Contribution.attach d.void) (d.graph.get owner)))
  ∧ (∀ (own : Scope) (depth : Int) (e : Entry), own.takes e.tag = false →
    Contribution.read s u (some own) depth e = ⟨[], .ok .nothing⟩)
  ∧ (∀ (parent : Option Scope) (depth : Int) (e : Entry) (c : Contribution) (id : TypeId)
      (own : Scope), (Contribution.read s u parent depth e).value = .ok c →
    opened id (u.globalOffset e.offset) c = some own → own.owner? = some id ∧ own.IsOf e.tag)
  := by
  refine ⟨walkUnit_entries contents fresh, fun children depth own d => ?_,
    fun own depth e h => Contribution.read_of_not_takes h,
    fun parent depth e c id own h hopened => Contribution.opened_read h hopened⟩
  exact ⟨(spares_walk children depth own d).get_eq, attached_walk children depth own d⟩

/-- A unit with a struct, in which an array with two dimensions stands between two members. -/
def arrayInStruct : Sections where
  order := .little
  abbreviations := ⟨#[1, 0x11, 1, 0, 0, 2, 0x13, 1, 0, 0, 3, 0x0d, 0, 0, 0, 4, 0x01, 1, 0, 0,
    5, 0x21, 0, 0x37, 0x0b, 0, 0, 0]⟩
  info := ⟨#[19, 0, 0, 0, 4, 0, 0, 0, 0, 0, 8, 1, 2, 3, 4, 5, 2, 5, 3, 0, 3, 0, 0]⟩
  strings := .empty
  stringOffsets := .empty
  lineStrings := .empty

/-- The entries of that unit as a forest. -/
def arrayInStructForest (u : CompilationUnit) : Forest :=
  match u.contents.items.map Prod.snd with
  | [root, struct, member, array, rows, columns, member'] =>
    let dimensions := .node rows .nil (.node columns .nil .nil)
    let fields := .node member .nil (.node array dimensions (.node member' .nil .nil))
    .node root (.node struct fields .nil) .nil
  | _ => .nil

/-- The struct takes the two members, and the array both dimensions. -/
theorem walkUnit_forest_arrayInStruct :
  let u := arrayInStruct.units.items.head?.getD default
  let f := arrayInStructForest u
  let d := start .empty 8
  let tree := f.walk arrayInStruct u 0 .other d
  u.contents = ⟨f.entries 0, none⟩ ∧ d.scopes = []
  ∧ (walkUnit arrayInStruct u d).2 = tree.2.2
  ∧ (walkUnit arrayInStruct u d).1.inside [] = tree.1
  ∧ tree.2.2 = none
  ∧ (tree.1.graph.get 2).members.size = 2
  ∧ (tree.1.graph.get 3).elementCount = 2 ∧ (tree.1.graph.get 3).reference = some 4
  ∧ (tree.1.graph.get 4).elementCount = 3
  := by
  intro u f d tree
  have items : u.contents.items = f.entries 0 := by decide +kernel
  have fault : u.contents.fault = none := by decide +kernel
  have contents : u.contents = ⟨f.entries 0, none⟩ := by rw [← items, ← fault]
  have fresh : d.scopes = [] := rfl
  obtain ⟨⟨fault_eq, inside_eq, -⟩, -⟩ := walkUnit_forest (s := arrayInStruct) contents fresh
  refine ⟨contents, fresh, fault_eq, inside_eq, ?_, ?_, ?_, ?_, ?_⟩ <;> decide +kernel

end Decoding

end CompactTypes.Dwarf

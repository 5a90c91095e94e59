import CompactTypes.Proofs.Dwarf.Tracking
import Mathlib.Data.List.Chain

/-!
# Forests of entries

The entries of a unit are the entries of a `Forest`, each before its children.
`Forest.walk` walks over a forest by recursion: it handles an entry, then the children of the
entry, and then completes the scope of the entry, so that each scope is at hand where it is
needed.  The walk over the flat entries of a unit does the same, `walkUnit_entries`: whenever it
comes to an entry, the scopes that it ends and those that it leaves open are the ones that the
recursion has completed and those that it is in.
-/

namespace CompactTypes.Dwarf

/-- A first entry with its children, and the entries after it with theirs. -/
inductive Forest where
  | nil
  | node (entry : Entry) (children siblings : Forest)

/-- The scope of an entry after one of its children has contributed. -/
def Scope.receive (c : Contribution) : Scope → Scope
  | array id entry target counts =>
    match c with
    | .dimension count => array id entry target (count :: counts)
    | _ => array id entry target counts
  | scope => scope

/-- Adds what an entry contributes to the graph; a dimension is for the scope of its parent. -/
def Decoding.contribute (d : Decoding) (entry : Nat) : Contribution → Decoding
  | .dimension _ => d
  | c => d.add entry c

namespace Forest

/-- The entries of a forest with their depths, each before its children. -/
def entries (depth : Int) : Forest → List (Int × Entry)
  | nil => []
  | node e children siblings =>
    (depth, e) :: (children.entries (depth + 1) ++ siblings.entries depth)

/-- An entry has children only if it says so. -/
def Proper : Forest → Prop
  | nil => True
  | node e children siblings =>
    (e.hasChildren ∨ children = nil) ∧ children.Proper ∧ siblings.Proper

/-- Walks over the forest of the children of an entry with a scope.  The walk yields that scope
as well, and the fault that has stopped it. -/
def walk (s : Sections) (u : CompilationUnit) :
    Forest → Int → Scope → Decoding → Decoding × Scope × Option Fault
  | nil, _, parent, d => (d, parent, none)
  | node e children siblings, depth, parent, d =>
    let reading := Contribution.read s u (some parent) depth e
    let d := d.note reading.notices
    match reading.value with
    | .error f => (d.abandon (Contribution.unfinished? s u depth e), parent, some f)
    | .ok c =>
      let offset := u.globalOffset e.offset
      let own := (Decoding.opened d.graph.nextId offset c).getD .other
      match children.walk s u (depth + 1) own (d.contribute offset c) with
      | (d, _, some f) => (d, parent, some f)
      | (d, own, none) => siblings.walk s u depth (parent.receive c) (d.close own)

/-- A walk stops at an entry that cannot be read or among its children, or else goes on after
it. -/
theorem walk_node (s : Sections) (u : CompilationUnit) (e : Entry) (children siblings : Forest)
    (depth : Int) (parent : Scope) (d : Decoding) :
  let reading := Contribution.read s u (some parent) depth e
  let noted := d.note reading.notices
  let offset := u.globalOffset e.offset
  let walked := (node e children siblings).walk s u depth parent d
  (∃ f, reading.value = .error f
    ∧ walked = (noted.abandon (Contribution.unfinished? s u depth e), parent, some f))
  ∨ ∃ c own own' start inner, reading.value = .ok c ∧ start = noted.contribute offset c
    ∧ own = (Decoding.opened noted.graph.nextId offset c).getD .other
    ∧ ((∃ f, children.walk s u (depth + 1) own start = (inner, own', some f)
          ∧ walked = (inner, parent, some f))
      ∨ (children.walk s u (depth + 1) own start = (inner, own', none)
          ∧ walked = siblings.walk s u depth (parent.receive c) (inner.close own')))
  := by
  intro reading noted offset walked
  cases value : reading.value with
  | error f =>
    refine .inl ⟨f, rfl, ?_⟩
    change walk s u (node e children siblings) depth parent d = _
    rw [walk]
    simp only [reading] at value
    simp only [value]
    rfl
  | ok c =>
    have step : walked = match children.walk s u (depth + 1)
          ((Decoding.opened noted.graph.nextId offset c).getD .other)
          (noted.contribute offset c) with
        | (d, _, some f) => (d, parent, some f)
        | (d, own, none) => siblings.walk s u depth (parent.receive c) (d.close own) := by
      change walk s u (node e children siblings) depth parent d = _
      rw [walk]
      simp only [reading] at value
      simp only [value]
      rfl
    rcases inner : children.walk s u (depth + 1)
      ((Decoding.opened noted.graph.nextId offset c).getD .other) (noted.contribute offset c)
      with ⟨d', own', _ | f⟩
    · rw [inner] at step
      exact .inr ⟨c, _, own', _, d', rfl, rfl, rfl, .inr ⟨inner, step⟩⟩
    · rw [inner] at step
      exact .inr ⟨c, _, own', _, d', rfl, rfl, rfl, .inl ⟨f, inner, step⟩⟩

end Forest

/-! ### Proper forests -/

/-- The second of two entries is at most one level below the first one, and that only if the
first one has children. -/
def Climbs (first second : Int × Entry) : Prop :=
  second.1 ≤ if first.2.hasChildren then first.1 + 1 else first.1

/-- Where the entries of a unit go down a level, they do so from an entry with children. -/
theorem Node.climbs_entries (encoding : Encoding) (table : AbbreviationTable) (depth : Int)
    (i : Input) :
  (∀ first ∈ (entries encoding table depth i).items.head?, first.1 ≤ depth)
    ∧ (entries encoding table depth i).items.IsChain Climbs
  := by
  induction hsize : i.remaining using Nat.strongRecOn generalizing i depth with
  | ind n ih =>
    rw [entries_eq]
    split
    next => simp [Stream.empty]
    next =>
      cases hread : read encoding table i with
      | error f => simp [Stream.failed]
      | ok found =>
        obtain ⟨node, j⟩ := found
        have shorter := (progress_read encoding table i node j hread).2
        have rest (depth : Int) := ih j.remaining (hsize ▸ shorter) depth j rfl
        cases node with
        | null =>
          obtain ⟨first, climbs⟩ := rest (depth - 1)
          refine ⟨fun item mem => ?_, climbs⟩
          have shallow := first item mem
          omega
        | entry e =>
          dsimp only
          split
          next => simp
          next =>
            obtain ⟨first, climbs⟩ := rest (if e.hasChildren then depth + 1 else depth)
            refine ⟨fun item mem => ?_, List.isChain_cons.mpr ⟨first, climbs⟩⟩
            cases mem
            exact Int.le_refl depth

theorem CompilationUnit.climbs_contents (u : CompilationUnit) :
  u.contents.items.IsChain Climbs
  := (Node.climbs_entries u.encoding u.abbreviations 0 u.entries).2

/-- A forest with such entries is proper. -/
theorem Forest.proper_of_climbs (f : Forest) {depth : Int}
    (climbs : (f.entries depth).IsChain Climbs) :
  f.Proper
  := by
  induction f generalizing depth with
  | nil => exact trivial
  | node e children siblings ihc ihs =>
    obtain ⟨next, climbs⟩ := List.isChain_cons.mp climbs
    refine ⟨?_, ihc climbs.left_of_append, ihs climbs.right_of_append⟩
    cases children with
    | nil => exact .inr rfl
    | node child grandchildren others =>
      have below := next (depth + 1, child) rfl
      apply Or.inl
      by_contra without
      rw [Climbs, if_neg without] at below
      dsimp only at below
      omega

namespace Decoding

variable {s : Sections} {u : CompilationUnit}

/-! ### Scopes aside -/

/-- The state with other open scopes. -/
def inside (scopes : List (Int × Scope)) (d : Decoding) : Decoding :=
  { d with scopes := scopes }

theorem inside_of_scopes {d : Decoding} {scopes : List (Int × Scope)} (h : d.scopes = scopes) :
  d.inside scopes = d
  := by
  subst h
  rfl

theorem nestArrays_inside (entry : Nat) (target : Option Nat) (counts : List UInt32)
    (outer : TypeId) (scopes : List (Int × Scope)) (d : Decoding) :
  nestArrays entry target outer counts (d.inside scopes)
    = (nestArrays entry target outer counts d).inside scopes
  := by
  induction counts generalizing outer d with
  | nil => rfl
  | cons count counts ih =>
    let inner := { TypeRecord.ofKind .array none with elementCount := count }
    exact ih d.graph.nextId ((d.push inner).update outer (·.withReference d.graph.nextId))

/-- Completing a scope does not depend on which scopes are open. -/
theorem close_inside (scope : Scope) (scopes : List (Int × Scope)) (d : Decoding) :
  (d.inside scopes).close scope = (d.close scope).inside scopes
  := by
  cases scope with
  | other | aggregate | enumeration | function => rfl
  | array id entry target counts =>
    exact nestArrays_inside entry target counts.reverse.tail id scopes
      (d.update id fun r => { r with elementCount := counts.reverse.headD 0 })

/-- Nor does leaving a record behind. -/
theorem abandon_inside (record : Option TypeRecord) (scopes : List (Int × Scope)) (d : Decoding) :
  (d.inside scopes).abandon record = (d.abandon record).inside scopes
  := by
  cases record <;> rfl

theorem closeFrom_inside (depth : Int) (ending scopes : List (Int × Scope)) (d : Decoding) :
  closeFrom depth ending (d.inside scopes) = closeFrom depth ending d
  := by
  induction ending generalizing d with
  | nil => rfl
  | cons first ending ih =>
    rw [closeFrom, closeFrom, close_inside, ih]
    rfl

/-- Ending deeper scopes first makes no difference. -/
theorem closeFrom_closeFrom {depth depth' : Int} (h : depth ≤ depth')
    (ending : List (Int × Scope)) (d : Decoding) :
  (closeFrom depth' ending d).arrive depth = closeFrom depth ending d
  := by
  induction ending generalizing d with
  | nil => rfl
  | cons first ending ih =>
    obtain ⟨scopeDepth, scope⟩ := first
    by_cases stays : scopeDepth < depth'
    · have stopped : closeFrom depth' ((scopeDepth, scope) :: ending) d
          = d.inside ((scopeDepth, scope) :: ending) := by
        rw [closeFrom, if_pos stays]
        rfl
      rw [stopped]
      exact closeFrom_inside depth _ _ d
    · have ends : ¬scopeDepth < depth := fun hlt => stays (Int.lt_of_lt_of_le hlt h)
      rw [closeFrom, if_neg stays, closeFrom, if_neg ends, ih]

theorem closeAll_of_closeFrom {depth : Int} {ending : List (Int × Scope)} {d : Decoding}
    (h : (closeFrom depth ending d).scopes = []) :
  closeAll ending d = closeFrom depth ending d
  := by
  induction ending generalizing d with
  | nil => rfl
  | cons first ending ih =>
    obtain ⟨scopeDepth, scope⟩ := first
    rw [closeFrom] at h ⊢
    split at h
    next => cases h
    next ends => rw [if_neg ends, closeAll, ih h]

/-! ### Stacks -/

/-- The open scopes around an entry at a depth whose parent has the scope `parent`; `outer` are
those around the parent.  The first entries of a unit have no parent. -/
def stack (depth : Int) (parent : Scope) : Option (List (Int × Scope)) → List (Int × Scope)
  | none => []
  | some outer => (depth - 1, parent) :: outer

variable {depth : Int} {parent : Scope} {outer : Option (List (Int × Scope))} {d : Decoding}

/-- No scope around an entry ends with it. -/
theorem closeFrom_stack (depth : Int) (parent : Scope) (outer : Option (List (Int × Scope)))
    (d : Decoding) :
  closeFrom depth (stack depth parent outer) d = d.inside (stack depth parent outer)
  := by
  cases outer with
  | none => rfl
  | some outer =>
    have shallower : depth - 1 < depth := by omega
    rw [stack, closeFrom, if_pos shallower]
    rfl

theorem arrive_stack (depth : Int) (parent : Scope) (outer : Option (List (Int × Scope)))
    (d : Decoding) :
  (d.inside (stack depth parent outer)).arrive depth = d.inside (stack depth parent outer)
  := (closeFrom_inside depth _ _ d).trans (closeFrom_stack depth parent outer d)

/-- Having no parent is as good as a parent that takes nothing. -/
theorem read_none (e : Entry) :
  Contribution.read s u none depth e = Contribution.read s u (some .other) depth e
  := by
  unfold Contribution.read
  cases e.tag <;> rfl

theorem read_parentScope (s : Sections) (u : CompilationUnit) (depth : Int) (d : Decoding)
    (root : outer = none → parent = .other) (e : Entry) :
  Contribution.read s u ((d.inside (stack depth parent outer)).parentScope depth) depth e
    = Contribution.read s u (some parent) depth e
  := by
  cases outer with
  | none =>
    rw [root rfl]
    exact read_none e
  | some outer =>
    have found : (d.inside (stack depth parent (some outer))).parentScope depth = some parent :=
      if_pos rfl
    rw [found]

theorem receive_of_record? {c : Contribution} (h : ∀ count, c ≠ .dimension count)
    (scope : Scope) :
  scope.receive c = scope
  := by
  cases scope with
  | array =>
    cases c with
    | dimension count => exact absurd rfl (h count)
    | _ => rfl
  | _ => rfl

/-- A dimension is for the innermost scope, and nothing else is. -/
theorem add_stack {c : Contribution} (depth : Int) (root : outer = none → parent = .other)
    (fits : c.Fits (some parent)) (offset : Nat) (d : Decoding) :
  (d.inside (stack depth parent outer)).add offset c
    = (d.contribute offset c).inside (stack depth (parent.receive c) outer)
  := by
  cases c with
  | dimension count =>
    obtain ⟨id, entry, target, counts, array⟩ := fits
    cases array
    cases outer with
    | none => cases root rfl
    | some outer => rfl
  | _ =>
    rw [receive_of_record? (fun _ => Contribution.noConfusion)]
    rfl

/-- What happens at an entry. -/
theorem visit_stack {D : Decoding} (arrived : D.arrive depth = d.inside (stack depth parent outer))
    (root : outer = none → parent = .other) (e : Entry) :
  D.visit s u depth e =
    let reading := Contribution.read s u (some parent) depth e
    let noted := d.note reading.notices
    let offset := u.globalOffset e.offset
    match reading.value with
    | .error f =>
      ((noted.abandon (Contribution.unfinished? s u depth e)).inside (stack depth parent outer),
        some f)
    | .ok c =>
      (((noted.contribute offset c).inside (stack depth (parent.receive c) outer)).enter depth
        e.hasChildren (opened noted.graph.nextId offset c), none)
  := by
  have read_eq := read_parentScope s u depth d root e
  rw [visit]
  change (let reading := Contribution.read s u ((D.arrive depth).parentScope depth) depth e
    let d := (D.arrive depth).note reading.notices
    match reading.value with
    | .error f => (d.abandon (Contribution.unfinished? s u depth e), some f)
    | .ok c => ((d.add (u.globalOffset e.offset) c).enter depth e.hasChildren
      (opened d.graph.nextId (u.globalOffset e.offset) c), none)) = _
  rw [arrived, read_eq]
  dsimp only
  cases value : (Contribution.read s u (some parent) depth e).value with
  | error f =>
    dsimp only
    rw [← abandon_inside]
    rfl
  | ok c =>
    have added := add_stack depth root (Contribution.fits_read value) (u.globalOffset e.offset)
      (d.note (Contribution.read s u (some parent) depth e).notices)
    dsimp only
    rw [← added]
    rfl

/-! ### The walk over a forest -/

theorem visitAll_append (entries entries' : List (Int × Entry)) (d : Decoding) :
  visitAll s u (entries ++ entries') d =
    match visitAll s u entries d with
    | (d', some f) => (d', some f)
    | (d', none) => visitAll s u entries' d'
  := by
  induction entries generalizing d with
  | nil => rfl
  | cons item entries ih =>
    rw [List.cons_append, visitAll, visitAll]
    rcases d.visit s u item.1 item.2 with ⟨d', _ | f⟩
    · exact ih d'
    · rfl

/-- The flat walk `D` has come to where the walk by recursion is. -/
structure Meets (depth : Int) (outer : Option (List (Int × Scope)))
    (flat : Decoding × Option Fault) (tree : Decoding × Scope × Option Fault) : Prop where
  fault_eq : flat.2 = tree.2.2
  /-- Until the flat walk comes to the next entry, it leaves scopes open that have ended. -/
  arrived : tree.2.2 = none →
    flat.1.arrive depth = tree.1.inside (stack depth tree.2.1 outer)
  stopped : tree.2.2 ≠ none → flat.1.inside [] = tree.1.inside []

/-- The scope of an entry is completed before the next entry at its depth is visited. -/
theorem arrive_of_children {D : Decoding} {own : Scope}
    (arrived : D.arrive (depth + 1)
      = d.inside (stack (depth + 1) own (some (stack depth parent outer)))) :
  D.arrive depth = (d.close own).inside (stack depth parent outer)
  := by
  have ended : ¬depth + 1 - 1 < depth := by omega
  calc D.arrive depth
      = (D.arrive (depth + 1)).arrive depth := by
        exact (closeFrom_closeFrom (by omega) D.scopes D).symm
    _ = closeFrom depth (stack (depth + 1) own (some (stack depth parent outer))) d := by
        rw [arrived]
        exact closeFrom_inside depth _ _ d
    _ = closeFrom depth (stack depth parent outer) (d.close own) := by
        rw [stack, closeFrom, if_neg ended]
    _ = (d.close own).inside (stack depth parent outer) := closeFrom_stack depth parent outer _

/-- Once an entry and its children have been visited, its scope is completed by the time that the
next entry at its depth is visited. -/
theorem meets_children (depth : Int) (parent : Scope) (outer : Option (List (Int × Scope)))
    (d : Decoding) {children : Forest} {hasChildren : Bool} (scope? : Option Scope)
    (honest : hasChildren ∨ children = .nil)
    (ih : ∀ {D : Decoding} {own : Scope}, D.arrive (depth + 1)
        = d.inside (stack (depth + 1) own (some (stack depth parent outer))) →
      Meets (depth + 1) (some (stack depth parent outer))
        (visitAll s u (children.entries (depth + 1)) D) (children.walk s u (depth + 1) own d)) :
  let flat := visitAll s u (children.entries (depth + 1))
    ((d.inside (stack depth parent outer)).enter depth hasChildren scope?)
  let tree := children.walk s u (depth + 1) (scope?.getD .other) d
  flat.2 = tree.2.2
  ∧ (tree.2.2 = none →
    flat.1.arrive depth = (tree.1.close tree.2.1).inside (stack depth parent outer))
  ∧ (tree.2.2 ≠ none → flat.1.inside [] = tree.1.inside [])
  := by
  cases hasChildren with
  | true =>
    have opened : (d.inside (stack depth parent outer)).enter depth true scope?
        = d.inside (stack (depth + 1) (scope?.getD .other) (some (stack depth parent outer))) := by
      rw [stack.eq_def (depth + 1), Int.add_sub_cancel]
      rfl
    rw [opened]
    have met :=
      ih (arrive_stack (depth + 1) (scope?.getD .other) (some (stack depth parent outer)) d)
    exact ⟨met.fault_eq, fun h => arrive_of_children (met.arrived h), met.stopped⟩
  | false =>
    obtain rfl := honest.resolve_left Bool.false_ne_true
    refine ⟨rfl, fun _ => ?_, fun h => absurd rfl h⟩
    cases scope? with
    | none => exact arrive_stack depth parent outer d
    | some scope =>
      have closed := close_inside scope (stack depth parent outer) d
      change ((d.inside (stack depth parent outer)).close scope).arrive depth = _
      rw [closed]
      exact arrive_stack depth parent outer (d.close scope)

/-- The walk over the flat entries of a forest follows the walk by recursion. -/
theorem meets_walk (f : Forest) (proper : f.Proper) {D : Decoding}
    (root : outer = none → parent = .other)
    (arrived : D.arrive depth = d.inside (stack depth parent outer)) :
  Meets depth outer (visitAll s u (f.entries depth) D) (f.walk s u depth parent d)
  := by
  induction f generalizing depth parent outer d D with
  | nil => exact ⟨rfl, fun _ => arrived, fun h => absurd rfl h⟩
  | node e children siblings ihc ihs =>
    obtain ⟨honest, children_proper, siblings_proper⟩ := proper
    have visited := visit_stack (s := s) (u := u) arrived root e
    rw [Forest.entries, visitAll, Forest.walk]
    dsimp only at visited ⊢
    rw [visited]
    cases value : (Contribution.read s u (some parent) depth e).value with
    | error f =>
      refine ⟨rfl, fun h => ?_, fun _ => rfl⟩
      cases h
    | ok c =>
      dsimp only
      generalize (d.note (Contribution.read s u (some parent) depth e).notices) = noted
      generalize opened noted.graph.nextId (u.globalOffset e.offset) c = scope?
      generalize noted.contribute (u.globalOffset e.offset) c = d₁
      have root' : outer = none → parent.receive c = .other := by
        intro h
        rw [root h]
        rfl
      have inner_root (h : some (stack depth (parent.receive c) outer) = none) (own : Scope) :
          own = .other := by
        cases h
      obtain ⟨fault_eq, arrived, stopped⟩ := meets_children depth (parent.receive c) outer d₁
        scope? honest fun arrived => ihc children_proper (inner_root · _) arrived
      rw [visitAll_append]
      rcases hflat : visitAll s u (children.entries (depth + 1))
        ((d₁.inside (stack depth (parent.receive c) outer)).enter depth e.hasChildren scope?)
        with ⟨D₂, fault?⟩
      rcases htree : children.walk s u (depth + 1) (scope?.getD .other) d₁ with ⟨d₂, own, fault?'⟩
      rw [hflat, htree] at fault_eq arrived stopped
      cases fault_eq
      cases fault? with
      | none => exact ihs siblings_proper root' (arrived rfl)
      | some f =>
        refine ⟨rfl, fun h => ?_, stopped⟩
        cases h

theorem scopes_contribute (d : Decoding) (entry : Nat) (c : Contribution) :
  (d.contribute entry c).scopes = d.scopes
  := by
  cases c <;> rfl

theorem scopes_abandon (d : Decoding) (record : Option TypeRecord) :
  (d.abandon record).scopes = d.scopes
  := by
  cases record <;> rfl

/-- The walk by recursion opens no scopes. -/
theorem scopes_walk (f : Forest) (depth : Int) (parent : Scope) (d : Decoding) :
  (f.walk s u depth parent d).1.scopes = d.scopes
  := by
  induction f generalizing depth parent d with
  | nil => rfl
  | node e children siblings ihc ihs =>
    rcases Forest.walk_node s u e children siblings depth parent d with
      ⟨f, -, walked⟩ | ⟨c, own, own', start, inner, -, hstart, -, step⟩
    · rw [walked]
      exact scopes_abandon _ _
    · have kept := ihc (depth + 1) own start
      rw [hstart, scopes_contribute, ← hstart] at kept
      rcases step with ⟨f, inside, walked⟩ | ⟨inside, walked⟩
      · rw [inside] at kept
        rw [walked]
        exact kept
      · rw [inside] at kept
        rw [walked, ihs, scopes_close]
        exact kept

/-- The walk over the flat entries of a unit builds what the walk by recursion over the forest of
these entries builds, and stops at the same fault. -/
theorem walkUnit_entries {f : Forest} (contents : u.contents = ⟨f.entries 0, none⟩)
    (fresh : d.scopes = []) :
  let flat := walkUnit s u d
  let tree := f.walk s u 0 .other d
  flat.2 = tree.2.2 ∧ flat.1.inside [] = tree.1 ∧ (flat.2 = none → flat.1.scopes = [])
  := by
  intro flat tree
  have climbs := u.climbs_contents
  rw [contents] at climbs
  have start : d.arrive 0 = d.inside (stack 0 .other none) := by
    rw [arrive, fresh]
    rfl
  have met : Meets 0 none (visitAll s u (f.entries 0) d) tree :=
    meets_walk f (f.proper_of_climbs climbs) (fun _ => rfl) start
  have tree_scopes : tree.1.inside [] = tree.1 :=
    inside_of_scopes ((scopes_walk f 0 .other d).trans fresh)
  obtain ⟨fault_eq, arrived, stopped⟩ := met
  rcases hflat : visitAll s u (f.entries 0) d with ⟨d', fault?⟩
  rw [hflat] at fault_eq arrived stopped
  cases fault? with
  | some fault =>
    have walk_eq : flat = (d', some fault) := by
      change walkUnit s u d = _
      rw [walkUnit, contents]
      dsimp only
      rw [hflat]
    have failed : tree.2.2 ≠ none := by
      rw [← fault_eq]
      exact Option.some_ne_none fault
    rw [walk_eq]
    refine ⟨fault_eq, (stopped failed).trans tree_scopes, fun h => ?_⟩
    cases h
  | none =>
    have last : d'.arrive 0 = tree.1 := (arrived fault_eq.symm).trans tree_scopes
    have ended : (closeFrom 0 d'.scopes d').scopes = [] := by
      rw [← arrive, last, ← tree_scopes]
      rfl
    have walk_eq : flat = (tree.1, none) := by
      change walkUnit s u d = _
      rw [walkUnit, contents]
      dsimp only
      rw [hflat, ← last]
      exact congrArg (·, none) (closeAll_of_closeFrom ended)
    rw [walk_eq]
    exact ⟨fault_eq, tree_scopes, fun _ => congrArg Decoding.scopes tree_scopes.symm⟩

end Decoding

end CompactTypes.Dwarf

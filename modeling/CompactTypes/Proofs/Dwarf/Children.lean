import CompactTypes.Proofs.Dwarf.Attachment
import CompactTypes.Proofs.Dwarf.Enumerations

/-!
# Children

The entries of a unit stand in one list, each with its depth.  The children of an entry are those
one level below it, up to the first that is not below it, `directChildren`.  The walk finds the
same ones: the visits whose parent has opened the scope of a record are those of the children of
the entry of that record, `Sections.children_walk`.  Until the entry ends, its scope is `Around`
the current one; from then on no scope is `Of` its record.
-/

namespace CompactTypes.Dwarf

namespace Scope

/-- The scope after other dimensions, if it belongs to an array. -/
def withCounts (counts : List UInt32) : Scope → Scope
  | array id entry target _ => array id entry target counts
  | scope => scope

theorem owner?_withCounts (counts : List UInt32) (scope : Scope) :
  (scope.withCounts counts).owner? = scope.owner?
  := by
  cases scope <;> rfl

theorem withCounts_withCounts (counts counts' : List UInt32) (scope : Scope) :
  (scope.withCounts counts).withCounts counts' = scope.withCounts counts'
  := by
  cases scope <;> rfl

theorem exists_withCounts (scope : Scope) :
  ∃ counts, scope.withCounts counts = scope
  := by
  cases scope with
  | array id entry target counts => exact ⟨counts, rfl⟩
  | other | aggregate | enumeration | function => exact ⟨[], rfl⟩

end Scope

/-- The entries one level below an entry at the given depth, of those that come after it. -/
def directChildren (depth : Int) (later : List (Int × Entry)) : List Entry :=
  ((later.takeWhile fun item => depth < item.1).filter fun item => item.1 = depth + 1).map Prod.snd

/-- The visits of entries whose parent has opened the scope of the record at a position. -/
def childrenOf (owner : TypeId) (visits : List Visit) : List Visit :=
  visits.filter fun v => v.parent.bind Scope.owner? = some owner

theorem directChildren_cons {depth : Int} {item : Int × Entry} (deeper : depth < item.1)
    (later : List (Int × Entry)) :
  directChildren depth (item :: later)
    = (if item.1 = depth + 1 then [item.2] else []) ++ directChildren depth later
  := by
  rw [directChildren, List.takeWhile_cons_of_pos (by simpa using deeper), List.filter_cons]
  by_cases here : item.1 = depth + 1 <;> simp [here, directChildren]

theorem directChildren_cons_of_not_lt {depth : Int} {item : Int × Entry}
    (shallow : ¬depth < item.1) (later : List (Int × Entry)) :
  directChildren depth (item :: later) = []
  := by
  rw [directChildren, List.takeWhile_cons_of_neg (by simpa using shallow)]
  rfl

theorem childrenOf_append (owner : TypeId) (visits visits' : List Visit) :
  childrenOf owner (visits ++ visits') = childrenOf owner visits ++ childrenOf owner visits'
  := List.filter_append _ _

theorem childrenOf_eq_nil {owner : TypeId} {visits : List Visit} :
  childrenOf owner visits = [] ↔ ∀ v ∈ visits, v.parent.bind Scope.owner? ≠ some owner
  := by
  simp [childrenOf, List.filter_eq_nil_iff]

theorem childrenOf_between {owner : TypeId} {before inner after : List Visit} {v : Visit}
    (earlier : childrenOf owner before = []) (itself : v.parent.bind Scope.owner? ≠ some owner)
    (later : childrenOf owner after = []) :
  childrenOf owner (before ++ v :: (inner ++ after)) = childrenOf owner inner
  := by
  have single : childrenOf owner [v] = [] := childrenOf_eq_nil.mpr (by simpa using itself)
  rw [← List.singleton_append, childrenOf_append, childrenOf_append, childrenOf_append, earlier,
    single, later, List.nil_append, List.nil_append, List.append_nil]

/-- Visits at the entries of one unit are visits of these entries. -/
theorem entries_of_places {u : CompilationUnit} {depth : Int} {visits : List Visit}
    {entries : List Entry} (places : visits.map Visit.place = entries.map (u, depth, ·)) :
  visits.map Visit.entry = entries ∧ ∀ v ∈ visits, v.unit = u
  := by
  constructor
  · have third := congrArg (List.map fun place => place.2.2) places
    rw [List.map_map, List.map_map] at third
    exact third.trans (List.map_id' entries)
  · intro v mem
    have place : v.place ∈ entries.map (u, depth, ·) := places ▸ List.mem_map_of_mem mem
    obtain ⟨e, -, same⟩ := List.mem_map.mp place
    exact (congrArg Prod.fst same).symm

namespace Decoding

variable {s : Sections} {u : CompilationUnit} {depth depth' : Int} {owner : TypeId} {scope : Scope}
  {d d' : Decoding} {v : Visit} {e : Entry}

/-! ### Scopes -/

/-- A record's own scope is open: its entry is at the given depth, and it has met some dimensions
if it is an array.  The scopes inside of it are deeper, and no other scope is of the record. -/
def Around (depth : Int) (scope : Scope) (owner : TypeId) (d : Decoding) : Prop :=
  ∃ inner outer counts, d.scopes = inner ++ (depth, scope.withCounts counts) :: outer
    ∧ (∀ item ∈ inner, depth < item.1 ∧ item.2.owner? ≠ some owner)
    ∧ ∀ item ∈ outer, item.2.owner? ≠ some owner

/-- No open scope is of the record at a position. -/
def Outside (owner : TypeId) (d : Decoding) : Prop :=
  ∀ item ∈ d.scopes, item.2.owner? ≠ some owner

/-- A contribution changes no scopes, except that the innermost one can meet a dimension. -/
theorem scopes_add (d : Decoding) (entry : Nat) (c : Contribution) :
  ∃ counts, (d.add entry c).scopes
    = d.scopes.modifyHead fun item => (item.1, item.2.withCounts counts)
  := by
  have same : ∃ counts, d.scopes
      = d.scopes.modifyHead fun item => (item.1, item.2.withCounts counts) := by
    cases scopes : d.scopes with
    | nil => exact ⟨[], rfl⟩
    | cons first others =>
      obtain ⟨counts, kept⟩ := first.2.exists_withCounts
      refine ⟨counts, ?_⟩
      rw [List.modifyHead_cons, kept]
  cases c with
  | dimension count =>
    change ∃ counts, (d.addDimension count).scopes = _
    unfold addDimension
    split
    next depth id entry target counts others scopes =>
      refine ⟨count :: counts, ?_⟩
      rw [scopes]
      rfl
    next => exact same
  | _ => exact same

theorem owner?_of_opened {id : TypeId} {entry : Nat} {c : Contribution}
    (h : opened id entry c = some scope) :
  scope.owner? = some id
  := by
  cases c <;> cases h <;> rfl

/-- The scope of an entry is of its own record, if it is of any. -/
theorem owner?_getD_opened (younger : owner < v.id) :
  ((opened v.id v.offset v.contribution).getD .other).owner? ≠ some owner
  := fun owned => Nat.ne_of_lt younger (owner?_opened owned)

/-- After an entry the scopes are those in which it was, and its own if it has children. -/
theorem scopes_enter (d : Decoding) (depth : Int) (hasChildren : Bool) (scope? : Option Scope) :
  (d.enter depth hasChildren scope?).scopes
    = if hasChildren then (depth, scope?.getD .other) :: d.scopes else d.scopes
  := by
  unfold enter
  split
  · rfl
  · cases scope? with
    | none => rfl
    | some scope => exact scopes_close scope d

/-! ### Outside of a record -/

theorem Outside.arrive (h : d.Outside owner) (depth : Int) :
  (d.arrive depth).Outside owner
  := by
  intro item mem
  rw [Decoding.arrive, scopes_closeFrom] at mem
  exact h item ((List.dropWhile_sublist _).mem mem)

theorem Outside.add (h : d.Outside owner) (entry : Nat) (c : Contribution) :
  (d.add entry c).Outside owner
  := by
  intro item mem
  obtain ⟨counts, scopes⟩ := scopes_add d entry c
  rw [scopes] at mem
  cases open' : d.scopes with
  | nil =>
    rw [open'] at mem
    cases mem
  | cons first others =>
    rw [Outside, open'] at h
    rw [open', List.modifyHead_cons] at mem
    rcases List.mem_cons.mp mem with rfl | mem
    · rw [Scope.owner?_withCounts]
      exact h first List.mem_cons_self
    · exact h item (List.mem_cons_of_mem _ mem)

theorem Outside.after (h : (d.arrive v.depth).Outside owner) (younger : owner < v.id)
    (notices : List Fault) :
  (d.after notices v).Outside owner
  := by
  have added : (((d.arrive v.depth).note notices).add v.offset v.contribution).Outside owner :=
    Outside.add (d := (d.arrive v.depth).note notices) h v.offset v.contribution
  rw [Outside, Decoding.after, scopes_enter]
  split
  · exact List.forall_mem_cons.mpr ⟨owner?_getD_opened younger, added⟩
  · exact added

theorem Outside.parentScope (h : d.Outside owner) (depth : Int) :
  (d.parentScope depth).bind Scope.owner? ≠ some owner
  := by
  intro found
  obtain ⟨scope, parent, owned⟩ := Option.bind_eq_some_iff.mp found
  obtain ⟨item, mem, rfl⟩ := List.mem_map.mp (parentScope_mem parent)
  exact h item mem owned

/-! ### Inside of a record -/

theorem Around.arrive (h : d.Around depth scope owner) (deeper : depth < depth') :
  (d.arrive depth').Around depth scope owner
  := by
  obtain ⟨inner, outer, counts, scopes, inside, outside⟩ := h
  exact ⟨_, outer, counts, scopes_arrive scopes deeper,
    fun item mem => inside item ((List.dropWhile_sublist _).mem mem), outside⟩

/-- An entry that is not below the one of a record ends its scope. -/
theorem Around.leave (h : d.Around depth scope owner) (shallow : ¬depth < depth') :
  (d.arrive depth').Outside owner
  := by
  obtain ⟨inner, outer, counts, scopes, inside, outside⟩ := h
  have ended : (inner ++ [(depth, scope.withCounts counts)]).dropWhile (fun item => depth' ≤ item.1)
      = [] := by
    rw [List.dropWhile_eq_nil_iff]
    intro item mem
    rcases List.mem_append.mp mem with mem | mem
    · have deeper := (inside item mem).1
      exact decide_eq_true (by omega)
    · rw [List.mem_singleton.mp mem]
      exact decide_eq_true (Int.not_lt.mp shallow)
  rw [List.append_cons] at scopes
  intro item mem
  rw [Decoding.arrive, scopes_closeFrom, scopes, List.dropWhile_append, ended] at mem
  exact outside item ((List.dropWhile_sublist _).mem mem)

theorem Around.add (h : d.Around depth scope owner) (entry : Nat) (c : Contribution) :
  (d.add entry c).Around depth scope owner
  := by
  obtain ⟨inner, outer, counts, scopes, inside, outside⟩ := h
  obtain ⟨counts', added⟩ := scopes_add d entry c
  rw [scopes] at added
  cases inner with
  | nil =>
    refine ⟨[], outer, counts', ?_, inside, outside⟩
    rw [added, List.nil_append, List.modifyHead_cons, Scope.withCounts_withCounts]
    rfl
  | cons first inner =>
    refine ⟨(first.1, first.2.withCounts counts') :: inner, outer, counts, added, ?_, outside⟩
    obtain ⟨here, others⟩ := List.forall_mem_cons.mp inside
    rw [← first.2.owner?_withCounts counts'] at here
    exact List.forall_mem_cons.mpr ⟨here, others⟩

theorem Around.after (h : (d.arrive v.depth).Around depth scope owner) (deeper : depth < v.depth)
    (younger : owner < v.id) (notices : List Fault) :
  (d.after notices v).Around depth scope owner
  := by
  have added : (((d.arrive v.depth).note notices).add v.offset v.contribution).Around depth scope
      owner := Around.add (d := (d.arrive v.depth).note notices) h v.offset v.contribution
  obtain ⟨inner, outer, counts, scopes, inside, outside⟩ := added
  rw [Around, Decoding.after, scopes_enter]
  split
  · refine ⟨_ :: inner, outer, counts, congrArg _ scopes, ?_, outside⟩
    exact List.forall_mem_cons.mpr ⟨⟨deeper, owner?_getD_opened younger⟩, inside⟩
  · exact ⟨inner, outer, counts, scopes, inside, outside⟩

/-- The children of the entry of a record find its scope. -/
theorem Around.parentScope (h : d.Around depth scope owner) :
  ∃ counts, (d.arrive (depth + 1)).parentScope (depth + 1) = some (scope.withCounts counts)
  := by
  obtain ⟨inner, outer, counts, scopes, inside, -⟩ := h
  have ended : inner.dropWhile (fun item => depth + 1 ≤ item.1) = [] := by
    rw [List.dropWhile_eq_nil_iff]
    exact fun item mem => decide_eq_true (inside item mem).1
  refine ⟨counts, ?_⟩
  rw [Decoding.parentScope, scopes_arrive scopes (Int.lt_succ depth), ended]
  exact if_pos (by omega)

/-- The entries further below find other scopes. -/
theorem Around.parentScope_of_ne (h : d.Around depth scope owner) (other : depth' ≠ depth + 1) :
  (d.parentScope depth').bind Scope.owner? ≠ some owner
  := by
  obtain ⟨inner, outer, counts, scopes, inside, -⟩ := h
  intro found
  obtain ⟨parent, innermost, owned⟩ := Option.bind_eq_some_iff.mp found
  rw [Decoding.parentScope, scopes] at innermost
  cases inner with
  | nil =>
    have elsewhere : depth ≠ depth' - 1 := by omega
    rw [List.nil_append] at innermost
    dsimp only at innermost
    rw [if_neg elsewhere] at innermost
    cases innermost
  | cons first inner =>
    rw [List.cons_append] at innermost
    dsimp only at innermost
    split at innermost
    · cases innermost
      exact (inside first List.mem_cons_self).2 owned
    · cases innermost

/-! ### Visits inside and outside of a record -/

/-- A walk takes back no record. -/
theorem kept_nextId_le (n : Nat) :
  Kept fun d => n ≤ d.graph.nextId
  := by
  constructor
  · intro d d' h graph _ _
    rw [graph]
    exact h
  · intro d id f h _ _
    exact h.trans (Nat.le_of_eq (d.graph.nextId_update id f).symm)
  · intro d r h _ _
    exact h.trans (Nat.le_trans (Nat.le_succ _) (Nat.le_of_eq (d.graph.nextId_push r).symm))
  · intro d entry c r parent h record _
    rw [graph_add_record record, Graph.nextId_push]
    exact Nat.le_succ_of_le h
  · exact fun _ _ h => h
  · intro d outer count h
    refine Nat.le_trans (Nat.le_succ_of_le h) (Nat.le_of_eq ?_)
    exact ((Graph.nextId_update _ outer _).trans (Graph.nextId_push _ _)).symm

theorem Outside.visit (h : (d.arrive depth').Outside owner) (inside : owner < d.graph.nextId)
    (hv : d.visitOf? s u depth' e = .ok v) :
  (d.visit s u depth' e).1.Outside owner ∧ v.parent.bind Scope.owner? ≠ some owner
  := by
  obtain ⟨-, rfl, -, -, parent, id, notices, result⟩ := visit_of_ok hv
  have younger : owner < v.id := by
    rw [id]
    exact (kept_nextId_le (owner + 1)).closeFrom inside v.depth d.scopes
  rw [result, parent]
  exact ⟨h.after younger notices, h.parentScope v.depth⟩

/-- Once no scope is of a record, no entry finds one. -/
theorem Outside.visitAll {entries : List (Int × Entry)} (h : d.Outside owner)
    (inside : owner < d.graph.nextId) (walked : visitAll s u entries d = (d', none)) :
  childrenOf owner (entryVisits s u entries d) = [] ∧ owner < d'.graph.nextId
  := by
  induction entries generalizing d with
  | nil =>
    cases walked
    exact ⟨rfl, inside⟩
  | cons item entries ih =>
    obtain ⟨v, hv⟩ := exists_visitOf?_of_visitAll walked
    obtain ⟨rest, visits_eq⟩ := visitAll_of_ok hv entries
    obtain ⟨outside, other⟩ := (h.arrive item.1).visit inside hv
    have still := (kept_nextId_le (owner + 1)).visit (s := s) inside u item.1 item.2
    rw [rest] at walked
    obtain ⟨none, inside⟩ := ih outside still walked
    rw [visits_eq]
    refine ⟨?_, inside⟩
    rw [childrenOf_eq_nil] at none ⊢
    exact List.forall_mem_cons.mpr ⟨other, none⟩

/-- No scope is open at the end of a unit. -/
theorem outside_closeAll (d : Decoding) (owner : TypeId) :
  (closeAll d.scopes d).Outside owner
  := by
  rw [Outside, scopes_closeAll]
  exact fun item mem => absurd mem List.not_mem_nil

theorem Outside.walkUnits {units : List CompilationUnit} (h : d.Outside owner)
    (inside : owner < d.graph.nextId) (walked : walkUnits s units d = (d', none)) :
  childrenOf owner (d.unitsVisits s units) = []
  := by
  induction units generalizing d with
  | nil => rfl
  | cons u units ih =>
    rw [Decoding.walkUnits] at walked
    split at walked
    next => cases walked
    next d₁ unit =>
      rw [unitsVisits_cons unit, childrenOf_append]
      rw [Decoding.walkUnit] at unit
      split at unit
      next => cases unit
      next d₂ entries =>
        split at unit
        next => cases unit
        next =>
          cases unit
          obtain ⟨none, still⟩ := h.visitAll inside entries
          rw [unitVisits, none, List.nil_append]
          have still := (kept_nextId_le (owner + 1)).closeAll still d₂.scopes
          exact ih (outside_closeAll d₂ owner) still walked

/-- The visits that find the scope of a record, from its entry on, are those of the children of the
entry. -/
theorem Around.visitAll {entries : List (Int × Entry)} (h : d.Around depth scope owner)
    (owned : scope.owner? = some owner) (inside : owner < d.graph.nextId)
    (walked : visitAll s u entries d = (d', none)) :
  (childrenOf owner (entryVisits s u entries d)).map Visit.place
      = (directChildren depth entries).map (u, depth + 1, ·)
    ∧ ∀ v ∈ childrenOf owner (entryVisits s u entries d),
      ∃ counts, v.parent = some (scope.withCounts counts)
  := by
  induction entries generalizing d with
  | nil => exact ⟨rfl, fun v mem => absurd mem List.not_mem_nil⟩
  | cons item entries ih =>
    obtain ⟨v, hv⟩ := exists_visitOf?_of_visitAll walked
    obtain ⟨rest, visits_eq⟩ := visitAll_of_ok hv entries
    by_cases deeper : depth < item.1
    · obtain ⟨unit, depth_eq, entry, -, parent, id, notices, result⟩ := visit_of_ok hv
      have younger : owner < v.id := by
        rw [id]
        exact (kept_nextId_le (owner + 1)).closeFrom inside item.1 d.scopes
      have around : (d.visit s u item.1 item.2).1.Around depth scope owner := by
        rw [result]
        rw [← depth_eq] at deeper
        exact (h.arrive deeper).after deeper younger notices
      have still := (kept_nextId_le (owner + 1)).visit (s := s) inside u item.1 item.2
      rw [rest] at walked
      obtain ⟨places, parents⟩ := ih around still walked
      rw [visits_eq, directChildren_cons deeper, childrenOf, List.filter_cons]
      by_cases child : item.1 = depth + 1
      · obtain ⟨counts, found⟩ := h.parentScope
        rw [child, found] at parent
        have own : v.parent.bind Scope.owner? = some owner := by
          rw [parent]
          exact (scope.owner?_withCounts counts).trans owned
        have place : v.place = (u, depth + 1, item.2) := by
          rw [Visit.place, unit, depth_eq, entry, child]
        rw [if_pos child, if_pos (decide_eq_true own)]
        refine ⟨?_, List.forall_mem_cons.mpr ⟨⟨counts, parent⟩, parents⟩⟩
        rw [List.map_cons, List.singleton_append, List.map_cons, place]
        exact congrArg _ places
      · have other : v.parent.bind Scope.owner? ≠ some owner := by
          rw [parent]
          exact (h.arrive deeper).parentScope_of_ne child
        rw [if_neg child, if_neg (by simpa using other), List.nil_append]
        exact ⟨places, parents⟩
    · obtain ⟨outside, other⟩ := (h.leave deeper).visit inside hv
      have still := (kept_nextId_le (owner + 1)).visit (s := s) inside u item.1 item.2
      rw [rest] at walked
      have none := (outside.visitAll still walked).1
      have nowhere : childrenOf owner (entryVisits s u (item :: entries) d) = [] := by
        rw [childrenOf_eq_nil] at none ⊢
        rw [visits_eq]
        exact List.forall_mem_cons.mpr ⟨other, none⟩
      rw [nowhere, directChildren_cons_of_not_lt deeper]
      exact ⟨rfl, fun v mem => absurd mem List.not_mem_nil⟩

/-! ### Walks -/

theorem owner_lt_of_belongs {visits : List Visit} {g : Graph} (h : scope.Belongs visits g)
    (owned : scope.owner? = some owner) :
  owner < g.nextId
  := by
  cases scope <;> cases owned <;> exact h.1

theorem nextId_le_after (faithful : v.Faithful s) (notices : List Fault) :
  (d.arrive v.depth).graph.nextId ≤ (d.after notices v).graph.nextId
  := by
  have kept := kept_nextId_le (d.arrive v.depth).graph.nextId
  let arrived := (d.arrive v.depth).note notices
  have added : arrived.graph.nextId ≤ (arrived.add v.offset v.contribution).graph.nextId :=
    kept.add (Nat.le_refl arrived.graph.nextId) (Contribution.fits_read faithful)
  exact kept.enter added v.depth v.entry.hasChildren _

/-- Throughout a walk, the records whose scopes have been found are there already. -/
theorem followed_owners (s : Sections) :
  Followed s fun visits d => Tracks visits (d.scopes.map Prod.snd) d
    ∧ ∀ v ∈ visits, ∀ owner, v.parent.bind Scope.owner? = some owner → owner < d.graph.nextId
  := by
  constructor
  · rintro visits d u depth e v ⟨tracked, owners⟩ hv fresh
    refine ⟨(followed_tracks s).visit tracked hv fresh, fun w mem owner owned => ?_⟩
    rcases List.mem_append.mp mem with mem | mem
    · exact (kept_nextId_le (owner + 1)).visit (owners w mem owner owned) u depth e
    · obtain rfl := List.mem_singleton.mp mem
      obtain ⟨-, rfl, -, faithful, parent, -, notices, result⟩ := visit_of_ok hv
      rw [parent] at owned
      obtain ⟨scope, innermost, owned⟩ := Option.bind_eq_some_iff.mp owned
      have belongs := (tracked.closeFrom w.depth).belongs scope (parentScope_mem innermost)
      rw [result]
      have older := owner_lt_of_belongs belongs owned
      exact Nat.lt_of_lt_of_le older (nextId_le_after faithful notices)
  · rintro visits d ⟨tracked, owners⟩
    exact ⟨(followed_tracks s).close tracked, fun w mem owner owned =>
      (kept_nextId_le (owner + 1)).closeAll (owners w mem owner owned) d.scopes⟩

/-- A walk over units without a fault comes to every entry, and goes on after it. -/
theorem exists_of_walkUnits_entry {units : List CompilationUnit} {R : List Visit → Decoding → Prop}
    {front back : List (Int × Entry)} (followed : Followed s R) (start : R [] d)
    (increasing : ((d.unitsVisits s units).map Visit.offset).Pairwise (· < ·))
    (walked : walkUnits s units d = (d', none)) (mem : u ∈ units)
    (contents : u.contents.items = front ++ (depth, e) :: back) :
  ∃ before d₁ p d₃ units', R before d₁ ∧ d₁.visitOf? s u depth e = .ok p
    ∧ visitAll s u back (d₁.visit s u depth e).1 = (d₃, none)
    ∧ walkUnits s units' (closeAll d₃.scopes d₃) = (d', none)
    ∧ d.unitsVisits s units = before ++ p :: (entryVisits s u back (d₁.visit s u depth e).1
      ++ (closeAll d₃.scopes d₃).unitsVisits s units')
  := by
  obtain ⟨units, units', rfl⟩ := List.append_of_mem mem
  obtain ⟨d₀, first, walked, visits_eq⟩ := exists_of_walkUnits_append walked
  rw [Decoding.walkUnits] at walked
  split at walked
  next => cases walked
  next d₂ unit =>
    rw [unitsVisits_cons unit] at visits_eq
    rw [walkUnit] at unit
    split at unit
    next => cases unit
    next d₃ entries =>
      split at unit
      next => cases unit
      next =>
        cases unit
        rw [contents] at entries
        obtain ⟨d₁, arrived, rest, entries_eq⟩ := exists_of_visitAll_append entries
        obtain ⟨p, hp⟩ := exists_visitOf?_of_visitAll rest
        obtain ⟨rest_eq, visits_eq'⟩ := visitAll_of_ok hp back
        rw [unitVisits, contents, entries_eq, visits_eq'] at visits_eq
        simp only [List.append_assoc, List.cons_append] at visits_eq
        rw [← List.append_assoc] at visits_eq
        have before : ((d.unitsVisits s units ++ entryVisits s u front d₀).map
            Visit.offset).Pairwise (· < ·) := by
          rw [visits_eq, List.map_append] at increasing
          exact (List.pairwise_append.mp increasing).1
        have units_before : ((d.unitsVisits s units).map Visit.offset).Pairwise (· < ·) := by
          rw [List.map_append] at before
          exact (List.pairwise_append.mp before).1
        have reached : R (d.unitsVisits s units) d₀ := followed.walkUnits start units_before first
        rw [rest_eq] at rest
        exact ⟨_, d₁, p, d₃, units', followed.visitAll reached before arrived, hp, rest, walked,
          visits_eq⟩

/-- A visit takes back no record, and its own is there after it. -/
theorem nextId_visit (hv : d.visitOf? s u depth e = .ok v) :
  d.graph.nextId ≤ v.id
    ∧ ∀ r, v.contribution.record? = some r → v.id < (d.visit s u depth e).1.graph.nextId
  := by
  obtain ⟨-, rfl, rfl, -, -, id, notices, result⟩ := visit_of_ok hv
  constructor
  · rw [id]
    exact (kept_nextId_le d.graph.nextId).closeFrom (Nat.le_refl _) v.depth d.scopes
  · intro r record
    rw [result]
    apply (kept_nextId_le (v.id + 1)).enter
    rw [graph_add_record record, Graph.nextId_push]
    exact Nat.succ_le_succ (Nat.le_of_eq id)

/-- No scope is of the record of an entry before the entry is visited. -/
theorem Tracks.outside {visits : List Visit} (h : Tracks visits (d.scopes.map Prod.snd) d)
    (hv : d.visitOf? s u depth e = .ok v) :
  (d.arrive depth).Outside v.id
  := by
  intro item mem owned
  rw [arrive, scopes_closeFrom] at mem
  have listed : item.2 ∈ d.scopes.map Prod.snd :=
    List.mem_map_of_mem ((List.dropWhile_sublist _).mem mem)
  exact Nat.not_lt_of_le (nextId_visit hv).1 (owner_lt_of_belongs (h.belongs item.2 listed) owned)

/-- After an entry whose contribution opens a scope, the scope is around the entries to come, or it
has ended. -/
theorem Tracks.around {visits : List Visit} (h : Tracks visits (d.scopes.map Prod.snd) d)
    (hv : d.visitOf? s u depth e = .ok v)
    (hopened : opened v.id v.offset v.contribution = some scope) :
  if e.hasChildren then (d.visit s u depth e).1.Around depth scope v.id
    else (d.visit s u depth e).1.Outside v.id
  := by
  have outside := h.outside hv
  obtain ⟨-, rfl, rfl, -, -, -, notices, result⟩ := visit_of_ok hv
  have added : (((d.arrive v.depth).note notices).add v.offset v.contribution).Outside v.id :=
    Outside.add (d := (d.arrive v.depth).note notices) outside v.offset v.contribution
  rw [result]
  cases hasChildren : v.entry.hasChildren with
  | true =>
    obtain ⟨counts, own⟩ := scope.exists_withCounts
    refine ⟨[], _, counts, ?_, fun item mem => absurd mem List.not_mem_nil, added⟩
    rw [after, scopes_enter, hasChildren, hopened, own]
    rfl
  | false =>
    change (d.after notices v).Outside v.id
    rw [Outside, after, scopes_enter, hasChildren]
    exact added

theorem record?_of_opened {id : TypeId} {entry : Nat} {c : Contribution}
    (h : opened id entry c = some scope) :
  ∃ r, c.record? = some r
  := by
  cases c with
  | array r | aggregate r | enumeration r | subroutine r | subprogram r => exact ⟨r, rfl⟩
  | nothing | plain | derived | object | dimension | member | enumerator | synonym => cases h

end Decoding

theorem directChildren_of_childless {depth : Int} {e : Entry} {back : List (Int × Entry)}
    (climbs : ((depth, e) :: back).IsChain Climbs) (childless : e.hasChildren = false) :
  directChildren depth back = []
  := by
  cases back with
  | nil => rfl
  | cons next back =>
    have climbs := (List.isChain_cons_cons.mp climbs).1
    rw [Climbs, childless] at climbs
    exact directChildren_cons_of_not_lt (Int.not_lt.mpr climbs) back

namespace Sections

variable {s : Sections} {u : CompilationUnit} {size : Nat} {d : Decoding} {depth : Int} {e : Entry}
  {front back : List (Int × Entry)}

/-- Every entry is visited, and if it opens a scope then the visits that find the scope are those of
its children, in order. -/
theorem children_walk (walked : s.walk s.units .empty size = (d, none)) (mem : u ∈ s.units.items)
    (contents : u.contents.items = front ++ (depth, e) :: back) :
  let visits := s.visits s.units.items .empty size
  ∃ p ∈ visits, p.place = (u, depth, e) ∧ p.Faithful s
    ∧ ∀ scope, Decoding.opened p.id p.offset p.contribution = some scope →
      (childrenOf p.id visits).map Visit.place = (directChildren depth back).map (u, depth + 1, ·)
      ∧ ∀ v ∈ childrenOf p.id visits, ∃ counts, v.parent = some (scope.withCounts counts)
  := by
  intro visits
  have increasing := s.pairwise_visits .empty size
  have units := walkUnits_of_walk walked
  have started : Decoding.Tracks [] ((Decoding.start .empty size).scopes.map Prod.snd)
      (Decoding.start .empty size) := Decoding.tracks_start size
  obtain ⟨before, d₁, p, d₃, units', ⟨tracked, owners⟩, hp, rest, others, visits_eq⟩ :=
    Decoding.exists_of_walkUnits_entry (Decoding.followed_owners s)
      ⟨started, fun v mem => absurd mem List.not_mem_nil⟩ increasing units mem contents
  obtain ⟨unit, depth_eq, entry, faithful, parent, -⟩ := Decoding.visit_of_ok hp
  have visits_eq : visits = _ := visits_eq
  refine ⟨p, ?_, ?_, faithful, fun scope hopened => ?_⟩
  · rw [visits_eq]
    exact List.mem_append_right _ List.mem_cons_self
  · rw [Visit.place, unit, depth_eq, entry]
  have kept := Decoding.kept_nextId_le (p.id + 1)
  obtain ⟨older, made⟩ := Decoding.nextId_visit hp
  obtain ⟨r, record⟩ := Decoding.record?_of_opened hopened
  have inside := made r record
  have entered := tracked.around hp hopened
  -- Before the entry and after its unit no scope is of its record.
  have earlier : childrenOf p.id before = [] := by
    rw [childrenOf_eq_nil]
    intro v mem owned
    exact Nat.not_lt_of_le older (owners v mem p.id owned)
  have itself : p.parent.bind Scope.owner? ≠ some p.id := by
    rw [parent]
    exact (tracked.outside hp).parentScope depth
  have later : childrenOf p.id
      ((Decoding.closeAll d₃.scopes d₃).unitsVisits s units') = [] := by
    have still := kept.visitAll (s := s) inside u back
    rw [rest] at still
    exact (Decoding.outside_closeAll d₃ p.id).walkUnits (kept.closeAll still d₃.scopes) others
  rw [visits_eq, childrenOf_between earlier itself later]
  cases hasChildren : e.hasChildren with
  | true =>
    rw [if_pos hasChildren] at entered
    exact entered.visitAll (Decoding.owner?_of_opened hopened) inside rest
  | false =>
    rw [if_neg (by simp [hasChildren])] at entered
    have climbs := u.climbs_contents
    rw [contents] at climbs
    rw [(entered.visitAll inside rest).1,
      directChildren_of_childless climbs.right_of_append hasChildren]
    exact ⟨rfl, fun v mem => absurd mem List.not_mem_nil⟩

end Sections

end CompactTypes.Dwarf

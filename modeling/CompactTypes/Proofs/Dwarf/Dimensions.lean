import CompactTypes.Proofs.Dwarf.Members

/-!
# Dimensions of arrays

An array with several dimensions becomes a `Pile` of arrays, each of which is the element type of
the one before it.  Until the collected references are set, only inner arrays are referred to, and
each of them by one array, `Stacked`.  The invariant of the walk is `Decoding.Spread`: an array
whose scope is open has met the dimensions of its children so far, and one whose scope has ended is
the first of a pile of that many arrays, of which the last one waits for the element type.
-/

namespace CompactTypes.Dwarf

/-! ### Piles -/

/-- The number of elements along a dimension, if a contribution is one. -/
def Contribution.dimension? : Contribution → Option UInt32
  | dimension count => some count
  | _ => none

/-- The dimensions that visits have added to the array at a position, the outermost first. -/
def dimensionsOf (owner : TypeId) (visits : List Visit) : List UInt32 :=
  (childrenOf owner visits).filterMap fun v => v.contribution.dimension?

/-- The lengths of the arrays for the given dimensions.  An array without dimensions has no known
elements. -/
def lengths : List UInt32 → List UInt32
  | [] => [0]
  | count :: counts => count :: counts

/-- The arrays at some positions have the lengths for the given dimensions, and each is the element
type of the one before it. -/
structure Pile (g : Graph) (counts : List UInt32) (ids : List TypeId) : Prop where
  nested : ids.IsChain fun outer inner => (g.get outer).reference = some inner
  lengths_eq : ids.map (fun id => (g.get id).elementCount) = lengths counts

/-- An inner array of the array at `outer`, which no visit has made. -/
structure Inner (visits : List Visit) (g : Graph) (outer inner : TypeId) : Prop where
  outer_lt : outer < inner
  inside : inner < g.nextId
  kind : (g.get inner).kind = .array
  name : (g.get inner).name = none
  unmade : ∀ v ∈ visits, v.made? ≠ some inner

/-- Only inner arrays are referred to, and each of them by no more than one array. -/
structure Stacked (visits : List Visit) (g : Graph) : Prop where
  inner : ∀ outer inner, (g.get outer).reference = some inner → Inner visits g outer inner
  injective : ∀ outer outer' inner, (g.get outer).reference = some inner →
    (g.get outer').reference = some inner → outer = outer'

theorem lengths_eq_headD_cons (counts : List UInt32) :
  lengths counts = counts.headD 0 :: counts.tail
  := by
  cases counts <;> rfl

theorem dimensionsOf_append (owner : TypeId) (visits visits' : List Visit) :
  dimensionsOf owner (visits ++ visits') = dimensionsOf owner visits ++ dimensionsOf owner visits'
  := by
  rw [dimensionsOf, childrenOf_append, List.filterMap_append]
  rfl

section

variable {α : Type} {R : α → α → Prop} {first x last : α} {xs : List α}

/-- In a chain each element is the last one or has another one after it. -/
theorem last_or_next (chain : xs.IsChain R) (final : xs.getLast? = some last) (mem : x ∈ xs) :
  x = last ∨ ∃ next, R x next
  := by
  induction xs with
  | nil => cases mem
  | cons y xs ih =>
    cases xs with
    | nil =>
      rw [List.getLast?_singleton] at final
      exact .inl ((List.mem_singleton.mp mem).trans (Option.some.inj final))
    | cons z xs =>
      obtain ⟨next, chain⟩ := List.isChain_cons_cons.mp chain
      rcases List.mem_cons.mp mem with rfl | mem
      · exact .inr ⟨z, next⟩
      · exact ih chain (by rwa [List.getLast?_cons_cons] at final) mem

/-- In a chain each element but the first one has another one before it. -/
theorem exists_previous (chain : (first :: xs).IsChain R) (mem : x ∈ xs) :
  ∃ previous ∈ first :: xs, R previous x
  := by
  induction xs generalizing first with
  | nil => cases mem
  | cons y xs ih =>
    obtain ⟨next, chain⟩ := List.isChain_cons_cons.mp chain
    rcases List.mem_cons.mp mem with rfl | mem
    · exact ⟨first, List.mem_cons_self, next⟩
    · obtain ⟨previous, mem, before⟩ := ih chain mem
      exact ⟨previous, List.mem_cons_of_mem _ mem, before⟩

end

section

variable {visits : List Visit} {g g' : Graph} {counts : List UInt32} {ids : List TypeId}
  {outer : TypeId}

/-- A pile stays one as long as its own arrays keep their references and their lengths. -/
theorem Pile.congr (h : Pile g counts ids) (same : ∀ id ∈ ids,
    (∀ next, (g.get id).reference = some next → (g'.get id).reference = some next)
      ∧ (g'.get id).elementCount = (g.get id).elementCount) :
  Pile g' counts ids
  := by
  constructor
  · apply List.IsChain.imp_of_mem_imp _ h.nested
    exact fun outer inner mem _ reference => (same outer mem).1 inner reference
  · rw [← h.lengths_eq]
    exact List.map_congr_left fun id mem => (same id mem).2

theorem Inner.transport {inner : TypeId} (h : Inner visits g outer inner)
    (nextId_le : g.nextId ≤ g'.nextId)
    (same : core (g'.get inner) = core (g.get inner)) :
  Inner visits g' outer inner
  := by
  have name : (g'.get inner).name = (g.get inner).name := by
    have both : (core (g'.get inner)).name = (core (g.get inner)).name := by rw [same]
    exact both
  exact ⟨h.outer_lt, Nat.lt_of_lt_of_le h.inside nextId_le, (kind_of_core same).trans h.kind,
    name.trans h.name, h.unmade⟩

theorem Stacked.congr (h : Stacked visits g) (nextId_eq : g'.nextId = g.nextId)
    (core_eq : ∀ id, core (g'.get id) = core (g.get id))
    (reference_eq : ∀ id, (g'.get id).reference = (g.get id).reference) :
  Stacked visits g'
  := by
  constructor
  · intro outer inner reference
    rw [reference_eq] at reference
    exact (h.inner outer inner reference).transport (Nat.le_of_eq nextId_eq.symm) (core_eq inner)
  · intro outer outer' inner reference reference'
    rw [reference_eq] at reference reference'
    exact h.injective outer outer' inner reference reference'

theorem Stacked.push (h : Stacked visits g) {r : TypeRecord} (reference : r.reference = none) :
  Stacked visits (g.push r)
  := by
  have same (id : TypeId) : ((g.push r).get id).reference = (g.get id).reference :=
    g.field_get_push TypeRecord.reference reference id
  have grows := grows_push g r
  constructor
  · intro outer inner reference
    rw [same] at reference
    have found := h.inner outer inner reference
    exact found.transport grows.nextId_le (grows.core_eq inner found.inside)
  · intro outer outer' inner reference reference'
    rw [same] at reference reference'
    exact h.injective outer outer' inner reference reference'

/-- One more visit, which makes no record that was there. -/
theorem Stacked.visit (h : Stacked visits g) {v : Visit}
    (new : ∀ id, v.made? = some id → g.nextId ≤ id) :
  Stacked (visits ++ [v]) g
  := by
  refine ⟨fun outer inner reference => ?_, h.injective⟩
  have found := h.inner outer inner reference
  refine { found with unmade := fun w mem made => ?_ }
  rcases List.mem_append.mp mem with mem | mem
  · exact found.unmade w mem made
  · obtain rfl := List.mem_singleton.mp mem
    exact Nat.not_lt_of_le (new inner made) found.inside

/-- A new inner array is referred to by the array around it only. -/
theorem Stacked.nest (h : Stacked visits g) (inside : outer < g.nextId)
    (unmade : ∀ v ∈ visits, v.made? ≠ some g.nextId) (count : UInt32) :
  Stacked visits ((g.push { TypeRecord.ofKind .array none with elementCount := count }).update outer
    (·.withReference g.nextId))
  := by
  let r := { TypeRecord.ofKind .array none with elementCount := count }
  have nests := nests_array g inside count
  have reference (id : TypeId) :
      (((g.push r).update outer (·.withReference g.nextId)).get id).reference
        = if id = outer then some g.nextId else (g.get id).reference := by
    split
    next same => exact same ▸ nests.outer_reference
    next other =>
      rw [Graph.get_update_of_ne _ _ other]
      exact g.field_get_push (r := r) TypeRecord.reference rfl id
  have old (outer inner : TypeId) (found : (g.get outer).reference = some inner) :
      inner < g.nextId := (h.inner outer inner found).inside
  constructor
  · intro a b found
    rw [reference] at found
    split at found
    next same =>
      cases found
      refine ⟨same ▸ inside, nests.nextId_eq ▸ Nat.lt_succ_self _, nests.inner_kind, ?_, unmade⟩
      rw [Graph.get_update_of_ne _ _ (Nat.ne_of_gt inside), Graph.get_push, if_pos rfl]
      rfl
    next =>
      exact (h.inner a b found).transport (nests.nextId_eq ▸ Nat.le_succ _)
        (nests.core_eq b (old a b found))
  · intro a a' b found found'
    rw [reference] at found found'
    split at found
    next same =>
      cases found
      split at found'
      next same' => exact same.trans same'.symm
      next => exact absurd (old a' _ found') (Nat.lt_irrefl _)
    next =>
      split at found'
      next =>
        cases found'
        exact absurd (old a _ found) (Nat.lt_irrefl _)
      next => exact h.injective a a' b found found'

end

namespace Decoding

variable {visits : List Visit} {scopes : List Scope} {d d' : Decoding}

/-- Nesting arrays makes a pile that starts with the outermost one and leaves the other records
alone. -/
theorem nestArrays_spec (entry : Nat) (target : Option Nat) (counts : List UInt32) {outer : TypeId}
    (inside : outer < d.graph.nextId) :
  let d' := nestArrays entry target outer counts d
  (∀ id < d.graph.nextId, id ≠ outer → d'.graph.get id = d.graph.get id)
  ∧ (d'.graph.get outer).elementCount = (d.graph.get outer).elementCount
  ∧ ∃ inner last, (outer :: inner).IsChain (fun a b => (d'.graph.get a).reference = some b)
    ∧ inner.map (fun id => (d'.graph.get id).elementCount) = counts
    ∧ (outer :: inner).getLast? = some last
    ∧ d'.links = d.links.push ⟨.reference last, entry, target⟩
  := by
  induction counts generalizing outer d with
  | nil =>
    exact ⟨fun _ _ _ => rfl, rfl, [], outer, List.isChain_singleton outer, rfl, rfl, rfl⟩
  | cons count counts ih =>
    let r := { TypeRecord.ofKind .array none with elementCount := count }
    let d₁ := (d.push r).update outer (·.withReference d.graph.nextId)
    have nests := nests_array d.graph inside count
    have inner_lt : d.graph.nextId < d₁.graph.nextId := nests.nextId_eq ▸ Nat.lt_succ_self _
    obtain ⟨others, length, inner, last, chain, lengths, final, links⟩ := ih (d := d₁) inner_lt
    have outer_eq : (nestArrays entry target d.graph.nextId counts d₁).graph.get outer
        = (d.graph.get outer).withReference d.graph.nextId := by
      rw [others outer (Nat.lt_trans inside inner_lt) (Nat.ne_of_lt inside)]
      change ((d.graph.push r).update outer _).get outer = _
      rw [Graph.get_update_self _ _ (by rw [Graph.nextId_push]; exact Nat.lt_succ_of_lt inside),
        Graph.get_push, if_neg (Nat.ne_of_lt inside)]
    have inner_eq : (d₁.graph.get d.graph.nextId).elementCount = count := by
      change (((d.graph.push r).update outer _).get _).elementCount = _
      rw [Graph.get_update_of_ne _ _ (Nat.ne_of_gt inside), Graph.get_push, if_pos rfl]
    refine ⟨fun id old other => ?_, ?_, d.graph.nextId :: inner, last, ?_, ?_, ?_, links⟩
    · have kept : d₁.graph.get id = d.graph.get id := by
        change ((d.graph.push r).update outer _).get id = _
        rw [Graph.get_update_of_ne _ _ other, Graph.get_push, if_neg (Nat.ne_of_lt old)]
      exact (others id (Nat.lt_trans old inner_lt) (Nat.ne_of_lt old)).trans kept
    · change ((nestArrays entry target d.graph.nextId counts d₁).graph.get outer).elementCount = _
      rw [outer_eq]
      rfl
    · refine List.isChain_cons_cons.mpr ⟨?_, chain⟩
      change ((nestArrays entry target d.graph.nextId counts d₁).graph.get outer).reference = _
      rw [outer_eq]
      rfl
    · rw [List.map_cons]
      exact congrArg₂ List.cons (length.trans inner_eq) lengths
    · rw [List.getLast?_cons_cons]
      exact final

theorem stacked_nestArrays (entry : Nat) (target : Option Nat) (counts : List UInt32)
    {outer : TypeId} (h : Stacked visits d.graph) (inside : outer < d.graph.nextId)
    (made : ∀ v ∈ visits, ∀ id, v.made? = some id → id < d.graph.nextId) :
  Stacked visits (nestArrays entry target outer counts d).graph
  := by
  induction counts generalizing outer d with
  | nil => exact h
  | cons count counts ih =>
    have unmade (v : Visit) (mem : v ∈ visits) : v.made? ≠ some d.graph.nextId :=
      fun new => Nat.lt_irrefl _ (made v mem _ new)
    have nests := nests_array d.graph inside count
    rw [nestArrays]
    apply ih (h.nest inside unmade count)
    · exact nests.nextId_eq ▸ Nat.lt_succ_self _
    · exact fun v mem id new => nests.nextId_eq ▸ Nat.lt_succ_of_lt (made v mem id new)

/-! ### The invariant -/

/-- The array of a visit is open and has met the dimensions so far, or it is the first of a pile for
its dimensions, the last of which waits for the type of the elements. -/
def Laid (visits : List Visit) (scopes : List Scope) (d : Decoding) (v : Visit)
    (target : Option Nat) : Prop :=
  (∃ counts, .array v.id v.offset target counts ∈ scopes
      ∧ counts.reverse = dimensionsOf v.id visits)
    ∨ ∃ inner last, Pile d.graph (dimensionsOf v.id visits) (v.id :: inner)
      ∧ (v.id :: inner).getLast? = some last ∧ ⟨.reference last, v.offset, target⟩ ∈ d.links

/-- The arrays that visits have made are laid out so far, while some scopes are open. -/
structure Spread (visits : List Visit) (scopes : List Scope) (d : Decoding) : Prop
    extends Tracks visits scopes d where
  owner_lt : ∀ v ∈ visits, ∀ owner, v.parent.bind Scope.owner? = some owner →
    owner < d.graph.nextId
  stacked : Stacked visits d.graph
  array_kind : ∀ v ∈ visits, ∀ record target, v.contribution = .array record target →
    record.kind = .array
  laid : ∀ v ∈ visits, ∀ record target, v.contribution = .array record target →
    Laid visits scopes d v target

/-- An array whose scope is open is in no pile. -/
theorem Awaits.not_mem_of_open (h : Awaits scopes d) {id last : TypeId} {entry entry' : Nat}
    {target target' : Option Nat} {counts counts' : List UInt32} {ids : List TypeId}
    (opened : .array id entry target counts ∈ scopes) (pile : Pile d.graph counts' ids)
    (final : ids.getLast? = some last) (linked : ⟨.reference last, entry', target'⟩ ∈ d.links) :
  id ∉ ids
  := by
  intro mem
  have waits : Slot.reference id ∈ scopes.filterMap Scope.slot? :=
    List.mem_filterMap.mpr ⟨_, opened, rfl⟩
  rcases last_or_next pile.nested final mem with rfl | ⟨next, reference⟩
  · have collected : Slot.reference id ∈ d.links.toList.map Link.slot :=
      List.mem_map.mpr ⟨_, Array.mem_def.mp linked, rfl⟩
    exact (List.nodup_append.mp h.nodup).2.2 _ collected _ waits rfl
  · obtain ⟨-, missing⟩ := h.waits _ (List.mem_append_right _ waits)
    rw [missing] at reference
    cases reference

theorem Spread.kind_of_mem (h : Spread visits scopes d) {v : Visit} {record : TypeRecord}
    {target : Option Nat} {counts : List UInt32} {inner : List TypeId} {id : TypeId}
    (visited : v ∈ visits) (array : v.contribution = .array record target)
    (pile : Pile d.graph counts (v.id :: inner)) (mem : id ∈ v.id :: inner) :
  (d.graph.get id).kind = .array
  := by
  rcases List.mem_cons.mp mem with rfl | mem
  · obtain ⟨-, made⟩ := h.made v visited record (by rw [array]; rfl)
    exact (kind_of_core made).trans (h.array_kind v visited record target array)
  · obtain ⟨outer, -, reference⟩ := exists_previous pile.nested mem
    exact (h.stacked.inner outer id reference).kind

theorem Spread.transport (h : Spread visits scopes d) (graph : d'.graph = d.graph)
    (void : d'.void = d.void) (meanings : d'.meanings = d.meanings) (links : d'.links = d.links) :
  Spread visits scopes d'
  := by
  have tracked := h.toTracks.transport (graph ▸ .refl d.graph) void meanings links
  refine ⟨tracked, ?_, ?_, h.array_kind, ?_⟩
  · rw [graph]
    exact h.owner_lt
  · rw [graph]
    exact h.stacked
  · intro v mem record target array
    have laid := h.laid v mem record target array
    rw [Laid, graph, links]
    exact laid

/-- Scopes that no slot waits for do not matter. -/
theorem Spread.leave {scope : Scope} (h : Spread visits (scope :: scopes) d)
    (plain : scope.slot? = none) :
  Spread visits scopes d
  := by
  refine ⟨h.toTracks.leave plain, h.owner_lt, h.stacked, h.array_kind, ?_⟩
  intro v mem record target array
  apply (h.laid v mem record target array).imp_left
  rintro ⟨counts, opened, met⟩
  rcases List.mem_cons.mp opened with rfl | opened
  · cases plain
  · exact ⟨counts, opened, met⟩

theorem Spread.enter {scope : Scope} (h : Spread visits scopes d) (plain : scope.slot? = none)
    (belongs : scope.Belongs visits d.graph) :
  Spread visits (scope :: scopes) d
  := by
  refine ⟨h.toTracks.enter plain belongs, h.owner_lt, h.stacked, h.array_kind, ?_⟩
  intro v mem record target array
  apply (h.laid v mem record target array).imp_left
  rintro ⟨counts, opened, met⟩
  exact ⟨counts, List.mem_cons_of_mem _ opened, met⟩

/-! ### Closing scopes -/

theorem Spread.closeFunction {id : TypeId} (h : Spread visits (.function id :: scopes) d) :
  Spread visits scopes (d.close (.function id))
  := by
  obtain ⟨-, function⟩ := h.belongs _ List.mem_cons_self
  have agrees := agrees_count d.graph id fun r => UInt32.ofNat r.members.size
  have stacked := h.stacked.congr agrees.nextId_eq agrees.core_eq agrees.reference_eq
  refine ⟨h.toTracks.close, ?_, stacked, h.array_kind, ?_⟩
  · exact fun v mem owner owned =>
      (kept_nextId_le (owner + 1)).close (h.owner_lt v mem owner owned) (.function id)
  · intro v mem record target array
    rcases (h.leave rfl).laid v mem record target array with opened | ⟨inner, last, pile, rest⟩
    · exact .inl opened
    · refine .inr ⟨inner, last, pile.congr fun other mem' => ?_, rest⟩
      have other_ne : other ≠ id := by
        rintro rfl
        rw [h.kind_of_mem mem array pile mem'] at function
        cases function
      have same : ((d.close (.function id)).graph.get other) = d.graph.get other :=
        Graph.get_update_of_ne _ _ other_ne
      rw [same]
      exact ⟨fun _ reference => reference, rfl⟩

/-- An array that ends becomes the first of a pile. -/
theorem Spread.closeArray {id : TypeId} {entry : Nat} {target : Option Nat} {counts : List UInt32}
    (h : Spread visits (.array id entry target counts :: scopes) d) :
  Spread visits scopes (d.close (.array id entry target counts))
  := by
  obtain ⟨inside, -⟩ := h.belongs _ List.mem_cons_self
  let d₁ := d.update id fun r => { r with elementCount := counts.reverse.headD 0 }
  have agrees := agrees_count d.graph id fun _ => counts.reverse.headD 0
  have nextId_eq : d₁.graph.nextId = d.graph.nextId := agrees.nextId_eq
  have inside₁ : id < d₁.graph.nextId := nextId_eq.symm ▸ inside
  have made (v : Visit) (mem : v ∈ visits) (id : TypeId) (new : v.made? = some id) :
      id < d₁.graph.nextId := nextId_eq.symm ▸ h.made_lt mem new
  obtain ⟨others, length, inner, last, chain, lengths_eq, final, links⟩ :=
    nestArrays_spec (d := d₁) entry target counts.reverse.tail inside₁
  refine ⟨h.toTracks.close, ?_, ?_, h.array_kind, ?_⟩
  · exact fun v mem owner owned =>
      (kept_nextId_le (owner + 1)).close (h.owner_lt v mem owner owned) _
  · have stacked : Stacked visits d₁.graph :=
      h.stacked.congr agrees.nextId_eq agrees.core_eq agrees.reference_eq
    exact stacked_nestArrays entry target _ stacked inside₁ made
  · intro v mem record target' array
    rcases h.laid v mem record target' array with
      ⟨counts', opened, met⟩ | ⟨inner', last', pile, final', linked⟩
    · rcases List.mem_cons.mp opened with same | opened
      · cases same
        refine .inr ⟨inner, last, ⟨chain, ?_⟩, final, ?_⟩
        · rw [← met, lengths_eq_headD_cons, List.map_cons]
          refine congrArg₂ List.cons (length.trans ?_) lengths_eq
          change ((d.graph.update v.id _).get v.id).elementCount = _
          rw [Graph.get_update_self _ _ inside]
        · exact links ▸ Array.mem_push_self
      · exact .inl ⟨counts', opened, met⟩
    · have other (other : TypeId) (mem' : other ∈ v.id :: inner') : other ≠ id := by
        rintro rfl
        exact h.not_mem_of_open List.mem_cons_self pile final' linked mem'
      refine .inr ⟨inner', last', pile.congr fun other' mem' => ?_, final', ?_⟩
      · have kind := h.kind_of_mem mem array pile mem'
        have old : other' < d₁.graph.nextId := by
          rw [nextId_eq]
          exact lt_nextId_of_array kind
        have same : (d.close (.array id entry target counts)).graph.get other'
            = d.graph.get other' :=
          (others other' old (other other' mem')).trans
            (Graph.get_update_of_ne _ _ (other other' mem'))
        rw [same]
        exact ⟨fun _ reference => reference, rfl⟩
      · exact links ▸ Array.mem_push_of_mem _ linked

theorem Spread.close {scope : Scope} (h : Spread visits (scope :: scopes) d) :
  Spread visits scopes (d.close scope)
  := by
  cases scope with
  | other | aggregate | enumeration => exact h.leave rfl
  | function id => exact h.closeFunction
  | array id entry target counts => exact h.closeArray

theorem Spread.closeFrom (depth : Int) {open' : List (Int × Scope)}
    (h : Spread visits (open'.map Prod.snd) d) :
  Spread visits ((closeFrom depth open' d).scopes.map Prod.snd) (closeFrom depth open' d)
  := by
  induction open' generalizing d with
  | nil => exact h.transport rfl rfl rfl rfl
  | cons first others ih =>
    obtain ⟨scopeDepth, scope⟩ := first
    rw [Decoding.closeFrom]
    split
    · exact h.transport rfl rfl rfl rfl
    · exact ih h.close

theorem Spread.closeAll {open' : List (Int × Scope)}
    (h : Spread visits (open'.map Prod.snd) d) :
  Spread visits [] (closeAll open' d)
  := by
  induction open' generalizing d with
  | nil => exact h.transport rfl rfl rfl rfl
  | cons first others ih => exact ih h.close

/-! ### Visits -/

variable {v w : Visit} {target : Option Nat}

theorem mem_links_add {entry : Nat} {c : Contribution} {l : Link} (mem : l ∈ d.links) :
  l ∈ (d.add entry c).links
  := by
  cases c with
  | derived | subroutine | subprogram | object | member => exact Array.mem_push_of_mem _ mem
  | nothing | plain | array | aggregate | enumeration | enumerator | synonym => exact mem
  | dimension count =>
    simp only [add, addDimension]
    split <;> exact mem

/-- A contribution changes neither the references nor the lengths of the records that are there. -/
theorem get_add {c : Contribution} (entry : Nat) {id : TypeId} (inside : id < d.graph.nextId) :
  ((d.add entry c).graph.get id).reference = (d.graph.get id).reference
    ∧ ((d.add entry c).graph.get id).elementCount = (d.graph.get id).elementCount
  := by
  cases c with
  | plain r | derived r | array r | aggregate r | enumeration r | subroutine r | subprogram r
  | object r =>
    rw [graph_add_record rfl, Graph.get_push, if_neg (Nat.ne_of_lt inside)]
    exact ⟨rfl, rfl⟩
  | nothing | synonym => exact ⟨rfl, rfl⟩
  | dimension count =>
    simp only [add, addDimension]
    split <;> exact ⟨rfl, rfl⟩
  | member owner name offset =>
    let m : Member := ⟨name, d.void, offset⟩
    have keeps {α : Type} (field : TypeRecord → α) := d.graph.field_get_update field owner
      (·.addMember m)
    exact ⟨keeps TypeRecord.reference (fun _ => rfl) id,
      keeps TypeRecord.elementCount (fun _ => rfl) id⟩
  | enumerator owner e =>
    have keeps {α : Type} (field : TypeRecord → α) := d.graph.field_get_update field owner
      (·.addEnumerator e)
    exact ⟨keeps TypeRecord.reference (fun _ => rfl) id,
      keeps TypeRecord.elementCount (fun _ => rfl) id⟩

theorem stacked_add {c : Contribution} {parent : Option Scope} (h : Stacked visits d.graph)
    (fits : c.Fits parent) (entry : Nat) :
  Stacked visits (d.add entry c).graph
  := by
  cases c with
  | plain | derived | array | aggregate | enumeration | subroutine | subprogram | object =>
    rw [graph_add_record rfl]
    exact h.push (bare_of_fits rfl fits).reference
  | nothing | synonym => exact h
  | dimension count =>
    simp only [add, addDimension]
    split <;> exact h
  | member owner name offset =>
    let m : Member := ⟨name, d.void, offset⟩
    exact h.congr (d.graph.nextId_update owner _)
      (d.graph.field_get_update core owner (·.addMember m) fun _ => rfl)
      (d.graph.field_get_update TypeRecord.reference owner (·.addMember m) fun _ => rfl)
  | enumerator owner e =>
    exact h.congr (d.graph.nextId_update owner _)
      (d.graph.field_get_update core owner (·.addEnumerator e) fun _ => rfl)
      (d.graph.field_get_update TypeRecord.reference owner (·.addEnumerator e) fun _ => rfl)

theorem dimensionsOf_singleton (owner : TypeId) (v : Visit) :
  dimensionsOf owner [v] = if v.parent.bind Scope.owner? = some owner then
    v.contribution.dimension?.toList else []
  := by
  rw [dimensionsOf, childrenOf, List.filter_singleton]
  by_cases here : v.parent.bind Scope.owner? = some owner
  · cases dimension : v.contribution.dimension? <;> simp [here, dimension]
  · simp [here]

/-- An array that has just been made has no dimensions. -/
theorem Spread.dimensionsOf_eq_nil (h : Spread visits scopes d) {owner : TypeId}
    (new : d.graph.nextId ≤ owner) :
  dimensionsOf owner visits = []
  := by
  have none : childrenOf owner visits = [] := by
    rw [childrenOf_eq_nil]
    exact fun v mem owned => Nat.not_lt_of_le new (h.owner_lt v mem owner owned)
  rw [dimensionsOf, none]
  rfl

theorem exists_of_parentScope {depth : Int} {scope : Scope}
    (h : d.parentScope depth = some scope) :
  ∃ outer, d.scopes = (depth - 1, scope) :: outer
  := by
  rw [parentScope] at h
  split at h
  next scopeDepth scope' outer scopes =>
    split at h
    next here =>
      cases h
      exact ⟨outer, here ▸ scopes⟩
    next => cases h
  next => cases h

theorem addDimension_of_scopes {depth : Int} {id : TypeId} {entry : Nat} {counts : List UInt32}
    {outer : List (Int × Scope)}
    (scopes : d.scopes = (depth, .array id entry target counts) :: outer)
    (count : UInt32) :
  d.addDimension count
    = { d with scopes := (depth, .array id entry target (count :: counts)) :: outer }
  := by
  unfold addDimension
  rw [scopes]

/-- The pile of an array that has ended stays so with an entry that is none of its dimensions. -/
theorem Spread.laid_of_pile (h : Spread visits scopes d) {scopes' : List Scope}
    {record : TypeRecord} {inner : List TypeId} {last : TypeId} (mem : w ∈ visits)
    (array : w.contribution = .array record target)
    (pile : Pile d.graph (dimensionsOf w.id visits) (w.id :: inner))
    (final : (w.id :: inner).getLast? = some last)
    (linked : ⟨.reference last, w.offset, target⟩ ∈ d.links) (other : dimensionsOf w.id [v] = []) :
  Laid (visits ++ [v]) scopes' (d.add v.offset v.contribution) w target
  := by
  refine .inr ⟨inner, last, ?_, final, mem_links_add linked⟩
  rw [dimensionsOf_append, other, List.append_nil]
  refine pile.congr fun id mem' => ?_
  have kind := h.kind_of_mem mem array pile mem'
  have inside : id < d.graph.nextId :=
    lt_nextId_of_array kind
  exact (get_add v.offset inside).imp_left fun same next reference => same.trans reference

/-- A dimension is one more for the array whose scope is the innermost one, and for no other. -/
theorem Spread.laid_dimension (h : Spread visits (d.scopes.map Prod.snd) d) {count : UInt32}
    (hc : v.contribution = .dimension count) (fits : v.contribution.Fits v.parent)
    (hparent : v.parent = d.parentScope v.depth) (mem : w ∈ visits) {record : TypeRecord}
    (array : w.contribution = .array record target) :
  Laid (visits ++ [v]) ((d.add v.offset v.contribution).scopes.map Prod.snd)
    (d.add v.offset v.contribution) w target
  := by
  rw [hc] at fits
  obtain ⟨id, entry, target', counts, parent⟩ := fits
  obtain ⟨outer, scopes⟩ := exists_of_parentScope (hparent.symm.trans parent)
  have innermost : .array id entry target' counts ∈ d.scopes.map Prod.snd := by
    rw [scopes]
    exact List.mem_cons_self
  have dimension : dimensionsOf w.id [v] = if id = w.id then [count] else [] := by
    rw [dimensionsOf_singleton, parent, hc]
    by_cases same : id = w.id <;> simp [Scope.owner?, same, Contribution.dimension?]
  rcases h.laid w mem record target array with
    ⟨counts', opened, met⟩ | ⟨inner, last, pile, final, linked⟩
  · refine .inl ?_
    rw [hc, dimensionsOf_append, dimension, ← met]
    change ∃ counts, _ ∈ (d.addDimension count).scopes.map Prod.snd ∧ _
    rw [addDimension_of_scopes scopes]
    rw [scopes, List.map_cons, List.mem_cons] at opened
    rcases opened with same | opened
    · cases same
      refine ⟨count :: counts, List.mem_cons_self, ?_⟩
      rw [if_pos rfl, List.reverse_cons]
    · -- No two slots wait for the same array.
      have other : id ≠ w.id := by
        rintro rfl
        have nodup := (List.nodup_append.mp h.nodup).2.1
        rw [scopes] at nodup
        have first : .reference w.id ∉ (outer.map Prod.snd).filterMap Scope.slot? :=
          (List.nodup_cons.mp nodup).1
        exact first (List.mem_filterMap.mpr ⟨_, opened, rfl⟩)
      refine ⟨counts', List.mem_cons_of_mem _ opened, ?_⟩
      rw [if_neg other, List.append_nil]
  · have other : id ≠ w.id := by
      rintro rfl
      exact h.not_mem_of_open innermost pile final linked List.mem_cons_self
    exact h.laid_of_pile mem array pile final linked (by rw [dimension, if_neg other])

/-- After an entry that is no dimension the arrays are laid out as before. -/
theorem Spread.laid_other (h : Spread visits (d.scopes.map Prod.snd) d)
    (none : v.contribution.dimension? = none) (mem : w ∈ visits) {record : TypeRecord}
    (array : w.contribution = .array record target) :
  Laid (visits ++ [v]) ((d.add v.offset v.contribution).scopes.map Prod.snd)
    (d.add v.offset v.contribution) w target
  := by
  have other : dimensionsOf w.id [v] = [] := by
    rw [dimensionsOf_singleton, none]
    split <;> rfl
  rcases h.laid w mem record target array with
    ⟨counts, opened, met⟩ | ⟨inner, last, pile, final, linked⟩
  · have scopes : (d.add v.offset v.contribution).scopes = d.scopes := by
      cases hc : v.contribution with
      | dimension =>
        rw [hc] at none
        cases none
      | _ => rfl
    rw [Laid, scopes, dimensionsOf_append, other, List.append_nil]
    exact .inl ⟨counts, opened, met⟩
  · exact h.laid_of_pile mem array pile final linked other

/-- A contribution that fits the scope of the parent keeps the arrays laid out. -/
theorem Spread.add (h : Spread visits (d.scopes.map Prod.snd) d) (hid : v.id = d.graph.nextId)
    (fresh : ∀ w ∈ visits, w.offset ≠ v.offset) (fits : v.contribution.Fits v.parent)
    (hparent : v.parent = d.parentScope v.depth) :
  Spread (visits ++ [v]) ((opened v.id v.offset v.contribution).toList
    ++ (d.add v.offset v.contribution).scopes.map Prod.snd) (d.add v.offset v.contribution)
  := by
  have open_mem (scope : Scope) (found : v.parent = some scope) :
      scope ∈ d.scopes.map Prod.snd := parentScope_mem (hparent ▸ found)
  have owner_lt (w : Visit) (mem : w ∈ visits ++ [v]) (owner : TypeId)
      (owned : w.parent.bind Scope.owner? = some owner) : owner < d.graph.nextId := by
    rcases List.mem_append.mp mem with mem | mem
    · exact h.owner_lt w mem owner owned
    · obtain rfl := List.mem_singleton.mp mem
      obtain ⟨scope, found, owned⟩ := Option.bind_eq_some_iff.mp owned
      exact owner_lt_of_belongs (h.belongs scope (open_mem scope found)) owned
  have new (id : TypeId) (made : v.made? = some id) : d.graph.nextId ≤ id := by
    obtain ⟨r, -, rfl⟩ := Option.map_eq_some_iff.mp made
    exact Nat.le_of_eq hid.symm
  refine ⟨h.toTracks.add hid fresh fits open_mem, ?_, ?_, ?_, ?_⟩
  · exact fun w mem owner owned =>
      (kept_nextId_le (owner + 1)).add (owner_lt w mem owner owned) fits
  · exact stacked_add (h.stacked.visit new) fits v.offset
  · intro w mem record target array
    rcases List.mem_append.mp mem with mem | mem
    · exact h.array_kind w mem record target array
    · obtain rfl := List.mem_singleton.mp mem
      rw [array] at fits
      exact fits.2.2
  · intro w mem record target array
    rcases List.mem_append.mp mem with mem | mem
    · have laid : Laid (visits ++ [v]) ((d.add v.offset v.contribution).scopes.map Prod.snd)
          (d.add v.offset v.contribution) w target := by
        cases hc : v.contribution.dimension? with
        | none => exact h.laid_other hc mem array
        | some count =>
          have dimension : v.contribution = .dimension count := by
            cases hv : v.contribution <;> rw [hv] at hc <;> cases hc
            rfl
          exact h.laid_dimension dimension fits hparent mem array
      exact laid.imp_left fun ⟨counts, opened, met⟩ =>
        ⟨counts, List.mem_append_right _ opened, met⟩
    · obtain rfl := List.mem_singleton.mp mem
      refine .inl ⟨[], List.mem_append_left _ ?_, ?_⟩
      · rw [array]
        exact List.mem_cons_self
      · rw [dimensionsOf_append, h.dimensionsOf_eq_nil (Nat.le_of_eq hid.symm),
          dimensionsOf_singleton, array]
        split <;> rfl

/-- The scope that a contribution opens stays open if the entry has children. -/
theorem Spread.enterEntry {scope : Option Scope}
    (h : Spread visits (scope.toList ++ d.scopes.map Prod.snd) d) (depth : Int)
    (hasChildren : Bool) :
  Spread visits ((d.enter depth hasChildren scope).scopes.map Prod.snd)
    (d.enter depth hasChildren scope)
  := by
  unfold Decoding.enter
  split
  next =>
    cases scope with
    | none =>
      have opened : Spread visits (.other :: d.scopes.map Prod.snd) d := h.enter rfl trivial
      exact opened.transport rfl rfl rfl rfl
    | some scope => exact h.transport rfl rfl rfl rfl
  next =>
    cases scope with
    | none => exact h
    | some scope =>
      have closed := h.close
      rw [← scopes_close scope d] at closed
      exact closed

/-- The arrays are laid out throughout a walk without a fault. -/
theorem followed_spread (s : Sections) :
  Followed s fun visits d => Spread visits (d.scopes.map Prod.snd) d
  := by
  constructor
  · intro visits d u depth e v h hv fresh
    obtain ⟨-, rfl, -, faithful, parent, id, notices, result⟩ := visit_of_ok hv
    rw [result]
    have arrived : Spread visits (((d.arrive v.depth).note notices).scopes.map Prod.snd)
        ((d.arrive v.depth).note notices) := (h.closeFrom v.depth).transport rfl rfl rfl rfl
    have added := arrived.add id fresh (Contribution.fits_read faithful) parent
    exact added.enterEntry v.depth v.entry.hasChildren
  · intro visits d h
    rw [scopes_closeAll]
    exact h.closeAll

theorem spread_start (size : Nat) :
  Spread [] [] (start .empty size)
  := by
  have none (id : TypeId) : ((start .empty size).graph.get id).reference = none := by
    rw [get_start]
    split
    · rfl
    · split <;> rfl
  refine ⟨tracks_start size, fun v mem => absurd mem List.not_mem_nil, ⟨?_, ?_⟩,
    fun v mem => absurd mem List.not_mem_nil, fun v mem => absurd mem List.not_mem_nil⟩
  · intro outer inner reference
    rw [none] at reference
    cases reference
  · intro outer outer' inner reference
    rw [none] at reference
    cases reference

theorem spread_walk {s : Sections} {size : Nat}
    (walked : s.walk s.units .empty size = (d, none)) :
  Spread (s.visits s.units.items .empty size) [] d
  := by
  obtain ⟨spread, closed⟩ := Sections.followed_walk (followed_spread s) (spread_start size) walked
  rw [closed] at spread
  exact spread

end Decoding

end CompactTypes.Dwarf

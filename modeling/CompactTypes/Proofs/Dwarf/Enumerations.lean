import CompactTypes.Proofs.Dwarf.Decoded
import CompactTypes.Proofs.Dwarf.Forest
import Mathlib.Data.List.TakeWhile

/-!
# Enumerations

The enumerators of a decoded enumeration are those among its children, in order, and each of them
gets the number that its attribute is read as, `Sections.enumerators_decode`.  A number of a fixed
width is read as if it had a sign, `Form.reading`, so that it becomes negative when its top bit is
set.  In `twoHundreds` the number 200 is -56 in one byte, and 200 in every other form.
-/

namespace CompactTypes.Dwarf

/-! ### Numbers in forms -/

namespace Form

/-- The value by which a form carries a plain number, if it can. -/
def carry? (form : Form) (c : Nat) : Option Value :=
  match form with
  | data width => if c < wordValues width then some (.data width c) else none
  | unsigned => some (.unsigned c)
  | signed | implicitConst => some (.signed c)
  | _ => none

/-- The number, with a sign, as which a plain number in a form is read. -/
def reading (form : Form) (c : Nat) : Int :=
  match form with
  | data width => if 2 * c < wordValues width then c else c - wordValues width
  | _ => c

end Form

theorem Reader.lt_of_word {order : ByteOrder} {width v : Nat} {i j : Input}
    (h : word order width i = .ok (v, j)) :
  v < wordValues width
  := by
  obtain ⟨bytes, k, read, h⟩ := bind_ok h
  cases h
  obtain ⟨inside, rfl, -⟩ := block_ok read
  have short := order.decode_lt (byteList (i.bytes.extract i.place (i.place + width)))
  have length : (byteList (i.bytes.extract i.place (i.place + width))).length = width := by
    simp [byteList]
    omega
  rwa [length] at short

theorem Value.eq_of_signed {n : Int} {c : Nat} (h : (signed n).unsigned? = some c) :
  n = c
  := by
  rw [unsigned?] at h
  split at h
  next nonneg => rw [← Option.some.inj h, Int.toNat_of_nonneg nonneg]
  next => cases h

namespace Form

variable {form : Form} {c : Nat} {value : Value}

theorem carry?_of_readDirect {encoding : Encoding} {constant : Option Int} {i j : Input}
    (plain : (form.carry? 0).isSome)
    (read : Value.readDirect encoding constant form i = .ok (value, j))
    (number : value.unsigned? = some c) :
  form.carry? c = some value
  := by
  cases form with
  | data width =>
    obtain ⟨v, k, word, h⟩ := Reader.bind_ok read
    cases h
    cases number
    exact if_pos (Reader.lt_of_word word)
  | unsigned =>
    obtain ⟨v, k, -, h⟩ := Reader.bind_ok read
    cases h
    cases number
    rfl
  | signed =>
    obtain ⟨v, k, -, h⟩ := Reader.bind_ok read
    cases h
    rw [Value.eq_of_signed number]
    rfl
  | implicitConst =>
    cases constant with
    | none => cases read
    | some v =>
      cases read
      rw [Value.eq_of_signed number]
      rfl
  | _ => cases plain

/-- A constant that has been read in a form for plain numbers is what the form carries its number
by. -/
theorem carry?_of_read {encoding : Encoding} {spec : Specification} {i j : Input}
    (name : spec.name = .constValue) (plain : (spec.form.carry? 0).isSome)
    (read : Value.read encoding spec i = .ok (value, j)) (number : value.unsigned? = some c) :
  spec.form.carry? c = some value
  := by
  obtain ⟨stored, k, direct, h⟩ := Reader.bind_ok read
  have named : Value.named encoding .constValue stored = stored := by
    cases stored with
    | data => simp [Value.named, Value.isSectionOffset]
    | _ => rfl
  rw [name, named] at h
  cases h
  have standing : spec.form ≠ .indirect := by
    intro same
    rw [same] at plain
    cases plain
  rw [Value.readStored, if_neg standing] at direct
  exact carry?_of_readDirect plain direct number

/-- Only a number of a fixed width whose top bit is set is not read as it is. -/
theorem reading_eq_iff (carried : form.carry? c = some value) :
  form.reading c = c ↔ ∀ width, form = .data width → 2 * c < wordValues width
  := by
  cases form with
  | data width =>
    rw [carry?] at carried
    split at carried
    next fits =>
      simp only [reading, Form.data.injEq, forall_eq']
      split <;> omega
    next => cases carried
  | _ => exact iff_of_true rfl fun width data => Form.noConfusion data

theorem reading_bounds (carried : form.carry? c = some value) (small : c < 0x8000000000000000) :
  -0x8000000000000000 ≤ form.reading c ∧ form.reading c < 0x8000000000000000
  := by
  cases form with
  | data width =>
    rw [reading]
    split <;> omega
  | _ =>
    rw [reading]
    · omega
    · exact fun width => Form.noConfusion

theorem signExtend_eq {width : Nat} (h : c < wordValues width) :
  Value.signExtend width c = (data width).reading c
  := by
  have remainder : (c : Int) % (wordValues width : Int) = c := by
    apply Int.emod_eq_of_lt <;> omega
  rw [Value.signExtend, Int.bmod_def, remainder, reading]
  split <;> split <;> omega

theorem signed?_of_carry (carried : form.carry? c = some value) (small : c < 0x8000000000000000) :
  value.signed? = some (form.reading c)
  := by
  cases form with
  | data width =>
    rw [carry?] at carried
    split at carried
    next fits =>
      cases carried
      exact congrArg some (signExtend_eq fits)
    next => cases carried
  | unsigned =>
    cases carried
    exact if_pos (by rw [wordValues_eight]; omega)
  | signed | implicitConst =>
    cases carried
    rfl
  | _ => cases carried

end Form

/-- The value of an enumerator is the number as which its attribute is read. -/
theorem Entry.enumeratorValue_of_carry {e : Entry} {form : Form} {c : Nat} {constant : Value}
    (found : e.value? .constValue = .ok (some constant))
    (carried : form.carry? c = some constant) (small : c < 0x8000000000000000) :
  ∃ value, e.enumeratorValue = .ok value ∧ value.toInt = form.reading c
  := by
  obtain ⟨lower, upper⟩ := Form.reading_bounds carried small
  refine ⟨Int64.ofInt (form.reading c), ?_, Int64.toInt_ofInt_of_le lower upper⟩
  rw [enumeratorValue, found]
  change Except.ok (Int64.ofInt ((constant.signed?.or _).getD 0)) = _
  rw [Form.signed?_of_carry carried small]
  rfl

/-! ### Open enumerations -/

namespace Decoding

variable {s : Sections} {u : CompilationUnit} {depth depth' : Int} {owner : TypeId}
  {d d' : Decoding}

/-- The enumeration at a position is open, its entry is at the given depth, and the scopes inside
of it are deeper. -/
def Within (depth : Int) (owner : TypeId) (d : Decoding) : Prop :=
  ∃ inner outer, d.scopes = inner ++ (depth, .enumeration owner) :: outer
    ∧ ∀ p ∈ inner, depth < p.1

theorem scopes_closeFrom (depth : Int) (scopes : List (Int × Scope)) (d : Decoding) :
  (closeFrom depth scopes d).scopes = scopes.dropWhile fun p => depth ≤ p.1
  := by
  induction scopes generalizing d with
  | nil => rfl
  | cons first scopes ih =>
    rw [closeFrom]
    split
    next shallower => rw [List.dropWhile_cons_of_neg (by simpa using shallower)]
    next deeper => rw [List.dropWhile_cons_of_pos (by simpa using deeper), ih]

/-- An entry ends none of the scopes around one that is less deep. -/
theorem scopes_arrive {inner outer : List (Int × Scope)} {scope : Scope}
    (scopes : d.scopes = inner ++ (depth, scope) :: outer) (deeper : depth < depth') :
  (d.arrive depth').scopes
    = inner.dropWhile (fun p => depth' ≤ p.1) ++ (depth, scope) :: outer
  := by
  rw [arrive, scopes_closeFrom, scopes, List.dropWhile_append,
    List.dropWhile_cons_of_neg (by simpa using deeper)]
  split
  next none => rw [List.isEmpty_iff.mp none, List.nil_append]
  next => rfl

theorem Within.arrive (h : d.Within depth owner) (deeper : depth < depth') :
  (d.arrive depth').Within depth owner
  := by
  obtain ⟨inner, outer, scopes, inside⟩ := h
  exact ⟨_, outer, scopes_arrive scopes deeper,
    fun p mem => inside p ((List.dropWhile_sublist _).mem mem)⟩

/-- The children of an open enumeration find its scope. -/
theorem Within.parentScope (h : d.Within depth owner) :
  (d.arrive (depth + 1)).parentScope (depth + 1) = some (.enumeration owner)
  := by
  obtain ⟨inner, outer, scopes, inside⟩ := h
  have ended : inner.dropWhile (fun p => depth + 1 ≤ p.1) = [] := by
    rw [List.dropWhile_eq_nil_iff]
    exact fun p mem => decide_eq_true (inside p mem)
  rw [Decoding.parentScope, scopes_arrive scopes (Int.lt_succ depth), ended]
  exact if_pos (by omega)

theorem Within.add (h : d.Within depth owner) (entry : Nat) (c : Contribution) :
  (d.add entry c).Within depth owner
  := by
  cases c with
  | dimension count =>
    obtain ⟨inner, outer, scopes, inside⟩ := h
    change (d.addDimension count).Within depth owner
    unfold addDimension
    split
    next top id offset target counts rest top_eq =>
      -- The array that takes the dimension lies inside of the enumeration.
      cases inner with
      | nil =>
        rw [scopes] at top_eq
        cases top_eq
      | cons p inner =>
        rw [scopes, List.cons_append, List.cons.injEq] at top_eq
        obtain ⟨rfl, rfl⟩ := top_eq
        refine ⟨(top, .array id offset target (count :: counts)) :: inner, outer, rfl, ?_⟩
        exact List.forall_mem_cons.mpr (List.forall_mem_cons.mp inside)
    next => exact ⟨inner, outer, scopes, inside⟩
  | _ => exact h

theorem Within.enter (h : d.Within depth owner) (deeper : depth < depth') (hasChildren : Bool)
    (scope : Option Scope) :
  (d.enter depth' hasChildren scope).Within depth owner
  := by
  obtain ⟨inner, outer, scopes, inside⟩ := h
  unfold Decoding.enter
  split
  next =>
    refine ⟨(depth', scope.getD .other) :: inner, outer, congrArg _ scopes, ?_⟩
    exact List.forall_mem_cons.mpr ⟨deeper, inside⟩
  next =>
    cases scope with
    | none => exact ⟨inner, outer, scopes, inside⟩
    | some scope => exact ⟨inner, outer, (scopes_close scope d).trans scopes, inside⟩

/-- An enumeration is open until an entry that is not deeper than its own is visited. -/
theorem Within.visit (h : d.Within depth owner) (deeper : depth < depth') (e : Entry) :
  (d.visit s u depth' e).1.Within depth owner
  := by
  have noted (notices : List Fault) : ((d.arrive depth').note notices).Within depth owner :=
    h.arrive deeper
  unfold Decoding.visit
  dsimp only
  split
  next =>
    obtain ⟨inner, outer, scopes, inside⟩ := noted _
    exact ⟨inner, outer, (scopes_abandon _ _).trans scopes, inside⟩
  next => exact ((noted _).add _ _).enter deeper _ _

theorem Within.visitAll {entries : List (Int × Entry)} (h : d.Within depth owner)
    (deeper : ∀ item ∈ entries, depth < item.1) (walked : visitAll s u entries d = (d', none)) :
  d'.Within depth owner
  := by
  induction entries generalizing d with
  | nil =>
    cases walked
    exact h
  | cons item entries ih =>
    obtain ⟨first, others⟩ := List.forall_mem_cons.mp deeper
    have visited := h.visit (s := s) (u := u) first item.2
    rw [Decoding.visitAll] at walked
    split at walked
    next => cases walked
    next d₁ step =>
      rw [step] at visited
      exact ih visited others walked

/-- A child of an enumeration finds the scope of the enumeration. -/
theorem parent_of_child {front between back : List (Int × Entry)} {parent child : Entry}
    (walked : visitAll s u
      (front ++ (depth, parent) :: (between ++ (depth + 1, child) :: back)) d = (d', none))
    (tag : parent.tag = .enumerationType) (hasChildren : parent.hasChildren = true)
    (deeper : ∀ item ∈ between, depth < item.1) :
  let visits := entryVisits s u
    (front ++ (depth, parent) :: (between ++ (depth + 1, child) :: back)) d
  ∃ p ∈ visits, ∃ v ∈ visits, p.place = (u, depth, parent) ∧ v.place = (u, depth + 1, child)
    ∧ (∃ r, p.contribution = .enumeration r ∧ r.kind = .enum)
    ∧ v.parent = some (.enumeration p.id) ∧ v.Faithful s
  := by
  obtain ⟨d₁, -, walked, visits_eq⟩ := exists_of_visitAll_append walked
  obtain ⟨p, hp⟩ := exists_visitOf?_of_visitAll walked
  obtain ⟨rest, visits_eq₁⟩ := visitAll_of_ok hp (between ++ (depth + 1, child) :: back)
  rw [rest] at walked
  obtain ⟨d₂, within, walked, visits_eq₂⟩ := exists_of_visitAll_append walked
  obtain ⟨v, hv⟩ := exists_visitOf?_of_visitAll walked
  obtain ⟨-, visits_eq₃⟩ := visitAll_of_ok hv back
  obtain ⟨unit, depth_eq, entry, faithful, -, -, notices, result⟩ := visit_of_ok hp
  obtain ⟨unit', depth_eq', entry', faithful', parent_eq, -, -⟩ := visit_of_ok hv
  obtain ⟨r, contribution, kind⟩ : ∃ r, p.contribution = .enumeration r ∧ r.kind = .enum := by
    rw [Visit.Faithful, entry] at faithful
    exact (Contribution.stems_read faithful).of_enumerationType tag
  have opened : Within depth p.id (d₁.visit s u depth parent).1 := by
    refine ⟨[], ((d₁.arrive depth).add p.offset p.contribution).scopes, ?_,
      fun item mem => absurd mem List.not_mem_nil⟩
    rw [result, after, contribution, entry, hasChildren, depth_eq]
    rfl
  have found := (opened.visitAll deeper within).parentScope
  rw [visits_eq, visits_eq₁, visits_eq₂, visits_eq₃]
  refine ⟨p, by simp, v, by simp, ?_, ?_, ⟨r, contribution, kind⟩, parent_eq.trans found, faithful'⟩
  · rw [Visit.place, unit, depth_eq, entry]
  · rw [Visit.place, unit', depth_eq', entry']

end Decoding

/-! ### Enumerators of records -/

/-- The enumerator that a contribution adds to the record at a position. -/
def Contribution.enumerator? (owner : TypeId) : Contribution → Option Enumerator
  | enumerator owner' e => if owner' = owner then some e else none
  | _ => none

/-- The enumerators that visits add to the record at a position, in order. -/
def enumeratorsOf (owner : TypeId) (visits : List Visit) : List Enumerator :=
  visits.filterMap fun v => v.contribution.enumerator? owner

namespace Decoding

variable {s : Sections} {d : Decoding}

/-- A property of records is the same after the end of a scope: it depends neither on a reference
nor on a number of elements, and a new inner array has it no more than no record at all. -/
structure Steady {α : Type} (field : TypeRecord → α) : Prop where
  reference : ∀ target r, field (r.withReference target) = field r
  elementCount : ∀ n r, field { r with elementCount := n } = field r
  array : ∀ n, field { TypeRecord.ofKind .array none with elementCount := n } = field default

section

variable {α : Type} {field : TypeRecord → α}

theorem Steady.nestArrays (steady : Steady field) (entry : Nat) (target : Option Nat)
    (counts : List UInt32) (outer : TypeId) (d : Decoding) (id : TypeId) :
  field ((nestArrays entry target outer counts d).graph.get id) = field (d.graph.get id)
  := by
  induction counts generalizing outer d with
  | nil => rfl
  | cons count counts ih =>
    rw [Decoding.nestArrays, ih]
    have pushed := d.graph.field_get_push field (steady.array count) id
    exact (Graph.field_get_update field _ outer _ (steady.reference _) id).trans pushed

theorem Steady.close (steady : Steady field) (scope : Scope) (d : Decoding) (id : TypeId) :
  field ((d.close scope).graph.get id) = field (d.graph.get id)
  := by
  cases scope with
  | other | aggregate | enumeration => rfl
  | function owner =>
    exact d.graph.field_get_update field owner _ (fun r => steady.elementCount _ r) id
  | array owner entry target counts =>
    refine (steady.nestArrays entry target _ owner _ id).trans ?_
    exact d.graph.field_get_update field owner _ (steady.elementCount _) id

theorem Steady.closeFrom (steady : Steady field) (depth : Int) (scopes : List (Int × Scope))
    (d : Decoding) (id : TypeId) :
  field ((closeFrom depth scopes d).graph.get id) = field (d.graph.get id)
  := by
  induction scopes generalizing d with
  | nil => rfl
  | cons first scopes ih =>
    rw [Decoding.closeFrom]
    split
    · rfl
    · rw [ih, steady.close]

theorem Steady.closeAll (steady : Steady field) (scopes : List (Int × Scope)) (d : Decoding)
    (id : TypeId) :
  field ((closeAll scopes d).graph.get id) = field (d.graph.get id)
  := by
  induction scopes generalizing d with
  | nil => rfl
  | cons first scopes ih => rw [Decoding.closeAll, ih, steady.close]

theorem Steady.enter (steady : Steady field) (d : Decoding) (depth : Int) (hasChildren : Bool)
    (scope : Option Scope) (id : TypeId) :
  field ((d.enter depth hasChildren scope).graph.get id) = field (d.graph.get id)
  := by
  unfold Decoding.enter
  split
  · rfl
  · cases scope with
    | none => rfl
    | some scope => exact steady.close scope d id

end

theorem steady_enumerators :
  Steady TypeRecord.enumerators
  := ⟨fun _ _ => rfl, fun _ _ => rfl, fun _ => rfl⟩

/-- A contribution adds its own enumerator to an open enumeration, and no others. -/
theorem enumerators_add {c : Contribution} {parent : Option Scope} (fits : c.Fits parent)
    (inside : ∀ owner, parent = some (.enumeration owner) → owner < d.graph.nextId)
    (entry : Nat) (id : TypeId) :
  ((d.add entry c).graph.get id).enumerators.toList
    = (d.graph.get id).enumerators.toList ++ (c.enumerator? id).toList
  := by
  have unchanged (none : c.enumerator? id = none)
      (same : ((d.add entry c).graph.get id).enumerators = (d.graph.get id).enumerators) :
      ((d.add entry c).graph.get id).enumerators.toList
        = (d.graph.get id).enumerators.toList ++ (c.enumerator? id).toList := by
    rw [none, same]
    exact (List.append_nil _).symm
  have recorded {r : TypeRecord} (record : c.record? = some r) :
      ((d.add entry c).graph.get id).enumerators = (d.graph.get id).enumerators := by
    rw [graph_add_record record]
    exact d.graph.field_get_push TypeRecord.enumerators (bare_of_fits record fits).enumerators id
  cases c with
  | plain | derived | array | aggregate | enumeration | subroutine | subprogram | object =>
    exact unchanged rfl (recorded rfl)
  | nothing | synonym => exact unchanged rfl rfl
  | member owner name offset target =>
    apply unchanged rfl
    refine d.graph.field_get_update TypeRecord.enumerators owner _ ?_ id
    exact fun _ => rfl
  | dimension count =>
    apply unchanged rfl
    simp only [add, addDimension]
    split <;> rfl
  | enumerator owner e =>
    have owned := inside owner fits
    by_cases same : id = owner
    · subst same
      rw [Contribution.enumerator?, if_pos rfl, add, update, Graph.get_update_self _ _ owned]
      exact Array.toList_push
    · apply unchanged (if_neg (Ne.symm same))
      rw [add, update, Graph.get_update_of_ne _ _ same]

/-- The records have the enumerators that the visits have added throughout a walk. -/
theorem followed_enumerators (s : Sections) :
  Followed s fun visits d => Tracks visits (d.scopes.map Prod.snd) d
    ∧ ∀ id, (d.graph.get id).enumerators.toList = enumeratorsOf id visits
  := by
  constructor
  · rintro visits d u depth e v ⟨tracked, same⟩ hv fresh
    refine ⟨(followed_tracks s).visit tracked hv fresh, fun id => ?_⟩
    obtain ⟨-, depth_eq, -, faithful, parent, -, notices, result⟩ := visit_of_ok hv
    have inside (owner : TypeId) (found : v.parent = some (.enumeration owner)) :
        owner < (d.arrive v.depth).graph.nextId := by
      rw [parent, ← depth_eq] at found
      have belongs : (Scope.enumeration owner).Belongs visits (d.arrive v.depth).graph :=
        (tracked.closeFrom v.depth).belongs _ (parentScope_mem found)
      exact belongs.1
    rw [result, after, steady_enumerators.enter]
    rw [enumerators_add (d := (d.arrive v.depth).note notices) (Contribution.fits_read faithful)
      inside]
    change ((d.arrive v.depth).graph.get id).enumerators.toList ++ _ = _
    rw [arrive, steady_enumerators.closeFrom, same, enumeratorsOf, enumeratorsOf,
      List.filterMap_append, List.filterMap_cons]
    cases v.contribution.enumerator? id <;> rfl
  · rintro visits d ⟨tracked, same⟩
    refine ⟨(followed_tracks s).close tracked, fun id => ?_⟩
    rw [steady_enumerators.closeAll, same]

/-- After a walk without a fault the records have the enumerators that the visits have added. -/
theorem enumerators_walk {indexSize : Nat} (walked : s.walk s.units .empty indexSize = (d, none))
    (id : TypeId) :
  (d.graph.get id).enumerators.toList
    = enumeratorsOf id (s.visits s.units.items .empty indexSize)
  := by
  have started : Tracks [] ((start .empty indexSize).scopes.map Prod.snd) (start .empty indexSize)
      ∧ ∀ id, ((start .empty indexSize).graph.get id).enumerators.toList = enumeratorsOf id [] := by
    refine ⟨tracks_start indexSize, fun id => ?_⟩
    rw [get_start]
    split
    · rfl
    · split <;> rfl
  exact (Sections.followed_walk (followed_enumerators s) started walked).1.2 id

/-- Setting references and sorting members leave enumerators alone. -/
theorem Tracks.enumerators_finish {visits : List Visit} (h : Tracks visits [] d)
    (success : (d.linkAll d.links.toList d.graph).2 = none) (id : TypeId) :
  (d.finish.1.get id).enumerators = (d.graph.get id).enumerators
  := h.field_finish success TypeRecord.enumerators (fun _ _ => rfl) (fun _ _ => rfl) id

theorem Tracks.kind_finish {visits : List Visit} {v : Visit} {r : TypeRecord}
    (h : Tracks visits [] d) (success : (d.linkAll d.links.toList d.graph).2 = none)
    (mem : v ∈ visits) (record : v.contribution.record? = some r) :
  (d.finish.1.get v.id).kind = r.kind
  := by
  obtain ⟨inside, made⟩ := h.made v mem r record
  rw [(h.grows_finish success).kind_eq inside, kind_of_core made]

end Decoding

/-! ### Decoded enumerations -/

namespace Sections

/-- In a graph that has been decoded without an error, the enumerators of a record are those that
have been read below its entry, in order.  An enumerator below an enumeration becomes one of them.
If its attribute carries a number that fits into 63 bits, then its value is what the form is read
as, which is the number itself unless the form has a fixed width and the top bit of the number is
set.  A constant that has been read in a form for plain numbers is what the form carries its number
by. -/
theorem enumerators_decode {s : Sections} {size : Nat} (width : s.addressSize = .ok size)
    (decoded : (s.decode .empty).error = none) :
  let visits := s.visits s.units.items .empty size
  let g := (s.decode .empty).graph
  visits.map Visit.place = s.entries
  ∧ (∀ id, (g.get id).enumerators.toList = enumeratorsOf id visits)
  ∧ (∀ u ∈ s.units.items, ∀ (front between back : List (Int × Entry)) (depth : Int)
      (parent child : Entry),
    u.contents.items = front ++ (depth, parent) :: (between ++ (depth + 1, child) :: back) →
    parent.tag = .enumerationType → parent.hasChildren = true →
    (∀ item ∈ between, depth < item.1) → child.tag = .enumerator →
    ∃ p ∈ visits, ∃ v ∈ visits, p.place = (u, depth, parent) ∧ v.place = (u, depth + 1, child)
      ∧ (g.get p.id).kind = .enum
      ∧ ∃ e ∈ (g.get p.id).enumerators, v.contribution = .enumerator p.id e
        ∧ ∀ (form : Form) (c : Nat) (constant : Value),
          child.value? .constValue = .ok (some constant) → form.carry? c = some constant →
          c < 0x8000000000000000 →
          e.value.toInt = form.reading c
          ∧ (e.value.toInt = c ↔ ∀ width, form = .data width → 2 * c < wordValues width))
  ∧ ∀ (encoding : Encoding) (spec : Specification) (i j : Input) (constant : Value) (c : Nat),
    spec.name = .constValue → (spec.form.carry? 0).isSome →
    Value.read encoding spec i = .ok (constant, j) → constant.unsigned? = some c →
    spec.form.carry? c = some constant
  := by
  intro visits g
  obtain ⟨d, walked, graph_eq, success, tracked⟩ := tracked_of_decode width decoded
  obtain ⟨places, -⟩ := s.visits_of_walk walked
  have enumerators (id : TypeId) : (g.get id).enumerators.toList = enumeratorsOf id visits := by
    rw [show g = d.finish.1 from graph_eq, tracked.enumerators_finish success]
    exact Decoding.enumerators_walk walked id
  refine ⟨places, enumerators, ?_, fun _ _ _ _ _ _ => Form.carry?_of_read⟩
  intro u mem front between back depth parent child contents tag hasChildren deeper tag'
  obtain ⟨d₁, d₂, entries, visited⟩ : ∃ d₁ d₂,
      Decoding.visitAll s u u.contents.items d₁ = (d₂, none)
      ∧ ∀ v ∈ d₁.unitVisits s u, v ∈ visits := by
    rw [walk] at walked
    split at walked
    next => cases walked
    next d' units => exact Decoding.exists_visitAll_of_mem units mem
  rw [contents] at entries
  rw [Decoding.unitVisits, contents] at visited
  obtain ⟨p, hp, v, hv, place, place', ⟨r, contribution, kind⟩, found, faithful⟩ :=
    Decoding.parent_of_child entries tag hasChildren deeper
  have entry : v.entry = child := congrArg (fun place => place.2.2) place'
  rw [Visit.Faithful, found, entry] at faithful
  obtain ⟨value, enumerator, read⟩ := (Contribution.stems_read faithful).of_enumerator tag'
  have record : p.contribution.record? = some r := by rw [contribution]; rfl
  have kept : (g.get p.id).kind = .enum := by
    rw [show g = d.finish.1 from graph_eq, tracked.kind_finish success (visited p hp) record]
    exact kind
  refine ⟨p, visited p hp, v, visited v hv, place, place', kept, ⟨_, value⟩, ?_, enumerator, ?_⟩
  · rw [← Array.mem_toList_iff, enumerators, enumeratorsOf, List.mem_filterMap]
    refine ⟨v, visited v hv, ?_⟩
    rw [enumerator]
    exact if_pos rfl
  · intro form c constant carries carried small
    obtain ⟨value', read', same⟩ := Entry.enumeratorValue_of_carry carries carried small
    rw [read] at read'
    cases read'
    refine ⟨same, ?_⟩
    rw [same]
    exact Form.reading_eq_iff carried

/-- A unit with an enumeration that has the number 200 in each of the forms for plain numbers. -/
def twoHundreds : Sections where
  order := .little
  abbreviations := ⟨#[
    1, 0x11, 1, 0, 0,
    2, 0x04, 1, 3, 8, 0x0b, 0x0b, 0, 0,
    3, 0x28, 0, 3, 8, 0x1c, 0x0b, 0, 0,
    4, 0x28, 0, 3, 8, 0x1c, 0x05, 0, 0,
    5, 0x28, 0, 3, 8, 0x1c, 0x0f, 0, 0,
    6, 0x28, 0, 3, 8, 0x1c, 0x0d, 0, 0,
    7, 0x28, 0, 3, 8, 0x1c, 0x21, 200, 1, 0, 0,
    8, 0x28, 0, 3, 8, 0x1c, 0x06, 0, 0,
    9, 0x28, 0, 3, 8, 0x1c, 0x07, 0, 0,
    0]⟩
  info := ⟨#[
    54, 0, 0, 0, 4, 0, 0, 0, 0, 0, 8,
    1,
    2, 102, 0, 4,
    3, 65, 0, 200,
    4, 66, 0, 200, 0,
    5, 67, 0, 200, 1,
    6, 68, 0, 200, 1,
    7, 69, 0,
    8, 70, 0, 200, 0, 0, 0,
    9, 71, 0, 200, 0, 0, 0, 0, 0, 0, 0,
    0,
    0]⟩
  strings := .empty
  stringOffsets := .empty
  lineStrings := .empty

/-- In two bytes the number is read as it is. -/
theorem enumerators_decode_twoHundreds :
  let g := (twoHundreds.decode .empty).graph
  twoHundreds.addressSize = .ok 8 ∧ (twoHundreds.decode .empty).error = none
  ∧ ∃ id, (g.get id).kind = .enum ∧ ∃ e ∈ (g.get id).enumerators, e.value.toInt = 200
  := by
  intro g
  have width : twoHundreds.addressSize = .ok 8 := by decide +kernel
  have decoded : (twoHundreds.decode .empty).error = none := by decide +kernel
  obtain ⟨-, -, inside, carried⟩ := enumerators_decode width decoded
  let u := twoHundreds.units.items.get ⟨0, by decide +kernel⟩
  let item (place : Nat) : Int × Entry := u.contents.items[place]?.getD default
  have contents : u.contents.items = [item 0]
      ++ (1, (item 1).2) :: ([item 2] ++ (1 + 1, (item 3).2) :: u.contents.items.drop 4) := by
    decide +kernel
  obtain ⟨p, -, v, -, -, -, kind, e, mem, -, same⟩ :=
    inside u (List.get_mem _ _) [item 0] [item 2] (u.contents.items.drop 4) 1 (item 1).2 (item 3).2
      contents (by decide +kernel) (by decide +kernel) (by decide +kernel) (by decide +kernel)
  have carries : (item 3).2.value? .constValue = .ok (some (.data 2 200)) := by decide +kernel
  have carry : (Form.data 2).carry? 200 = some (.data 2 200) :=
    carried ⟨.little, 4, 4, 8⟩ ⟨.constValue, .data 2, 0⟩ (.ofBytes ⟨#[200, 0]⟩)
      ⟨⟨#[200, 0]⟩, 0, 2⟩ _ 200 rfl rfl (by decide +kernel) rfl
  obtain ⟨read, -⟩ := same (.data 2) 200 (.data 2 200) carries carry (by decide)
  exact ⟨width, decoded, p.id, kind, e, mem, read⟩

/-- In one byte the number is read as -56, and in all other forms as it is. -/
theorem narrow_twoHundreds :
  let g := (twoHundreds.decode .empty).graph
  (twoHundreds.decode .empty).error = none
  ∧ twoHundreds.entries.map (fun p => (p.2.1, p.2.2.tag, p.2.2.value? .constValue))
    = [(0, .other 0x11, .ok none), (1, .enumerationType, .ok none),
      (2, .enumerator, .ok (some (.data 1 200))), (2, .enumerator, .ok (some (.data 2 200))),
      (2, .enumerator, .ok (some (.unsigned 200))), (2, .enumerator, .ok (some (.signed 200))),
      (2, .enumerator, .ok (some (.signed 200))), (2, .enumerator, .ok (some (.data 4 200))),
      (2, .enumerator, .ok (some (.data 8 200)))]
  ∧ (Form.data 1).carry? 200 = some (.data 1 200)
  ∧ (g.get 2).kind = .enum
  ∧ (g.get 2).enumerators = #[⟨"A", -56⟩, ⟨"B", 200⟩, ⟨"C", 200⟩, ⟨"D", 200⟩, ⟨"E", 200⟩,
    ⟨"F", 200⟩, ⟨"G", 200⟩]
  := by
  refine ⟨?_, ?_, by decide, ?_, ?_⟩ <;> decide +kernel

end Sections

end CompactTypes.Dwarf

import CompactTypes.Proofs.Dwarf.Dimensions
import CompactTypes.Proofs.Dwarf.Numbers
import CompactTypes.Proofs.Dwarf.Order

/-!
# Decoded arrays

The record of an array is the first of the arrays for its dimensions, `Visit.arrays`, each of which
is the element type of the one before it.  They have the lengths that the dimensions of the array
have by their own entries, `Entry.Extent`, and the last one has the elements of the array.  The
inner ones belong to one array only.  The result is `Sections.dimensions_decode`.
-/

namespace CompactTypes

/-- The records that one meets when one follows references from the record at a position, which is
the first of them; at most `n` records. -/
def Graph.chain (g : Graph) : Nat → TypeId → List TypeId
  | 0, _ => []
  | n + 1, id =>
    id :: match (g.get id).reference with
      | none => []
      | some next => chain g n next

theorem Graph.chain_eq {g : Graph} {id : TypeId} {ids : List TypeId}
    (nested : (id :: ids).IsChain fun outer inner => (g.get outer).reference = some inner) :
  g.chain (ids.length + 1) id = id :: ids
  := by
  induction ids generalizing id with
  | nil =>
    rw [List.length_nil, chain]
    split <;> rfl
  | cons next ids ih =>
    obtain ⟨reference, nested⟩ := List.isChain_cons_cons.mp nested
    rw [List.length_cons, chain, reference]
    exact congrArg (id :: ·) (ih nested)

/-- An array is no symbol, so it has a place in the output. -/
theorem Graph.Complete.mem_emittedTypes_of_array {g : Graph} (h : g.Complete) {id : TypeId}
    (array : (g.get id).kind = .array) :
  id ∈ g.emittedTypes
  := by
  have inside : id < g.nextId :=
    Dwarf.lt_nextId_of_kind (by rw [array]; exact TypeKind.noConfusion)
  have regular := h.regular id inside
  have plain : (g.get id).symbolClass? = none := by
    rw [TypeRecord.Regular, array] at regular
    cases hclass : (g.get id).symbolClass? with
    | none => rfl
    | some c => cases c <;> rw [hclass] at regular <;> cases regular
  rw [Graph.mem_emittedTypes, Array.mem_def, h.allTypes_eq, TypeRecord.isSymbol_eq_isSome, plain]
  exact ⟨List.mem_range.mpr inside, rfl⟩

namespace Dwarf

/-- Whether an entry is a dimension of an array. -/
def Entry.isDimension (e : Entry) : Bool :=
  e.tag = .subrangeType

/-- How many elements there are along a dimension: as many as its entry counts, or else one more
than the upper bound.  If neither is a number, or the number does not fit into 32 bits, then the
extent is zero. -/
inductive Entry.Extent (e : Entry) : Nat → Prop where
  | count {n : Nat} : e.number? .count = .ok (some n) → n < wordValues 4 → Extent e n
  | highCount {n : Nat} : e.number? .count = .ok (some n) → wordValues 4 ≤ n → Extent e 0
  | bound {n : Nat} : e.number? .count = .ok none → e.number? .upperBound = .ok (some n) →
    n + 1 < wordValues 4 → Extent e (n + 1)
  | highBound {n : Nat} : e.number? .count = .ok none → e.number? .upperBound = .ok (some n) →
    wordValues 4 ≤ n + 1 → Extent e 0
  | unknown : e.number? .count = .ok none → e.number? .upperBound = .ok none → Extent e 0

/-- The arrays for the dimensions of an array that a visit has made, the outermost first.  An array
without dimensions is one array. -/
def Visit.arrays (g : Graph) (visits : List Visit) (v : Visit) : List TypeId :=
  g.chain (max (dimensionsOf v.id visits).length 1) v.id

/-- The arrays at some positions, of which the first is the record of an entry, are as many
different types as the entry has dimensions, and have the lengths for these.  The inner ones have no
names, and no entry makes them or means them. -/
structure Layered (visits : List Visit) (g : Graph) (first : TypeId) (counts : List UInt32)
    (ids : List TypeId) : Prop where
  head_eq : ids.head? = some first
  length_eq : ids.length = max counts.length 1
  nodup : ids.Nodup
  kind : ∀ id ∈ ids, (g.get id).kind = .array
  emitted : ∀ id ∈ ids, id ∈ g.emittedTypes
  lengths_eq : ids.map (fun id => (g.get id).elementCount) = lengths counts
  name : ∀ id ∈ ids.tail, (g.get id).name = none
  unmade : ∀ id ∈ ids.tail, ∀ v ∈ visits, v.made? ≠ some id ∧ v.meaning? ≠ some (.record id)

theorem Pile.length_eq {g : Graph} {counts : List UInt32} {ids : List TypeId}
    (pile : Pile g counts ids) :
  ids.length = max counts.length 1
  := by
  have length := congrArg List.length pile.lengths_eq
  rw [List.length_map] at length
  rw [length]
  cases counts with
  | nil => rfl
  | cons count counts => exact (Nat.max_eq_left (Nat.succ_pos _)).symm

theorem Pile.arrays_eq {g : Graph} {visits : List Visit} {v : Visit} {inner : List TypeId}
    (pile : Pile g (dimensionsOf v.id visits) (v.id :: inner)) :
  v.arrays g visits = v.id :: inner
  := by
  have length := pile.length_eq
  rw [List.length_cons] at length
  rw [Visit.arrays, ← length]
  exact Graph.chain_eq pile.nested

/-! ### Extents -/

theorem Entry.Extent.unique {e : Entry} {n n' : Nat} (h : e.Extent n) (h' : e.Extent n') :
  n = n'
  := by
  cases h <;> cases h' <;> simp_all <;> omega

/-- The number of elements that is read is the extent, since bounds have 64 bits. -/
theorem Entry.extent_of_dimensionCount {e : Entry} {count : UInt32}
    (short : ∀ n, e.number? .upperBound = .ok (some n) → n < wordValues 8)
    (h : e.dimensionCount = .ok count) :
  e.Extent count.toNat
  := by
  have narrow (n : Nat) : (if n < wordValues 4 then UInt32.ofNat n else 0).toNat
      = if n < wordValues 4 then n else 0 := by
    split
    next fits => exact UInt32.toNat_ofNat_of_lt' fits
    next => rfl
  obtain ⟨count?, counted, h⟩ := ok_of_bind h
  cases count? with
  | some n =>
    cases h
    rw [narrow]
    split
    next fits => exact .count counted fits
    next high => exact .highCount counted (Nat.le_of_not_lt high)
  | none =>
    obtain ⟨bound?, bounded, h⟩ := ok_of_bind h
    cases bound? with
    | none =>
      cases h
      exact .unknown counted bounded
    | some n =>
      cases h
      rw [narrow]
      have bound : n + 1 ≤ wordValues 8 := short n bounded
      rcases Nat.lt_or_eq_of_le bound with inside | last
      · rw [Nat.mod_eq_of_lt inside]
        split
        next fits => exact .bound counted bounded fits
        next high => exact .highBound counted bounded (Nat.le_of_not_lt high)
      · -- The number after the largest bound is zero.
        rw [last, Nat.mod_self]
        exact .highBound counted bounded (last ▸ wordValues_le (by decide))

namespace Contribution

variable {s : Sections} {u : CompilationUnit} {depth : Int} {e : Entry} {c : Contribution}
  {parent : Option Scope} {count : UInt32}

theorem eq_of_dimension? (h : c.dimension? = some count) :
  c = dimension count
  := by
  cases c <;> cases h
  rfl

/-- A dimension has been read from an entry for one. -/
theorem read_dimension (h : (read s u parent depth e).value = .ok (dimension count)) :
  e.isDimension ∧ e.dimensionCount = .ok count
  := by
  cases stems_read h with
  | dimension tag _ counted => exact ⟨decide_eq_true tag, counted⟩

/-- What an array gets as a dimension from an entry. -/
theorem dimension?_read {id : TypeId} {entry : Nat} {target : Option Nat} {counts : List UInt32}
    (h : (read s u (some (.array id entry target counts)) depth e).value = .ok c) :
  if e.isDimension then ∃ count, c.dimension? = some count ∧ e.dimensionCount = .ok count
    else c.dimension? = none
  := by
  split
  next dimension =>
    obtain ⟨count, rfl, counted⟩ := (stems_read h).of_subrangeType (of_decide_eq_true dimension)
    exact ⟨count, rfl, counted⟩
  next other =>
    rw [← Option.not_isSome_iff_eq_none]
    intro some
    obtain ⟨count, found⟩ := Option.isSome_iff_exists.mp some
    rw [eq_of_dimension? found] at h
    exact other (read_dimension h).1

end Contribution

theorem mem_of_mem_directChildren {depth : Int} {later : List (Int × Entry)} {child : Entry}
    (mem : child ∈ directChildren depth later) :
  (depth + 1, child) ∈ later
  := by
  obtain ⟨⟨childDepth, e⟩, selected, rfl⟩ := List.mem_map.mp mem
  obtain ⟨inside, here⟩ := List.mem_filter.mp selected
  obtain rfl : childDepth = depth + 1 := of_decide_eq_true here
  exact (List.takeWhile_sublist _).mem inside

theorem forall₂_dimensions {visits : List Visit} (h : ∀ v ∈ visits,
    if v.entry.isDimension then
      ∃ count, v.contribution.dimension? = some count ∧ v.entry.dimensionCount = .ok count
    else v.contribution.dimension? = none) :
  List.Forall₂ (fun child count => child.dimensionCount = .ok count)
    ((visits.map Visit.entry).filter Entry.isDimension)
    (visits.filterMap fun v => v.contribution.dimension?)
  := by
  induction visits with
  | nil => exact .nil
  | cons v visits ih =>
    obtain ⟨here, others⟩ := List.forall_mem_cons.mp h
    rw [List.map_cons]
    split at here
    next dimension =>
      obtain ⟨count, found, read⟩ := here
      rw [List.filter_cons_of_pos dimension, List.filterMap_cons_some (by exact found)]
      exact .cons read (ih others)
    next other =>
      rw [List.filter_cons_of_neg other, List.filterMap_cons_none (by exact here)]
      exact ih others

/-! ### Inner arrays -/

section

variable {visits : List Visit} {g : Graph} {first first' id : TypeId} {ids ids' : List TypeId}

theorem Stacked.nodup (h : Stacked visits g)
    (nested : ids.IsChain fun outer inner => (g.get outer).reference = some inner) :
  ids.Nodup
  := by
  have increasing : ids.IsChain (· < ·) :=
    nested.imp fun outer inner reference => (h.inner outer inner reference).outer_lt
  exact (List.isChain_iff_pairwise.mp increasing).imp fun less => Nat.ne_of_lt less

/-- Arrays that visits have made are no inner ones. -/
theorem Stacked.not_mem_of_made (h : Stacked visits g)
    (nested : (first :: ids).IsChain fun outer inner => (g.get outer).reference = some inner)
    {v : Visit} (mem : v ∈ visits) (made : v.made? = some id) :
  id ∉ ids
  := by
  intro inner
  obtain ⟨outer, -, reference⟩ := exists_previous nested inner
  exact (h.inner outer id reference).unmade v mem made

/-- An array belongs to the arrays below one that a visit has made, and to no others. -/
theorem Stacked.first_eq (h : Stacked visits g) {v v' : Visit} (mem : v ∈ visits)
    (mem' : v' ∈ visits) (made : v.made? = some first) (made' : v'.made? = some first')
    (nested : (first :: ids).IsChain fun outer inner => (g.get outer).reference = some inner)
    (nested' : (first' :: ids').IsChain fun outer inner => (g.get outer).reference = some inner)
    (here : id ∈ first :: ids) (here' : id ∈ first' :: ids') :
  first = first'
  := by
  induction id using Nat.strongRecOn with
  | ind id ih =>
    rcases List.mem_cons.mp here with rfl | inner
    · rcases List.mem_cons.mp here' with same | inner'
      · exact same
      · exact absurd inner' (h.not_mem_of_made nested' mem made)
    · rcases List.mem_cons.mp here' with rfl | inner'
      · exact absurd inner (h.not_mem_of_made nested mem' made')
      · -- Both go through the only array that has this one as its elements.
        obtain ⟨outer, listed, reference⟩ := exists_previous nested inner
        obtain ⟨outer', listed', reference'⟩ := exists_previous nested' inner'
        obtain rfl := h.injective outer outer' id reference reference'
        exact ih outer (h.inner outer id reference).outer_lt listed listed'

end

namespace Decoding

variable {s : Sections} {d : Decoding} {visits : List Visit}

/-- After a walk the arrays that visits have made are the first ones of piles, and the last ones get
the types of the elements. -/
theorem Spread.pile_finish (h : Spread visits [] d)
    (success : (d.linkAll d.links.toList d.graph).2 = none) {v : Visit} {record : TypeRecord}
    {target : Option Nat} (mem : v ∈ visits) (array : v.contribution = .array record target) :
  ∃ inner last id, Pile d.graph (dimensionsOf v.id visits) (v.id :: inner)
    ∧ Pile d.finish.1 (dimensionsOf v.id visits) (v.id :: inner)
    ∧ (v.id :: inner).getLast? = some last ∧ Leads visits d.void target id
    ∧ (d.finish.1.get last).reference = some id
  := by
  rcases h.laid v mem record target array with
    ⟨counts, opened, -⟩ | ⟨inner, last, pile, final, linked⟩
  · cases opened
  obtain ⟨id, leads, holds⟩ := h.holds success linked
  refine ⟨inner, last, id, pile, pile.congr fun id _ => ⟨?_, ?_⟩, final, leads, ?_⟩
  · exact (h.grows_finish success).reference_eq id
  · exact h.field_finish success TypeRecord.elementCount (fun _ _ => rfl) (fun _ _ => rfl) id
  · rw [h.get_finish success, field_sortMembers TypeRecord.reference fun _ _ => rfl]
    exact holds

/-- The arrays of a pile that starts with the record of an entry are the ones for its dimensions. -/
theorem Spread.layered (h : Spread visits [] d)
    (success : (d.linkAll d.links.toList d.graph).2 = none) (complete : d.finish.1.Complete)
    {v : Visit} {record : TypeRecord} {target : Option Nat} {inner : List TypeId}
    (mem : v ∈ visits) (array : v.contribution = .array record target)
    (pile : Pile d.graph (dimensionsOf v.id visits) (v.id :: inner))
    (finished : Pile d.finish.1 (dimensionsOf v.id visits) (v.id :: inner)) :
  Layered visits d.finish.1 v.id (dimensionsOf v.id visits) (v.id :: inner)
  := by
  have field {α : Type} (field : TypeRecord → α) := h.field_finish success field
  have kind (id : TypeId) (listed : id ∈ v.id :: inner) : (d.finish.1.get id).kind = .array :=
    (field TypeRecord.kind (fun _ _ => rfl) (fun _ _ => rfl) id).trans
      (h.kind_of_mem mem array pile listed)
  have below (id : TypeId) (listed : id ∈ inner) : ∃ outer, Inner visits d.graph outer id := by
    obtain ⟨outer, -, reference⟩ := exists_previous pile.nested listed
    exact ⟨outer, h.stacked.inner outer id reference⟩
  constructor
  · rfl
  · exact pile.length_eq
  · exact h.stacked.nodup pile.nested
  · exact kind
  · exact fun id listed => complete.mem_emittedTypes_of_array (kind id listed)
  · exact finished.lengths_eq
  · intro id listed
    obtain ⟨outer, found⟩ := below id listed
    exact (field TypeRecord.name (fun _ _ => rfl) (fun _ _ => rfl) id).trans found.name
  · intro id listed w visited
    obtain ⟨outer, found⟩ := below id listed
    have unmade := found.unmade w visited
    refine ⟨unmade, fun meaning => unmade ?_⟩
    cases hc : w.contribution <;> rw [Visit.meaning?, hc] at meaning <;> cases meaning <;>
      rw [Visit.made?, hc] <;> rfl

end Decoding

namespace Sections

/-- The dimensions of an array have the extents of the children of its entry that are dimensions. -/
theorem extents_of_children {s : Sections} {u : CompilationUnit} (unit : u ∈ s.units.items)
    {front back : List (Int × Entry)} {depth : Int} {e : Entry}
    (contents : u.contents.items = front ++ (depth, e) :: back) {visits : List Visit}
    (faithful : ∀ v ∈ visits, v.Faithful s) {id : TypeId} {entry : Nat} {target : Option Nat}
    (places : (childrenOf id visits).map Visit.place
      = (directChildren depth back).map (u, depth + 1, ·))
    (parents : ∀ v ∈ childrenOf id visits,
      ∃ counts, v.parent = some (.array id entry target counts)) :
  List.Forall₂ (fun child count => child.Extent count.toNat)
    ((directChildren depth back).filter Entry.isDimension) (dimensionsOf id visits)
  := by
  obtain ⟨entries, units⟩ := entries_of_places places
  have read : List.Forall₂ (fun child count => child.dimensionCount = .ok count)
      ((directChildren depth back).filter Entry.isDimension) (dimensionsOf id visits) := by
    rw [← entries]
    apply forall₂_dimensions
    intro v mem
    obtain ⟨counts, parent⟩ := parents v mem
    have read := faithful v (List.mem_filter.mp mem).1
    rw [Visit.Faithful, parent] at read
    exact Contribution.dimension?_read read
  apply (forall₂_and_mem read).imp
  rintro child count ⟨mem, read⟩
  have listed : (depth + 1, child) ∈ u.contents.items := by
    rw [contents]
    apply List.mem_append_right
    exact List.mem_cons_of_mem _ (mem_of_mem_directChildren (List.mem_filter.mp mem).1)
  exact Entry.extent_of_dimensionCount (fun n bound => number?_lt unit listed bound) read

/-- In a graph that has been decoded without an error, the record of an array is the first of as
many nested arrays as the array has dimensions, but at least one.  They have the extents of the
dimensions in order, the inner ones are made for this array only, and the last one has elements of
the type to which the entry of the array refers. -/
theorem dimensions_decode {s : Sections} {size : Nat} (width : s.addressSize = .ok size)
    (decoded : (s.decode .empty).error = none) :
  let visits := s.visits s.units.items .empty size
  let void := (Decoding.start .empty size).void
  let g := (s.decode .empty).graph
  visits.map Visit.place = s.entries
  ∧ (∀ target id id', Leads visits void target id → Leads visits void target id' → id = id')
  ∧ (∀ p ∈ visits, ∀ q ∈ visits, p.entry.tag = .arrayType → q.entry.tag = .arrayType →
    ∀ id ∈ p.arrays g visits, id ∈ q.arrays g visits → p = q)
  ∧ ∀ u ∈ s.units.items, ∀ (front back : List (Int × Entry)) (depth : Int) (e : Entry),
    u.contents.items = front ++ (depth, e) :: back → e.tag = .arrayType →
    ∃ p ∈ visits, p.place = (u, depth, e) ∧ p.meaning? = some (.record p.id)
      ∧ List.Forall₂ (fun child count => child.Extent count.toNat)
        ((directChildren depth back).filter Entry.isDimension) (dimensionsOf p.id visits)
      ∧ Layered visits g p.id (dimensionsOf p.id visits) (p.arrays g visits)
      ∧ ∃ last target id, (p.arrays g visits).getLast? = some last
        ∧ u.PointsTo (e.attributes.lookup .type) target ∧ Leads visits void target id
        ∧ (g.get last).reference = some id
  := by
  intro visits void g
  obtain ⟨d, walked, graph_eq, success, -⟩ := tracked_of_decode width decoded
  have graph_eq : g = d.finish.1 := graph_eq
  have spread : Decoding.Spread visits [] d := Decoding.spread_walk walked
  have void_eq : d.void = void := spread.void_eq
  have complete : g.Complete := complete_decode decoded
  obtain ⟨places, faithful⟩ := s.visits_of_walk walked
  have array (p : Visit) (mem : p ∈ visits) (tag : p.entry.tag = .arrayType) :
      ∃ target, p.contribution
          = .array (TypeRecord.ofKind .array (s.ownName? p.unit p.entry)) target
        ∧ p.unit.PointsTo (p.entry.attributes.lookup .type) target :=
    (Contribution.stems_read (faithful p mem)).of_arrayType tag
  refine ⟨places, fun _ _ _ => leads_unique_of_decode width decoded, ?_, ?_⟩
  · intro p mem q mem' tag tag' id here here'
    obtain ⟨target, contribution, -⟩ := array p mem tag
    obtain ⟨target', contribution', -⟩ := array q mem' tag'
    obtain ⟨inner, -, -, pile, finished, -⟩ := spread.pile_finish success mem contribution
    obtain ⟨inner', -, -, pile', finished', -⟩ := spread.pile_finish success mem' contribution'
    rw [graph_eq, finished.arrays_eq] at here
    rw [graph_eq, finished'.arrays_eq] at here'
    have made : p.made? = some p.id := by rw [Visit.made?, contribution]; rfl
    have made' : q.made? = some q.id := by rw [Visit.made?, contribution']; rfl
    have same := spread.stacked.first_eq mem mem' made made' pile.nested pile'.nested here here'
    exact Decoding.eq_of_made mem mem' made (same ▸ made')
  · intro u unit front back depth e contents tag
    obtain ⟨p, mem, place, read, children⟩ := children_walk walked unit contents
    have entry : p.entry = e := congrArg (fun place => place.2.2) place
    have unit_eq : p.unit = u := congrArg Prod.fst place
    obtain ⟨target, contribution, points⟩ := array p mem (entry ▸ tag)
    obtain ⟨inner, last, id, pile, finished, final, leads, reference⟩ :=
      spread.pile_finish success mem contribution
    have opened : Decoding.opened p.id p.offset p.contribution
        = some (.array p.id p.offset target []) := by rw [contribution]; rfl
    obtain ⟨listed, parents⟩ := children _ opened
    have arrays : p.arrays g visits = p.id :: inner := Pile.arrays_eq (graph_eq ▸ finished)
    refine ⟨p, mem, place, by rw [Visit.meaning?, contribution]; rfl, ?_, ?_, last, target, id, ?_⟩
    · exact extents_of_children unit contents faithful listed parents
    · rw [arrays, graph_eq]
      exact spread.layered success (graph_eq ▸ complete) mem contribution pile finished
    · rw [arrays, graph_eq, ← void_eq]
      exact ⟨final, entry ▸ unit_eq ▸ points, leads, reference⟩

/-- An empty unit, and after it a unit with an array of three rows of four numbers. -/
def threeByFour : Sections where
  order := .little
  abbreviations := ⟨#[
    1, 0x11, 1, 0, 0,
    2, 0x24, 0, 3, 8, 0x0b, 0x0b, 0x3e, 0x0b, 0, 0,
    3, 0x01, 1, 0x49, 0x13, 0, 0,
    4, 0x21, 0, 0x2f, 0x0b, 0, 0,
    5, 0x21, 0, 0x37, 0x0b, 0, 0,
    0]⟩
  info := ⟨#[
    9, 0, 0, 0, 4, 0, 0, 0, 0, 0, 8,
    1,
    0,
    24, 0, 0, 0, 4, 0, 0, 0, 0, 0, 8,
    1,
    2, 99, 0, 1, 6,
    3, 12, 0, 0, 0,
    4, 2,
    5, 4,
    0,
    0]⟩
  strings := .empty
  stringOffsets := .empty
  lineStrings := .empty

/-- The first dimension has the upper bound 2, and the second one the count 4. -/
theorem dimensions_decode_threeByFour :
  let visits := threeByFour.visits threeByFour.units.items .empty 8
  let g := (threeByFour.decode .empty).graph
  threeByFour.addressSize = .ok 8 ∧ (threeByFour.decode .empty).error = none
  ∧ (g.get 2).name = some "c"
  ∧ ∃ p ∈ visits, p.entry.tag = .arrayType ∧ Layered visits g p.id [3, 4] (p.arrays g visits)
    ∧ ∃ last, (p.arrays g visits).getLast? = some last ∧ (g.get last).reference = some 2
  := by
  intro visits g
  have width : threeByFour.addressSize = .ok 8 := by decide +kernel
  have decoded : (threeByFour.decode .empty).error = none := by decide +kernel
  obtain ⟨-, unique, -, arrays⟩ := dimensions_decode width decoded
  let u := threeByFour.units.items.get ⟨1, by decide +kernel⟩
  let items := u.contents.items
  let e := (items[2]?.getD default).2
  let first := (items[3]?.getD default).2
  let second := (items[4]?.getD default).2
  have contents : u.contents.items = items.take 2 ++ (1, e) :: items.drop 3 := by decide +kernel
  obtain ⟨p, mem, place, -, extents, layered, last, target, id, final, points, leads, refers⟩ :=
    arrays u (List.get_mem _ _) (items.take 2) (items.drop 3) 1 e contents (by decide +kernel)
  have children : (directChildren 1 (items.drop 3)).filter Entry.isDimension = [first, second] := by
    decide +kernel
  rw [children] at extents
  obtain ⟨rows, _, three', others, counts⟩ := List.forall₂_cons_left_iff.mp extents
  obtain ⟨columns, _, four', none, rfl⟩ := List.forall₂_cons_left_iff.mp others
  obtain rfl := List.forall₂_nil_left_iff.mp none
  have three : first.Extent 3 :=
    .bound (n := 2) (by decide +kernel) (by decide +kernel) (by decide)
  have four : second.Extent 4 := .count (by decide +kernel) (by decide)
  obtain rfl : rows = 3 := UInt32.toNat_inj.mp (three'.unique three)
  obtain rfl : columns = 4 := UInt32.toNat_inj.mp (four'.unique four)
  have entry : p.entry = e := congrArg (fun place => place.2.2) place
  rw [counts] at layered
  -- The elements are of the type at the offset 12 of the unit, which is at 13.
  have number : Leads visits (Decoding.start .empty 8).void (some 25) 2 :=
    leads_record (List.get_mem visits ⟨2, by decide +kernel⟩) (by decide +kernel)
      (by decide +kernel)
  obtain rfl : target = some 25 :=
    points.unique (CompilationUnit.pointsTo_iff.mpr (by decide +kernel))
  rw [unique _ id 2 leads number] at refers
  exact ⟨width, decoded, by decide +kernel, p, mem, by rw [entry]; decide +kernel, layered, last,
    final, refers⟩

end Sections

end Dwarf

end CompactTypes

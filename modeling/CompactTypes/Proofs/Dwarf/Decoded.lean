import CompactTypes.Proofs.Dwarf.Walks

/-!
# Decoded graphs

A graph that has been decoded without an error is `Graph.Complete`, `Sections.complete_decode`:
whatever its records refer to has a place in the output, and no record lacks a reference that it
has to have.  The first half is an invariant of the walk, `Decoding.Emits`: references only ever
lead to records that no symbol can take.  The second half follows from what is tracked.
-/

namespace CompactTypes.Dwarf

namespace Decoding

/-- The graph that has been built so far is fresh, and references lead to types that have a place
in the output. -/
structure Emits (d : Decoding) : Prop where
  fresh : d.graph.Fresh
  void : d.void ∈ d.graph.emittedTypes
  meaning : ∀ (offset : Nat) (id : TypeId), d.meanings[offset]? = some (.record id) →
    id ∈ d.graph.emittedTypes

variable {d d' : Decoding}

theorem Emits.transport (h : d.Emits) (graph : d'.graph = d.graph) (void : d'.void = d.void)
    (meanings : d'.meanings = d.meanings) :
  d'.Emits
  := by
  constructor
  · rw [graph]
    exact h.fresh
  · rw [graph, void]
    exact h.void
  · rw [graph, meanings]
    exact h.meaning

/-! ### Changes of records -/

theorem Emits.update (h : d.Emits) (id : TypeId) (f : TypeRecord → TypeRecord)
    (kind : ∀ r, (f r).kind = r.kind) (flags : ∀ r, (f r).flags = r.flags)
    (referent : ∀ r, ∀ target ∈ (f r).referents,
      target ∈ r.referents ∨ target ∈ d.graph.emittedTypes) :
  (d.update id f).Emits
  := by
  have emitted : (d.update id f).graph.emittedTypes = d.graph.emittedTypes :=
    Graph.emittedTypes_update d.graph id f flags
  constructor
  · exact h.fresh.update id f kind flags referent
  · rw [emitted]
    exact h.void
  · rw [emitted]
    exact h.meaning

/-! ### New records -/

theorem Emits.push (h : d.Emits) {r : TypeRecord} (regular : r.Regular)
    (referents : r.referents = []) :
  (d.push r).Emits
  := by
  have more {id : TypeId} (mem : id ∈ d.graph.emittedTypes) :
      id ∈ (d.graph.push r).emittedTypes :=
    (Graph.mem_emittedTypes_push h.fresh.inside).mpr (.inl mem)
  exact ⟨h.fresh.push regular referents, more h.void,
    fun offset id found => more (h.meaning offset id found)⟩

/-- The record of a contribution keeps references inside the output, since only a plain type can
be meant by its entry. -/
theorem Emits.record {entry : Nat} {c : Contribution} {r : TypeRecord} {parent : Option Scope}
    (h : d.Emits) (record : c.record? = some r) (fits : c.Fits parent) :
  (d.add entry c).Emits
  := by
  have graph := graph_add_record (d := d) record entry
  have bare := bare_of_fits record fits
  have pushed := h.push (Contribution.regular_of_fits record fits)
    (TypeRecord.referents_eq_nil bare.reference bare.members)
  constructor
  · rw [graph]
    exact pushed.fresh
  · rw [graph, void_add]
    exact pushed.void
  · intro offset id found
    rw [graph]
    rcases meaning_add found with new | old
    · obtain ⟨rfl, r', record', plain⟩ := Contribution.plain_of_meaning? new fits
      rw [record] at record'
      cases record'
      exact (Graph.mem_emittedTypes_push h.fresh.inside).mpr (.inr ⟨plain, rfl⟩)
    · exact pushed.meaning offset id old

/-! ### The walk -/

/-- References lead to types that have a place in the output throughout a walk. -/
theorem kept_emits :
  Kept Emits
  := by
  constructor
  · exact fun h graph void meanings => h.transport graph void meanings
  · intro d id f h same referent
    refine h.update id f (fun r => (same r).1) (fun r => (same r).2.2) fun r target mem => ?_
    refine (referent r target mem).imp_right ?_
    rintro rfl
    exact h.void
  · intro d r h regular bare
    exact h.push regular (TypeRecord.referents_eq_nil bare.reference bare.members)
  · exact fun h record fits => h.record record fits
  · intro d entry target h
    exact ⟨h.fresh, h.void, fun offset id found => h.meaning offset id (meaning_define found)⟩
  · intro d outer count h
    let array := { TypeRecord.ofKind .array none with elementCount := count }
    have regular : array.Regular := TypeKind.noConfusion
    refine (h.push regular rfl).update outer _ (fun _ => rfl) (fun _ => rfl) fun r other mem => ?_
    refine (TypeRecord.referent_withReference mem).imp_right ?_
    rintro rfl
    exact (Graph.mem_emittedTypes_push h.fresh.inside).mpr (.inr ⟨rfl, rfl⟩)

/-- The two types at the start of a walk have places in the output and refer to nothing. -/
theorem emits_start (indexSize : Nat) :
  (start .empty indexSize).Emits
  := by
  have emitted : (start .empty indexSize).graph.emittedTypes = [0, 1] := rfl
  have fresh : (start .empty indexSize).graph.Fresh := by
    constructor
    · intro id mem
      exact List.mem_range.mp (Array.mem_def.mp mem)
    · intro id target mem
      rw [get_start] at mem
      split at mem
      · cases mem
      · split at mem <;> cases mem
    · intro id inside
      have first : id = 1 ∨ id = 0 :=
        (Nat.lt_succ_iff_lt_or_eq.mp inside).symm.imp_right Nat.lt_one_iff.mp
      rcases first with rfl | rfl <;> rw [get_start] <;> exact TypeKind.noConfusion
    · intro c
      cases c <;> rfl
    · exact ⟨1, emitted ▸ by decide, rfl⟩
  refine ⟨fresh, emitted ▸ List.mem_cons_self, fun offset id found => ?_⟩
  simp [start] at found

end Decoding

/-! ### Setting references -/

/-- A reference that leads somewhere leads to a type that has a place in the output. -/
theorem Decoding.Emits.resolve? {d : Decoding} (h : d.Emits) {target : Option Nat} {id : TypeId}
    (found : d.resolve? target = some id) :
  id ∈ d.graph.emittedTypes
  := Decoding.of_resolve? h.void h.meaning found

/-- Setting references and sorting members keeps the graph fresh, with the same types in the
output. -/
theorem Decoding.Emits.finish {d : Decoding} (h : d.Emits) :
  d.finish.1.Fresh ∧ d.finish.1.emittedTypes = d.graph.emittedTypes
  := by
  refine Decoding.finish_keeps (Q := fun g => g.Fresh ∧ g.emittedTypes = d.graph.emittedTypes)
    ?_ ⟨h.fresh, rfl⟩
  rintro g id f ⟨fresh, emitted⟩ same referent
  refine ⟨fresh.update id f (fun r => (same r).1) (fun r => (same r).2.2) fun r target mem => ?_,
    (g.emittedTypes_update id f fun r => (same r).2.2).trans emitted⟩
  refine (referent r target mem).imp_right ?_
  rintro ⟨source, found⟩
  exact emitted ▸ h.resolve? found

theorem allTypes_sortAll (ids : List TypeId) (g : Graph) :
  (sortAll ids g).allTypes = g.allTypes
  := by
  induction ids generalizing g with
  | nil => rfl
  | cons id ids ih => exact ih _

/-! ### Decoded graphs -/

/-- In a fresh graph a symbol is a function, which is built on another type, or a variable. -/
theorem refersToType_of_regular {r : TypeRecord} (regular : r.Regular)
    (h : r.kind.needsReference ∨ r.isSymbol) :
  refersToType r
  := by
  rcases h with needs | symbol
  · rw [refersToType, needs, Bool.true_or]
  · rw [TypeRecord.isSymbol_eq_isSome] at symbol
    obtain ⟨c, hclass⟩ := Option.isSome_iff_exists.mp symbol
    rw [TypeRecord.Regular, hclass] at regular
    cases c with
    | function =>
      have kind : r.kind = .function := regular
      rw [refersToType, kind]
      rfl
    | object => rw [refersToType, Decoding.object_of_symbolClass?_object hclass, Bool.or_true]

namespace Sections

variable {s : Sections}

/-- Decoding succeeds only after a walk without a fault, and if all references can be set. -/
theorem walked_of_decode (decoded : (s.decode .empty).error = none) :
  ∃ size d, s.addressSize = .ok size ∧ s.walk s.units .empty size = (d, none)
    ∧ (s.decode .empty).graph = d.finish.1 ∧ (d.linkAll d.links.toList d.graph).2 = none
  := by
  have error := decoded
  rw [decode] at decoded
  split at decoded
  next => cases decoded
  next size width =>
    simp only at decoded
    split at decoded
    next => cases decoded
    next d walked =>
      obtain ⟨graph_eq, error_eq⟩ := decode_of_walk width walked
      refine ⟨size, d, width, walked, graph_eq, ?_⟩
      rw [error_eq, Decoding.finish] at error
      split at error
      next => cases error
      next linked => rw [linked]

theorem tracked_of_decode {size : Nat} (width : s.addressSize = .ok size)
    (decoded : (s.decode .empty).error = none) :
  ∃ d, s.walk s.units .empty size = (d, none) ∧ (s.decode .empty).graph = d.finish.1
    ∧ (d.linkAll d.links.toList d.graph).2 = none
    ∧ Decoding.Tracks (s.visits s.units.items .empty size) [] d
  := by
  obtain ⟨size', d, width', walked, graph_eq, success⟩ := walked_of_decode decoded
  obtain rfl : size' = size := Except.ok.inj (width'.symm.trans width)
  exact ⟨d, walked, graph_eq, success, Decoding.tracks_walk walked⟩

/-- In a graph that has been decoded without an error, all references are set. -/
theorem linked_of_decode {size : Nat} (width : s.addressSize = .ok size)
    (decoded : (s.decode .empty).error = none) :
  Linked (s.visits s.units.items .empty size) (Decoding.start .empty size).void
    (s.decode .empty).graph
  := by
  obtain ⟨d, -, graph_eq, success, tracked⟩ := tracked_of_decode width decoded
  rw [graph_eq, show (Decoding.start .empty size).void = d.void from tracked.void_eq.symm]
  exact tracked.linked success

theorem leads_unique_of_decode {size : Nat} (width : s.addressSize = .ok size)
    (decoded : (s.decode .empty).error = none) {target : Option Nat} {id id' : TypeId} :
  let visits := s.visits s.units.items .empty size
  let void := (Decoding.start .empty size).void
  Leads visits void target id → Leads visits void target id' → id = id'
  := by
  intro visits void leads leads'
  obtain ⟨d, -, -, -, tracked⟩ := tracked_of_decode width decoded
  rw [show void = d.void from tracked.void_eq.symm] at leads leads'
  exact tracked.leads_unique leads leads'

theorem emits_walk {size : Nat} {d : Decoding} (walked : s.walk s.units .empty size = (d, none)) :
  d.Emits
  := by
  have emits : (s.walk s.units .empty size).1.Emits :=
    Decoding.kept_emits.walk (Decoding.emits_start size)
  rw [walked] at emits
  exact emits

/-- A graph that has been decoded without an error is complete. -/
theorem complete_decode (decoded : (s.decode .empty).error = none) :
  (s.decode .empty).graph.Complete
  := by
  obtain ⟨size, d, -, walked, graph_eq, success⟩ := walked_of_decode decoded
  have tracked := Decoding.tracks_walk walked
  have sorted := (emits_walk walked).finish.1
  have finished := Decoding.finish_of_success success (tracked.unresolved?_linkAll success)
  have nextId_eq := tracked.nextId_finish success
  rw [graph_eq]
  refine ⟨sorted, ?_, fun id inside refers => ?_⟩
  · rw [nextId_eq, ← tracked.allTypes_eq, finished, allTypes_sortAll, Decoding.allTypes_linkAll]
  · have refers := refersToType_of_regular (sorted.regular id inside) refers
    rw [tracked.get_finish success, field_sortMembers refersToType fun _ _ => rfl] at refers
    rw [tracked.get_finish success, field_sortMembers TypeRecord.reference fun _ _ => rfl]
    exact tracked.refers_linkAll success (nextId_eq ▸ inside) refers

/-- A unit with a number, a pointer to a structure that holds the pointer, an array, a function
and a variable. -/
def sampleUnit : Sections where
  order := .little
  abbreviations := ⟨#[
    1, 0x11, 1, 0, 0,
    2, 0x24, 0, 3, 8, 0x0b, 0x0b, 0x3e, 0x0b, 0, 0,
    3, 0x0f, 0, 0x49, 0x13, 0, 0,
    4, 0x13, 1, 3, 8, 0x0b, 0x0b, 0, 0,
    5, 0x0d, 0, 3, 8, 0x49, 0x13, 0x38, 0x0b, 0, 0,
    6, 0x01, 1, 0x49, 0x13, 0, 0,
    7, 0x21, 0, 0x2f, 0x0b, 0, 0,
    8, 0x2e, 1, 3, 8, 0x49, 0x13, 0, 0,
    9, 0x05, 0, 0x49, 0x13, 0, 0,
    10, 0x34, 0, 3, 8, 0x49, 0x13, 0, 0,
    0]⟩
  info := ⟨#[
    68, 0, 0, 0, 4, 0, 0, 0, 0, 0, 8,
    1,
    2, 105, 110, 116, 0, 4, 5,
    3, 24, 0, 0, 0,
    4, 110, 111, 100, 101, 0, 8, 5, 110, 101, 120, 116, 0, 19, 0, 0, 0, 0, 0,
    6, 12, 0, 0, 0, 7, 2, 0,
    8, 102, 0, 12, 0, 0, 0, 9, 19, 0, 0, 0, 0,
    10, 118, 0, 43, 0, 0, 0,
    0]⟩
  strings := .empty
  stringOffsets := .empty
  lineStrings := .empty

theorem decode_sampleUnit :
  (sampleUnit.decode .empty).error = none
  := by
  decide +kernel

end Sections

end CompactTypes.Dwarf

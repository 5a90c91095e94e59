import CompactTypes.Proofs.Dwarf.Decoded
import CompactTypes.Proofs.Graph.WellFormed

/-!
# Decoding lets a graph grow

Decoding any sections lets a well-formed graph grow, whether or not an error stops it,
`GrowsTo.decode`.  During the walk all that references can lead to are records of the graph,
`Decoding.Inside`.
-/

namespace CompactTypes

namespace Dwarf.Decoding

/-- The graph has grown from another one, and references lead to its records. -/
structure Inside (g : Graph) (d : Decoding) : Prop where
  grows : g.GrowsTo d.graph
  void_lt : d.void < d.graph.nextId
  meaning_lt : ∀ (offset : Nat) (id : TypeId), d.meanings[offset]? = some (.record id) →
    id < d.graph.nextId

variable {g : Graph} {d d' : Decoding}

theorem Inside.transport (h : d.Inside g) (graph : d'.graph = d.graph) (void : d'.void = d.void)
    (meanings : d'.meanings = d.meanings) :
  d'.Inside g
  := by
  constructor
  · rw [graph]
    exact h.grows
  · rw [graph, void]
    exact h.void_lt
  · rw [graph, meanings]
    exact h.meaning_lt

theorem Inside.update (h : d.Inside g) (id : TypeId) (f : TypeRecord → TypeRecord)
    (kind : ∀ r, (f r).kind = r.kind) (name : ∀ r, (f r).name = r.name)
    (referent : ∀ r, ∀ target ∈ (f r).referents, target ∈ r.referents ∨ target < d.graph.nextId) :
  (d.update id f).Inside g
  := by
  have same : (d.update id f).graph.nextId = d.graph.nextId := d.graph.nextId_update id f
  constructor
  · exact h.grows.update id f kind name referent
  · exact same ▸ h.void_lt
  · exact same ▸ h.meaning_lt

theorem Inside.push (h : d.Inside g) {r : TypeRecord} (referents : r.referents = []) :
  (d.push r).Inside g
  := by
  have more {id : TypeId} (inside : id < d.graph.nextId) : id < (d.push r).graph.nextId :=
    Nat.lt_of_lt_of_eq (Nat.lt_succ_of_lt inside) (d.graph.nextId_push r).symm
  constructor
  · apply h.grows.push
    rw [referents]
    exact nofun
  · exact more h.void_lt
  · exact fun offset id found => more (h.meaning_lt offset id found)

/-- The record of a contribution is what its entry means. -/
theorem Inside.record {entry : Nat} {c : Contribution} {r : TypeRecord} {parent : Option Scope}
    (h : d.Inside g) (record : c.record? = some r) (fits : c.Fits parent) :
  (d.add entry c).Inside g
  := by
  have graph := graph_add_record (d := d) record entry
  have bare := bare_of_fits record fits
  have pushed := h.push (TypeRecord.referents_eq_nil bare.reference bare.members)
  constructor
  · rw [graph]
    exact pushed.grows
  · rw [graph, void_add]
    exact pushed.void_lt
  · intro offset id found
    rw [graph]
    rcases meaning_add found with new | old
    · obtain ⟨rfl, -⟩ := Contribution.plain_of_meaning? new fits
      exact Nat.lt_of_lt_of_eq (Nat.lt_succ_self _) (d.graph.nextId_push r).symm
    · exact pushed.meaning_lt offset id old

theorem kept_inside (g : Graph) :
  Kept (Inside g)
  := by
  constructor
  · exact fun h graph void meanings => h.transport graph void meanings
  · intro d id f h same referent
    refine h.update id f (fun r => (same r).1) (fun r => (same r).2.1) fun r target mem => ?_
    refine (referent r target mem).imp_right ?_
    rintro rfl
    exact h.void_lt
  · exact fun h _ bare => h.push (TypeRecord.referents_eq_nil bare.reference bare.members)
  · exact fun h record fits => h.record record fits
  · intro d entry target h
    exact ⟨h.grows, h.void_lt, fun offset id found => h.meaning_lt offset id (meaning_define found)⟩
  · intro d outer count h
    refine (h.push rfl).update outer _ (fun _ => rfl) (fun _ => rfl) fun r target mem => ?_
    refine (TypeRecord.referent_withReference mem).imp_right ?_
    rintro rfl
    exact Nat.lt_of_lt_of_eq (Nat.lt_succ_self _) (d.graph.nextId_push _).symm

/-- The two types at the start of a walk refer to nothing. -/
theorem inside_start (h : g.WellFormed) (indexSize : Nat) :
  (start g indexSize).Inside g
  := by
  have both := (h.growsTo.push (r := voidRecord) nofun).push (r := indexRecord indexSize) nofun
  have count : ((g.push voidRecord).push (indexRecord indexSize)).nextId = g.nextId + 2 := by
    rw [Graph.nextId_push, Graph.nextId_push]
  constructor
  · apply both.withIndexType
    rw [count]
    exact Nat.lt_succ_self _
  · exact Nat.lt_of_lt_of_eq (Nat.lt_add_of_pos_right Nat.two_pos) count.symm
  · intro offset id found
    simp [start] at found

theorem Inside.grows_finish (h : d.Inside g) :
  g.GrowsTo d.finish.1
  := by
  have both : g.GrowsTo d.finish.1 ∧ d.finish.1.nextId = d.graph.nextId := by
    refine finish_keeps (Q := fun g' => g.GrowsTo g' ∧ g'.nextId = d.graph.nextId) ?_
      ⟨h.grows, rfl⟩
    rintro g' id f ⟨grows, count⟩ same referent
    refine ⟨grows.update id f (fun r => (same r).1) (fun r => (same r).2.1) fun r target mem => ?_,
      (g'.nextId_update id f).trans count⟩
    refine (referent r target mem).imp_right ?_
    rintro ⟨source, found⟩
    exact count ▸ of_resolve? h.void_lt h.meaning_lt found
  exact both.1

end Dwarf.Decoding

/-- Decoding lets a well-formed graph grow, whether or not an error stops it. -/
theorem Graph.WellFormed.decode {g : Graph} (h : g.WellFormed) (s : Dwarf.Sections) :
  g.GrowsTo (s.decode g).graph
  := by
  rw [Dwarf.Sections.decode]
  split
  next => exact h.growsTo
  next size _ =>
    have walked : (s.walk s.units g size).1.Inside g :=
      (Dwarf.Decoding.kept_inside g).walk (Dwarf.Decoding.inside_start h size)
    dsimp only
    split
    next stopped =>
      rw [stopped] at walked
      exact walked.grows
    next done =>
      rw [done] at walked
      exact walked.grows_finish

end CompactTypes

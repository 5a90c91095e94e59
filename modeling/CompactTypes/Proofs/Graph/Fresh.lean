import CompactTypes.Proofs.Graph.Numbering

/-!
# Fresh graphs

A graph is `Fresh` if no symbol has taken a record yet and every type that a record refers to
has a place in the output.  Adding a record that refers to nothing keeps a graph fresh, and so
does a change of a record that makes it refer to types of the output only.  A fresh graph is
`Complete` if moreover no record lacks a reference that it has to have.
-/

namespace CompactTypes

namespace TypeRecord

/-- The types that a record refers to: the one that it is built on, and those of its members. -/
def referents (r : TypeRecord) : List TypeId :=
  r.reference.toList ++ r.members.toList.map Member.reference

/-- A plain type is of some kind, a function of the kind of functions, and a variable of none. -/
def Regular (r : TypeRecord) : Prop :=
  match r.symbolClass? with
  | none => r.kind ≠ .unknown
  | some .function => r.kind = .function
  | some .object => r.kind = .unknown

theorem mem_referents {r : TypeRecord} {id : TypeId} :
  id ∈ r.referents ↔ r.reference = some id ∨ ∃ m ∈ r.members, m.reference = id
  := by
  rw [referents, List.mem_append, List.mem_map, Option.mem_toList]
  simp only [Array.mem_toList_iff]

theorem referents_eq_nil {r : TypeRecord} (reference : r.reference = none)
    (members : r.members = #[]) :
  r.referents = []
  := by
  rw [referents, reference, members]
  rfl

theorem referent_withReference {r : TypeRecord} {target other : TypeId}
    (mem : other ∈ (r.withReference target).referents) :
  other ∈ r.referents ∨ other = target
  := by
  rcases mem_referents.mp mem with reference | member
  · exact .inr (Option.some.inj reference).symm
  · exact .inl (mem_referents.mpr (.inr member))

theorem referent_addMember {r : TypeRecord} {m : Member} {target : TypeId}
    (mem : target ∈ (r.addMember m).referents) :
  target ∈ r.referents ∨ target = m.reference
  := by
  rcases mem_referents.mp mem with reference | ⟨m', listed, rfl⟩
  · exact .inl (mem_referents.mpr (.inl reference))
  · rcases Array.mem_push.mp listed with old | rfl
    · exact .inl (mem_referents.mpr (.inr ⟨m', old, rfl⟩))
    · exact .inr rfl

theorem regular_of_eq {r r' : TypeRecord} (kind : r'.kind = r.kind) (flags : r'.flags = r.flags)
    (h : r.Regular) :
  r'.Regular
  := by
  rw [Regular, symbolClass?] at h ⊢
  rw [kind, flags]
  exact h

theorem symbolClass?_of_isSymbol_eq_false {r : TypeRecord} (h : r.isSymbol = false) :
  r.symbolClass? = none
  := by
  rw [isSymbol_eq_isSome] at h
  exact Option.isNone_iff_eq_none.mp (Option.isSome_eq_false_iff.mp h)

end TypeRecord

namespace Graph

variable {g : Graph}

/-- No symbol has taken a record yet, and records refer to types that have a place in the
output only. -/
structure Fresh (g : Graph) : Prop where
  inside : ∀ id ∈ g.allTypes, id < g.nextId
  referent : ∀ id, ∀ target ∈ (g.get id).referents, target ∈ g.emittedTypes
  regular : ∀ id < g.nextId, (g.get id).Regular
  untaken : ∀ c, g.taken c = #[]
  indexType : ∃ id ∈ g.emittedTypes, g.indexType = some id

/-- A new record that refers to nothing keeps a graph fresh. -/
theorem Fresh.push (h : g.Fresh) {r : TypeRecord} (regular : r.Regular)
    (referents : r.referents = []) :
  (g.push r).Fresh
  := by
  have more (id : TypeId) (mem : id ∈ g.emittedTypes) : id ∈ (g.push r).emittedTypes :=
    (mem_emittedTypes_push h.inside).mpr (.inl mem)
  constructor
  · intro id mem
    rw [nextId_push]
    rcases Array.mem_push.mp mem with old | rfl
    · exact Nat.lt_succ_of_lt (h.inside id old)
    · exact Nat.lt_succ_self _
  · intro id target mem
    rw [get_push] at mem
    split at mem
    · rw [referents] at mem
      cases mem
    · exact more target (h.referent id target mem)
  · intro id inside
    rw [get_push]
    split
    next => exact regular
    next old =>
      rw [nextId_push] at inside
      exact h.regular id (Nat.lt_of_le_of_ne (Nat.le_of_lt_succ inside) old)
  · intro c
    rw [← h.untaken c]
    cases c <;> rfl
  · obtain ⟨id, mem, indexType⟩ := h.indexType
    exact ⟨id, more id mem, indexType⟩

/-- A change of a record keeps a graph fresh if it makes the record refer to types of the output
only, and does not change what kind of record it is. -/
theorem Fresh.update (h : g.Fresh) (id : TypeId) (f : TypeRecord → TypeRecord)
    (kind : ∀ r, (f r).kind = r.kind) (flags : ∀ r, (f r).flags = r.flags)
    (referent : ∀ r, ∀ target ∈ (f r).referents, target ∈ r.referents ∨ target ∈ g.emittedTypes) :
  (g.update id f).Fresh
  := by
  have emitted : (g.update id f).emittedTypes = g.emittedTypes := emittedTypes_update g id f flags
  constructor
  · rw [nextId_update]
    exact h.inside
  · intro other target mem
    rw [emitted]
    rw [get_update] at mem
    split at mem
    · exact (referent _ target mem).elim (h.referent other target) fun mem => mem
    · exact h.referent other target mem
  · intro other inside
    rw [nextId_update] at inside
    have same := g.field_get_update (fun r => (r.kind, r.flags)) id f
      (fun r => Prod.ext (kind r) (flags r)) other
    obtain ⟨kind_eq, flags_eq⟩ := Prod.mk.inj same
    exact TypeRecord.regular_of_eq kind_eq flags_eq (h.regular other inside)
  · intro c
    rw [← h.untaken c]
    cases c <;> rfl
  · rw [emitted]
    exact h.indexType

/-- The types of a fresh graph are exactly its records, and every type that is built on another
one, every function and every variable refers to a type. -/
structure Complete (g : Graph) : Prop extends Fresh g where
  allTypes_eq : g.allTypes.toList = List.range g.nextId
  refers : ∀ id < g.nextId, (g.get id).kind.needsReference ∨ (g.get id).isSymbol →
    ∃ target, (g.get id).reference = some target

theorem Complete.nodup_emittedTypes (h : g.Complete) :
  g.emittedTypes.Nodup
  := by
  rw [emittedTypes, h.allTypes_eq]
  exact List.nodup_range.filter _

/-- A record that a symbol can take has no place in the output, so no record refers to it. -/
theorem Fresh.not_mem_referents (h : g.Fresh) {id : TypeId} (symbol : (g.get id).isSymbol = true)
    (other : TypeId) :
  id ∉ (g.get other).referents
  := fun mem => not_mem_emittedTypes symbol (h.referent other id mem)

end Graph

end CompactTypes

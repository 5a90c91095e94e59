import CompactTypes.Proofs.Resolution.Tables

/-!
# What resolution leaves alone

Resolving a table adds a record for every symbol that takes a copy or a placeholder, and of the
records that were there it changes only those that are taken: a record that no symbol had taken
before and that some symbol of the table looks for is taken by the first such symbol,
`Graph.afterSymbols`.  A copy does not depend on whether its source has been taken already.  Hence
`framed_resolve`, by the invariant `Graph.Framed` of the run over the table.
-/

namespace CompactTypes

namespace Graph

variable {g g' : Graph}

/-- The record that a symbol looks for, if there is one. -/
def sought? (g : Graph) (s : Symbol) : Option TypeId :=
  s.symbolClass?.bind fun c => g.firstNamed? c s.baseName

/-- The record at a position after some symbols have taken records.  It is taken by the first
symbol that looks for it, unless it was taken before. -/
def afterSymbols (g : Graph) (symbols : List Symbol) (id : TypeId) : TypeRecord :=
  match symbols.find? fun s => g.sought? s = some id with
  | some s => if (g.get id).flags.claimed then g.get id else (g.get id).claimedBy s.index
  | none => g.get id

/-- The copy of a record that stands at another position.  A record that refers to itself has a
copy that refers to itself. -/
def relocated (g : Graph) (source id : TypeId) : TypeRecord :=
  { g.get source with
    reference :=
      if (g.get source).reference = some source then some id else (g.get source).reference }

/-- The record at a position in the second graph is the one that a symbol has added to the
first. -/
inductive Added (g g' : Graph) (id : TypeId) (s : Symbol) : Outcome → Prop where
  | copy {source : TypeId} : g.sought? s = some source →
    g'.get id = (g.relocated source id).claimedBy s.index → Added g g' id s .duplicated
  | placeholder {c : SymbolClass} : s.symbolClass? = some c → g.sought? s = none →
    g'.get id = (placeholder s c id).claimedBy s.index → Added g g' id s .unknown

/-! ### Looking for records -/

theorem sought?_of_class {s : Symbol} {c : SymbolClass} (hclass : s.symbolClass? = some c) :
  g.sought? s = g.firstNamed? c s.baseName
  := by
  rw [sought?, hclass]
  rfl

theorem sought?_of_none {s : Symbol} (hclass : s.symbolClass? = none) :
  g.sought? s = none
  := by
  rw [sought?, hclass]
  rfl

/-- What a symbol looks for is a record of the graph. -/
theorem sought?_lt {s : Symbol} {id : TypeId} (found : g.sought? s = some id) :
  id < g.nextId
  := by
  obtain ⟨c, -, found⟩ := Option.bind_eq_some_iff.mp found
  rw [← find?_ofGraph_eq_firstNamed?] at found
  exact (g.sound_ofGraph c _ id found).1

/-- One more symbol takes the record that it looks for, unless that has been taken. -/
theorem afterSymbols_append (g : Graph) (symbols : List Symbol) (s : Symbol) (id : TypeId) :
  g.afterSymbols (symbols ++ [s]) id
    = if g.sought? s = some id ∧ (g.afterSymbols symbols id).flags.claimed = false then
        (g.get id).claimedBy s.index
      else g.afterSymbols symbols id
  := by
  have last : [s].find? (fun s => g.sought? s = some id)
      = if g.sought? s = some id then some s else none := by
    rw [List.find?_singleton]
    simp only [decide_eq_true_eq]
  rw [afterSymbols, afterSymbols, List.find?_append, last]
  cases symbols.find? fun s => g.sought? s = some id with
  | some first =>
    -- The record is taken already.
    cases claimed : (g.get id).flags.claimed <;> simp [claimed, TypeRecord.claimedBy]
  | none =>
    by_cases here : g.sought? s = some id
    · cases claimed : (g.get id).flags.claimed <;> simp [here]
    · simp [here]

/-- Which symbol has taken a record is all that changes about it. -/
theorem unclaimed_afterSymbols (g : Graph) (symbols : List Symbol) (id : TypeId) :
  (g.afterSymbols symbols id).unclaimed = (g.get id).unclaimed
  := by
  rw [afterSymbols]
  split
  · split <;> rfl
  · rfl

/-! ### What a symbol does -/

/-- A new record that a symbol claims is the only change. -/
theorem get_claim_pushDetached (g : Graph) (r : TypeRecord) (c : SymbolClass) (slot : Nat)
    (id : TypeId) :
  ((g.pushDetached r).claim c g.nextId slot).get id
    = if id = g.nextId then r.claimedBy slot else g.get id
  := by
  have inside : g.nextId < (g.pushDetached r).nextId := by
    rw [nextId_pushDetached]
    exact Nat.lt_succ_self _
  split
  next new =>
    rw [new, get_claim_self _ c slot inside, get_pushDetached, if_pos rfl]
  next old => rw [get_claim_of_ne _ c slot old, get_pushDetached, if_neg old]

/-- A copy of a record does not depend on the symbol that has taken the record. -/
theorem claimedBy_copyAt {source : TypeId} (same : (g'.get source).unclaimed
    = (g.get source).unclaimed) (id : TypeId) (slot : Nat) :
  (g'.copyAt source id).claimedBy slot = (g.relocated source id).claimedBy slot
  := by
  rw [copyAt, relocated, same]
  by_cases itself : (g.get source).reference = some source <;>
    simp [itself, TypeRecord.unclaimed, TypeRecord.withReference, TypeRecord.claimedBy]

/-- The outcomes of the symbols that have added a record. -/
def additions (r : Resolution) : List (Symbol × Outcome) :=
  r.outcomes.toList.filter fun entry => entry.2 ≠ .matched

/-- The graph after some symbols: the records that were there are taken or not, and the others are
those that symbols have added, in order. -/
structure Framed (g : Graph) (symbols : List Symbol) (r : Resolution) : Prop where
  old : ∀ id < g.nextId, r.graph.get id = g.afterSymbols symbols id
  nextId_eq : r.graph.nextId = g.nextId + (additions r).length
  new : List.Forall₂ (fun id entry => g.Added r.graph id entry.1 entry.2)
    (List.range' g.nextId (additions r).length) (additions r)

variable {symbols : List Symbol} {r : Resolution}

theorem Added.congr {id : TypeId} {s : Symbol} {outcome : Outcome} {g₁ g₂ : Graph}
    (h : g.Added g₁ id s outcome) (same : g₂.get id = g₁.get id) :
  g.Added g₂ id s outcome
  := by
  cases h with
  | copy found record => exact .copy found (same.trans record)
  | placeholder hclass missing record => exact .placeholder hclass missing (same.trans record)

/-- A symbol that adds a record is the last one to do so. -/
theorem Framed.add (h : g.Framed symbols r) {s : Symbol} {outcome : Outcome} {g₁ : Graph}
    (new : outcome ≠ .matched) (nextId_eq : g₁.nextId = r.graph.nextId + 1)
    (kept : ∀ id < r.graph.nextId, g₁.get id = r.graph.get id)
    (same : ∀ id < g.nextId, g.afterSymbols (symbols ++ [s]) id = g.afterSymbols symbols id)
    (added : g.Added g₁ r.graph.nextId s outcome) :
  g.Framed (symbols ++ [s]) ⟨g₁, r.outcomes.push (s, outcome)⟩
  := by
  have grown : additions ⟨g₁, r.outcomes.push (s, outcome)⟩ = additions r ++ [(s, outcome)] := by
    rw [additions, Array.toList_push, List.filter_append, List.filter_singleton]
    simp [new, additions]
  have first : g.nextId ≤ r.graph.nextId := by
    rw [h.nextId_eq]
    exact Nat.le_add_right _ _
  constructor
  · intro id inside
    rw [same id inside, ← h.old id inside]
    exact kept id (Nat.lt_of_lt_of_le inside first)
  · rw [nextId_eq, h.nextId_eq, grown, List.length_append]
    rfl
  · rw [grown, List.length_append, List.length_singleton, List.range'_1_concat, ← h.nextId_eq]
    have last : List.Forall₂ (fun id entry => g.Added g₁ id entry.1 entry.2) [r.graph.nextId]
        [(s, outcome)] := .cons added .nil
    refine List.rel_append ?_ last
    apply (forall₂_and_mem h.new).imp
    rintro id entry ⟨mem, earlier⟩
    apply earlier.congr
    apply kept
    rw [List.mem_range'_1, ← h.nextId_eq] at mem
    exact mem.2

/-- A symbol that takes a record of the graph adds none. -/
theorem Framed.take (h : g.Framed symbols r) {s : Symbol} {c : SymbolClass} {id : TypeId}
    (found : g.sought? s = some id) (free : (r.graph.get id).flags.claimed = false) :
  g.Framed (symbols ++ [s]) ⟨r.graph.claim c id s.index, r.outcomes.push (s, .matched)⟩
  := by
  have inside := sought?_lt found
  have grown : additions ⟨r.graph.claim c id s.index, r.outcomes.push (s, .matched)⟩
      = additions r := by
    rw [additions, Array.toList_push, List.filter_append, List.filter_singleton]
    simp [additions]
  have unchanged : r.graph.get id = g.get id := by
    have state := h.old id inside
    rw [state] at free
    rw [state, afterSymbols]
    rw [afterSymbols] at free
    split at free
    · split at free
      next claimed =>
        rw [claimed] at free
        cases free
      next => cases free
    · rfl
  constructor
  · intro other hother
    rw [afterSymbols_append, found]
    by_cases same : id = other
    · subst same
      rw [← h.old id inside, if_pos ⟨rfl, free⟩, get_claim_self _ c s.index, unchanged]
      rw [h.nextId_eq]
      exact Nat.lt_of_lt_of_le inside (Nat.le_add_right _ _)
    · rw [if_neg fun both => same (Option.some.inj both.1), ← h.old other hother]
      exact get_claim_of_ne _ c s.index (Ne.symm same)
  · rw [nextId_claim, grown]
    exact h.nextId_eq
  · rw [grown]
    apply (forall₂_and_mem h.new).imp
    rintro other entry ⟨mem, earlier⟩
    apply earlier.congr
    apply get_claim_of_ne
    rw [List.mem_range'_1] at mem
    exact Nat.ne_of_gt (Nat.lt_of_lt_of_le inside mem.1)

/-- One more symbol. -/
theorem Framed.step (h : g.Framed symbols r) (s : Symbol) :
  g.Framed (symbols ++ [s]) (r.step (NameIndex.ofGraph g) s)
  := by
  have other (missing : ∀ id, g.sought? s = some id → (r.graph.get id).flags.claimed = true)
      (id : TypeId) (inside : id < g.nextId) :
      g.afterSymbols (symbols ++ [s]) id = g.afterSymbols symbols id := by
    rw [afterSymbols_append, if_neg]
    rintro ⟨found, free⟩
    rw [← h.old id inside, missing id found] at free
    cases free
  cases hclass : s.symbolClass? with
  | none =>
    rw [Resolution.step_of_none _ r hclass]
    refine ⟨fun id inside => ?_, h.nextId_eq, h.new⟩
    rw [h.old id inside, other _ id inside]
    rw [sought?_of_none hclass]
    intro id same
    cases same
  | some c =>
    have wanted := sought?_of_class (g := g) hclass
    rw [Resolution.step_of_some _ r hclass, resolveSymbol, find?_ofGraph_eq_firstNamed?, ← wanted]
    have added (outcome : Outcome) (new : outcome ≠ .matched) (record : TypeRecord)
        (missing : ∀ id, g.sought? s = some id → (r.graph.get id).flags.claimed = true)
        (added : g.Added ((r.graph.pushDetached record).claim c r.graph.nextId s.index)
          r.graph.nextId s outcome) :
        g.Framed (symbols ++ [s])
          ⟨(r.graph.pushDetached record).claim c r.graph.nextId s.index,
            r.outcomes.push (s, outcome)⟩ := by
      apply h.add new _ _ (other missing) added
      · rw [nextId_claim, nextId_pushDetached]
      · intro id inside
        rw [get_claim_pushDetached, if_neg (Nat.ne_of_lt inside)]
    cases found : g.sought? s with
    | none =>
      apply added .unknown (by decide)
      · rw [found]
        intro id same
        cases same
      · refine .placeholder hclass found ?_
        rw [get_claim_pushDetached, if_pos rfl]
    | some source =>
      by_cases claimed : (r.graph.get source).flags.claimed = true
      · simp only [if_pos claimed]
        apply added .duplicated (by decide)
        · rw [found]
          rintro id ⟨⟩
          exact claimed
        · refine .copy found ?_
          rw [get_claim_pushDetached, if_pos rfl]
          apply claimedBy_copyAt
          rw [h.old source (sought?_lt found), unclaimed_afterSymbols]
      · simp only [if_neg claimed]
        exact h.take found (Bool.not_eq_true _ ▸ claimed)

theorem Framed.foldl_step (more : List Symbol) (h : g.Framed symbols r) :
  g.Framed (symbols ++ more) (more.foldl (Resolution.step (NameIndex.ofGraph g)) r)
  := by
  induction more generalizing symbols r with
  | nil =>
    rw [List.append_nil]
    exact h
  | cons s more ih =>
    have all := ih (h.step s)
    rwa [List.append_assoc] at all

theorem Framed.resolve (g : Graph) (symbols : List Symbol) :
  g.Framed symbols (CompactTypes.resolve g symbols)
  := by
  have start : g.Framed [] ⟨g, #[]⟩ := ⟨fun _ _ => rfl, rfl, .nil⟩
  exact start.foldl_step symbols

end Graph

/-! ### Tables -/

theorem length_additions (r : Resolution) :
  (Graph.additions r).length = r.statistics.duplicated + r.statistics.unknown
  := by
  rw [Graph.additions, ← List.countP_eq_length_filter]
  change _ = r.outcomes.toList.countP _ + r.outcomes.toList.countP _
  induction r.outcomes.toList with
  | nil => rfl
  | cons entry outcomes ih =>
    obtain ⟨s, outcome⟩ := entry
    simp only [List.countP_cons, ih]
    cases outcome <;> simp <;> omega

/-- A table has an outcome for every symbol that has a class, in order. -/
theorem symbols_outcomes (g : Graph) (symbols : List Symbol) :
  (resolve g symbols).outcomes.toList.map Prod.fst
    = symbols.filter fun s => s.symbolClass?.isSome
  := by
  suffices all : ∀ r : Resolution,
      (symbols.foldl (Resolution.step (NameIndex.ofGraph g)) r).outcomes.toList.map Prod.fst
        = r.outcomes.toList.map Prod.fst ++ symbols.filter fun s => s.symbolClass?.isSome from
    all ⟨g, #[]⟩
  induction symbols with
  | nil =>
    intro r
    rw [List.filter_nil, List.append_nil]
    rfl
  | cons s symbols ih =>
    intro r
    rw [List.foldl_cons, ih]
    cases hclass : s.symbolClass? with
    | none => simp [Resolution.step_of_none _ r hclass, hclass]
    | some c => simp [Resolution.step_of_some _ r hclass, hclass]

namespace Graph

/-- A record that was there is as before, unless no symbol had taken it and a symbol of the table
takes it. -/
theorem afterSymbols_eq_or (g : Graph) (symbols : List Symbol) (id : TypeId) :
  g.afterSymbols symbols id = g.get id
    ∨ (g.get id).flags.claimed = false
      ∧ ∃ c, ∃ s ∈ eligible c symbols, g.firstNamed? c s.baseName = some id
        ∧ g.afterSymbols symbols id = (g.get id).claimedBy s.index
  := by
  rw [afterSymbols]
  split
  next s first =>
    split
    next => exact .inl rfl
    next free =>
      have wanted := List.find?_some first
      rw [decide_eq_true_eq] at wanted
      obtain ⟨c, hclass, found⟩ := Option.bind_eq_some_iff.mp wanted
      refine .inr ⟨Bool.not_eq_true _ ▸ free, c, s, ?_, found, rfl⟩
      rw [eligible, List.mem_filter, decide_eq_true_eq]
      exact ⟨List.mem_of_find?_eq_some first, (symbolClass?_eq_some_iff s c).mp hclass⟩
  next => exact .inl rfl

/-- What resolving a table changes.  The types and the type of array indices are as before, and
every record keeps its position.  A plain type stays as it is, and any other record is either the
same or was free and is now taken by a symbol of the table for which it is the first of all types.
The new records are as many as the copies and the placeholders, in order, and are not in the list
of all types: a copy is the record of the graph before the table that its symbol looks for, apart
from the symbol that has taken it and from a reference to itself. -/
theorem framed_resolve (g : Graph) (symbols : List Symbol) :
  let r := resolve g symbols
  let g' := r.graph
  g'.allTypes = g.allTypes
    ∧ g'.indexType = g.indexType
    ∧ (∀ id < g.nextId, (g.get id).isSymbol = false → g'.get id = g.get id)
    ∧ (∀ id < g.nextId, g'.get id = g.get id
      ∨ (g.get id).flags.claimed = false
        ∧ ∃ c, ∃ s ∈ eligible c symbols, g.firstNamed? c s.baseName = some id
          ∧ g'.get id = (g.get id).claimedBy s.index)
    ∧ g'.nextId = g.nextId + (r.statistics.duplicated + r.statistics.unknown)
    ∧ ((∀ id ∈ g.allTypes, id < g.nextId) → ∀ id ∈ g'.allTypes, id < g.nextId)
    ∧ r.outcomes.toList.map Prod.fst = symbols.filter (fun s => s.symbolClass?.isSome)
    ∧ List.Forall₂ (fun id entry => g.Added g' id entry.1 entry.2)
      (List.range' g.nextId (r.statistics.duplicated + r.statistics.unknown))
      (r.outcomes.toList.filter fun entry => entry.2 ≠ .matched)
  := by
  have frame := Framed.resolve g symbols
  have kept := g.underlies_resolve symbols
  have records (id : TypeId) (inside : id < g.nextId) :=
    frame.old id inside ▸ g.afterSymbols_eq_or symbols id
  intro r g'
  refine ⟨kept.allTypes_eq, kept.indexType_eq, ?_, records, ?_, ?_, symbols_outcomes g symbols, ?_⟩
  · intro id inside plain
    rcases records id inside with same | ⟨-, c, s, -, found, -⟩
    · exact same
    · rw [isSymbol_of_firstNamed? found] at plain
      cases plain
  · rw [← length_additions r]
    exact frame.nextId_eq
  · rw [kept.allTypes_eq]
    exact id
  · rw [← length_additions r]
    exact frame.new

end Graph

end CompactTypes

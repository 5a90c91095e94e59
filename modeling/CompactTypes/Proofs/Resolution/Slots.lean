import CompactTypes.Proofs.Graph.NameIndex
import CompactTypes.Proofs.Graph.Updates
import CompactTypes.Proofs.Results
import CompactTypes.Resolution

/-!
# Symbols and their records

After any number of symbol tables has been resolved, the records that are listed as taken
belong to the symbols that have types, one to each and in the same order, `slotted_resolveAll`.
The invariant `Graph.Slotted` ties the lists to the symbols seen so far.  It is kept because a
record that has been found is in the graph and has the class it was found for, `Sound`, and
because a symbol takes a record that no other one has taken, `resolveSymbol_eq_claim`.
-/

namespace CompactTypes

/-- The kind of the symbols of a class. -/
def SymbolClass.kind : SymbolClass → SymbolKind
  | .function => .function
  | .object => .object

/-- The symbols of a class that have types, in order: those that are defined and of its kind. -/
def eligible (c : SymbolClass) (symbols : List Symbol) : List Symbol :=
  symbols.filter fun s => s.place = .defined ∧ s.kind = c.kind

theorem symbolClass?_eq_some_iff (s : Symbol) (c : SymbolClass) :
  s.symbolClass? = some c ↔ s.place = .defined ∧ s.kind = c.kind
  := by
  rw [Symbol.symbolClass?]
  cases s.place <;> cases s.kind <;> cases c <;> simp [SymbolKind.symbolClass?, SymbolClass.kind]

theorem eligible_append (c : SymbolClass) (symbols symbols' : List Symbol) :
  eligible c (symbols ++ symbols') = eligible c symbols ++ eligible c symbols'
  := List.filter_append symbols symbols'

theorem eligible_singleton (c : SymbolClass) (s : Symbol) :
  eligible c [s] = if s.symbolClass? = some c then [s] else []
  := by
  by_cases h : s.place = .defined ∧ s.kind = c.kind
  · rw [if_pos ((symbolClass?_eq_some_iff s c).mpr h), eligible,
      List.filter_cons_of_pos (by simpa using h)]
    rfl
  · rw [if_neg (mt (symbolClass?_eq_some_iff s c).mp h), eligible,
      List.filter_cons_of_neg (by simpa using h)]
    rfl

/-- A symbol without a class makes no difference. -/
theorem eligible_append_of_ineligible (c : SymbolClass) (symbols : List Symbol) {s : Symbol}
    (ineligible : s.symbolClass? = none) :
  eligible c (symbols ++ [s]) = eligible c symbols
  := by
  have other : s.symbolClass? ≠ some c := by
    rw [ineligible]
    exact (Option.some_ne_none c).symm
  rw [eligible_append, eligible_singleton, if_neg other, List.append_nil]

/-- The flag of a class. -/
def Flags.has (flags : Flags) : SymbolClass → Bool
  | .function => flags.function
  | .object => flags.object

theorem has_ofClass (c : SymbolClass) :
  (Flags.ofClass c).has c = true
  := by
  cases c <;> rfl

theorem has_of_symbolClass? {r : TypeRecord} {c : SymbolClass} (h : r.symbolClass? = some c) :
  r.flags.has c = true
  := by
  rw [TypeRecord.symbolClass?] at h
  split at h
  next function =>
    cases h
    exact function
  next =>
    split at h
    next object =>
      cases h
      exact object
    next => cases h

theorem Resolution.step_of_none (index : NameIndex) (r : Resolution) {s : Symbol}
    (h : s.symbolClass? = none) :
  r.step index s = r
  := by
  simp [step, h]

theorem Resolution.step_of_some (index : NameIndex) (r : Resolution) {s : Symbol}
    {c : SymbolClass} (h : s.symbolClass? = some c) :
  r.step index s = ⟨(r.graph.resolveSymbol index s c).1,
    r.outcomes.push (s, (r.graph.resolveSymbol index s c).2)⟩
  := by
  simp [step, h]

namespace Graph

variable {g : Graph}

/-! ### Claiming a record -/

@[simp]
theorem nextId_claim (g : Graph) (c : SymbolClass) (id : TypeId) (slot : Nat) :
  (g.claim c id slot).nextId = g.nextId
  := by
  cases c <;> exact nextId_update g id _

theorem get_claim (g : Graph) (c : SymbolClass) (id : TypeId) (slot : Nat) (other : TypeId) :
  (g.claim c id slot).get other = (g.update id (·.claimedBy slot)).get other
  := by
  cases c <;> rfl

theorem get_claim_self (g : Graph) (c : SymbolClass) {id : TypeId} (slot : Nat)
    (h : id < g.nextId) :
  (g.claim c id slot).get id = (g.get id).claimedBy slot
  := by
  rw [get_claim, get_update_self g _ h]

theorem get_claim_of_ne (g : Graph) (c : SymbolClass) {id other : TypeId} (slot : Nat)
    (h : other ≠ id) :
  (g.claim c id slot).get other = g.get other
  := by
  rw [get_claim, get_update_of_ne g _ h]

theorem taken_claim (g : Graph) (c c' : SymbolClass) (id : TypeId) (slot : Nat) :
  ((g.claim c id slot).taken c').toList
    = if c = c' then (g.taken c').toList ++ [id] else (g.taken c').toList
  := by
  cases c <;> cases c' <;> simp [claim, addTaken, taken, update]

/-- Claiming a record keeps the class flags of all records. -/
theorem has_get_claim (g : Graph) (c c' : SymbolClass) (id other : TypeId) (slot : Nat)
    (h : other < g.nextId) :
  ((g.claim c id slot).get other).flags.has c' = (g.get other).flags.has c'
  := by
  by_cases same : other = id
  · subst same
    rw [get_claim_self g c slot h]
    cases c' <;> rfl
  · rw [get_claim_of_ne g c slot same]

theorem has_copyAt (g : Graph) (id newId : TypeId) (c : SymbolClass) :
  (g.copyAt id newId).flags.has c = (g.get id).flags.has c
  := by
  rw [copyAt]
  cases c <;> split <;> rfl

/-! ### What a symbol does -/

/-- A graph has at least the records of another one, and the same lists. -/
structure Extends (g g' : Graph) : Prop where
  nextId_le : g.nextId ≤ g'.nextId
  get_eq : ∀ id < g.nextId, g'.get id = g.get id
  taken_eq : ∀ c, g'.taken c = g.taken c

theorem Extends.refl (g : Graph) :
  g.Extends g
  := ⟨Nat.le_refl _, fun _ _ => rfl, fun _ => rfl⟩

theorem extends_pushDetached (g : Graph) (r : TypeRecord) :
  g.Extends (g.pushDetached r)
  := by
  constructor
  · rw [nextId_pushDetached]
    apply Nat.le_succ
  · intro id inside
    rw [get_pushDetached, if_neg (Nat.ne_of_lt inside)]
  · intro c
    cases c <;> rfl

/-- What an index finds is in the graph, and has the class that it was found for. -/
def Sound (g : Graph) (index : NameIndex) : Prop :=
  ∀ c key id, index.find? c key = some id → id < g.nextId ∧ (g.get id).flags.has c = true

theorem sound_ofGraph (g : Graph) :
  g.Sound (NameIndex.ofGraph g)
  := by
  intro c key id found
  rw [NameIndex.find?_ofGraph] at found
  have named := List.find?_some found
  have hclass := has_of_symbolClass? (NameIndex.key?_eq_some_iff.mp (of_decide_eq_true named)).1
  refine ⟨lt_nextId_of_field (fun r => r.flags.has c) ?_, hclass⟩
  change (g.get id).flags.has c ≠ Flags.none.has c
  rw [hclass]
  cases c <;> exact Bool.noConfusion

/-- A symbol claims a record of its class that is new or that no symbol has claimed. -/
theorem resolveSymbol_eq_claim (index : NameIndex) (sound : g.Sound index) (s : Symbol)
    (c : SymbolClass) :
  ∃ base id, (g.resolveSymbol index s c).1 = base.claim c id s.index ∧ g.Extends base
    ∧ id < base.nextId ∧ (base.get id).flags.has c = true
    ∧ (g.nextId ≤ id ∨ (g.get id).flags.claimed = false)
  := by
  rw [resolveSymbol]
  have fresh (r : TypeRecord) (h : r.flags.has c = true) : g.Extends (g.pushDetached r)
      ∧ g.nextId < (g.pushDetached r).nextId
      ∧ ((g.pushDetached r).get g.nextId).flags.has c = true := by
    refine ⟨extends_pushDetached g r, ?_, ?_⟩
    · rw [nextId_pushDetached]
      apply Nat.lt_succ_self
    · rw [get_pushDetached, if_pos rfl]
      exact h
  cases found : index.find? c s.baseName with
  | none =>
    obtain ⟨extension, inside, flag⟩ := fresh (placeholder s c g.nextId) (has_ofClass c)
    exact ⟨_, _, rfl, extension, inside, flag, .inl (Nat.le_refl _)⟩
  | some id =>
    obtain ⟨present, flag⟩ := sound c s.baseName id found
    by_cases claimed : (g.get id).flags.claimed = true
    · have copied : (g.copyAt id g.nextId).flags.has c = true := by
        rw [has_copyAt, flag]
      obtain ⟨extension, inside, flag⟩ := fresh _ copied
      simp only [if_pos claimed]
      exact ⟨_, _, rfl, extension, inside, flag, .inl (Nat.le_refl _)⟩
    · simp only [if_neg claimed]
      exact ⟨g, id, rfl, .refl g, present, flag, .inr (Bool.not_eq_true _ ▸ claimed)⟩

/-! ### The invariant -/

/-- The record at a position is the one that a symbol of a class has claimed. -/
structure Serves (g : Graph) (c : SymbolClass) (id : TypeId) (s : Symbol) : Prop where
  inside : id < g.nextId
  claimed : (g.get id).flags.claimed = true
  has_class : (g.get id).flags.has c = true
  slot : (g.get id).symbolSlot = s.index

/-- The records that are listed as taken are those of the symbols, one to each in order, and
no record is listed twice. -/
structure Slotted (g : Graph) (symbols : List Symbol) : Prop where
  serves : ∀ c, List.Forall₂ (g.Serves c) (g.taken c).toList (eligible c symbols)
  nodup : (g.functions.toList ++ g.objects.toList).Nodup

theorem Slotted.mem_taken {symbols : List Symbol} (h : g.Slotted symbols) (c : SymbolClass) :
  ∀ id ∈ (g.taken c).toList, id < g.nextId ∧ (g.get id).flags.claimed = true
  := by
  intro id mem
  obtain ⟨s, served⟩ := exists_of_forall₂ (h.serves c) mem
  exact ⟨served.inside, served.claimed⟩

theorem Serves.claim {c c' : SymbolClass} {id other : TypeId} {s : Symbol} {slot : Nat}
    (h : g.Serves c' other s) {base : Graph} (extension : g.Extends base) (ne : other ≠ id) :
  (base.claim c id slot).Serves c' other s
  := by
  have same : (base.claim c id slot).get other = g.get other := by
    rw [get_claim_of_ne base c slot ne, extension.get_eq other h.inside]
  constructor
  · rw [nextId_claim]
    exact Nat.lt_of_lt_of_le h.inside extension.nextId_le
  · rw [same]
    exact h.claimed
  · rw [same]
    exact h.has_class
  · rw [same]
    exact h.slot

theorem nodup_taken_append (g : Graph) (c : SymbolClass) (id : TypeId) (slot : Nat) :
  ((g.claim c id slot).functions.toList ++ (g.claim c id slot).objects.toList).Nodup
    ↔ id ∉ g.functions.toList ++ g.objects.toList ∧ (g.functions.toList ++ g.objects.toList).Nodup
  := by
  rw [← List.nodup_cons]
  apply List.Perm.nodup_iff
  have functions := taken_claim g c .function id slot
  have objects := taken_claim g c .object id slot
  simp only [taken] at functions objects
  rw [functions, objects]
  cases c with
  | function =>
    simp only [if_true, List.append_assoc]
    exact List.perm_middle
  | object =>
    simp only [if_true, ← List.append_assoc]
    exact List.perm_append_singleton id _

/-- A relation between the taken records of a class and its symbols holds after a claim if it held
before and holds for the new pair. -/
theorem forall₂_taken_claim {R : TypeId → Symbol → Prop} {symbols : List Symbol} {base : Graph}
    (extension : g.Extends base) {c c' : SymbolClass} {id : TypeId} {s : Symbol} {slot : Nat}
    (eligible_s : s.symbolClass? = some c)
    (kept : List.Forall₂ R (g.taken c').toList (eligible c' symbols)) (new : c = c' → R id s) :
  List.Forall₂ R ((base.claim c id slot).taken c').toList (eligible c' (symbols ++ [s]))
  := by
  rw [taken_claim, extension.taken_eq, eligible_append, eligible_singleton, eligible_s]
  by_cases same : c = c'
  · rw [if_pos same, if_pos (congrArg some same)]
    exact List.rel_append kept (.cons (new same) .nil)
  · have other : some c ≠ some c' := fun equal => same (Option.some.inj equal)
    rw [if_neg same, if_neg other, List.append_nil]
    exact kept

/-- When a symbol claims a record that none has claimed, the others keep theirs. -/
theorem Slotted.claim {symbols : List Symbol} (h : g.Slotted symbols) {base : Graph}
    (extension : g.Extends base) {c : SymbolClass} {id : TypeId} {s : Symbol}
    (eligible_s : s.symbolClass? = some c) (inside : id < base.nextId)
    (flag : (base.get id).flags.has c = true)
    (unclaimed : g.nextId ≤ id ∨ (g.get id).flags.claimed = false) :
  (base.claim c id s.index).Slotted (symbols ++ [s])
  := by
  have fresh (c' : SymbolClass) (mem : id ∈ (g.taken c').toList) : False := by
    obtain ⟨present, claimed⟩ := h.mem_taken c' id mem
    rcases unclaimed with new | unclaimed
    · exact Nat.not_le_of_lt present new
    · rw [claimed] at unclaimed
      cases unclaimed
  constructor
  · intro c'
    have kept : List.Forall₂ ((base.claim c id s.index).Serves c') (g.taken c').toList
        (eligible c' symbols) := by
      apply (forall₂_and_mem (h.serves c')).imp
      rintro other s' ⟨mem, served⟩
      exact served.claim extension fun same => fresh c' (same ▸ mem)
    apply forall₂_taken_claim extension eligible_s kept
    rintro rfl
    constructor
    · rw [nextId_claim]
      exact inside
    · rw [get_claim_self base c s.index inside]
      rfl
    · rw [has_get_claim base c c id id s.index inside]
      exact flag
    · rw [get_claim_self base c s.index inside]
      rfl
  · rw [nodup_taken_append]
    have functions : base.functions = g.functions := extension.taken_eq .function
    have objects : base.objects = g.objects := extension.taken_eq .object
    rw [functions, objects]
    refine ⟨?_, h.nodup⟩
    intro mem
    rcases List.mem_append.mp mem with mem | mem
    · exact fresh .function mem
    · exact fresh .object mem

/-! ### Runs -/

/-- What an index finds stays in the graph, with its class, when a symbol claims a record. -/
theorem Sound.claim {index : NameIndex} (h : g.Sound index) {base : Graph}
    (extension : g.Extends base) (c : SymbolClass) (id : TypeId) (slot : Nat) :
  (base.claim c id slot).Sound index
  := by
  intro c' key other found
  obtain ⟨present, flag⟩ := h c' key other found
  have inside := Nat.lt_of_lt_of_le present extension.nextId_le
  refine ⟨?_, ?_⟩
  · rw [nextId_claim]
    exact inside
  · rw [has_get_claim base c c' id other slot inside, extension.get_eq other present]
    exact flag

theorem Slotted.skip {symbols : List Symbol} (h : g.Slotted symbols) {s : Symbol}
    (ineligible : s.symbolClass? = none) :
  g.Slotted (symbols ++ [s])
  := by
  constructor
  · intro c
    rw [eligible_append_of_ineligible c symbols ineligible]
    exact h.serves c
  · exact h.nodup

/-- One more symbol keeps the invariant. -/
theorem Slotted.step {symbols : List Symbol} {index : NameIndex} {r : Resolution}
    (h : r.graph.Slotted symbols) (sound : r.graph.Sound index) (s : Symbol) :
  (r.step index s).graph.Slotted (symbols ++ [s]) ∧ (r.step index s).graph.Sound index
  := by
  cases hclass : s.symbolClass? with
  | none =>
    rw [Resolution.step_of_none index r hclass]
    exact ⟨h.skip hclass, sound⟩
  | some c =>
    obtain ⟨base, id, claimed, extension, inside, flag, unclaimed⟩ :=
      resolveSymbol_eq_claim index sound s c
    rw [Resolution.step_of_some index r hclass]
    simp only [claimed]
    exact ⟨h.claim extension hclass inside flag unclaimed, sound.claim extension c id s.index⟩

theorem Slotted.foldl_step {index : NameIndex} (more : List Symbol) {symbols : List Symbol}
    {r : Resolution} (h : r.graph.Slotted symbols) (sound : r.graph.Sound index) :
  (more.foldl (Resolution.step index) r).graph.Slotted (symbols ++ more)
  := by
  induction more generalizing symbols r with
  | nil =>
    rw [List.append_nil]
    exact h
  | cons s more ih =>
    obtain ⟨kept, sound⟩ := h.step sound s
    have all := ih kept sound
    rwa [List.append_assoc] at all

/-- Resolving a table keeps the invariant. -/
theorem Slotted.resolve {symbols : List Symbol} (h : g.Slotted symbols) (more : List Symbol) :
  (CompactTypes.resolve g more).graph.Slotted (symbols ++ more)
  := Slotted.foldl_step (r := ⟨g, #[]⟩) more h (sound_ofGraph g)

/-- The graph after some symbol tables have been resolved, one after the other. -/
def resolveAll (g : Graph) (tables : List (List Symbol)) : Graph :=
  tables.foldl (fun g symbols => (CompactTypes.resolve g symbols).graph) g

theorem Slotted.resolveAll {symbols : List Symbol} (h : g.Slotted symbols)
    (tables : List (List Symbol)) :
  (g.resolveAll tables).Slotted (symbols ++ tables.flatten)
  := by
  induction tables generalizing g symbols with
  | nil =>
    rw [List.flatten_nil, List.append_nil]
    exact h
  | cons table tables ih =>
    have all := ih (h.resolve table)
    rwa [List.append_assoc] at all

end Graph

/-! ### Statistics -/

namespace Resolution

theorem count_total (outcomes : List (Symbol × Outcome)) :
  outcomes.countP (fun entry => entry.2 = .matched)
      + outcomes.countP (fun entry => entry.2 = .duplicated)
      + outcomes.countP (fun entry => entry.2 = .unknown)
    = outcomes.length
  := by
  induction outcomes with
  | nil => rfl
  | cons entry outcomes ih =>
    obtain ⟨s, outcome⟩ := entry
    simp only [List.countP_cons, List.length_cons, ← ih]
    cases outcome <;> simp <;> omega

theorem size_outcomes_foldl (index : NameIndex) (symbols : List Symbol) (r : Resolution) :
  (symbols.foldl (step index) r).outcomes.size
    = r.outcomes.size
      + ((eligible .function symbols).length + (eligible .object symbols).length)
  := by
  induction symbols generalizing r with
  | nil => rfl
  | cons s symbols ih =>
    rw [List.foldl_cons, ih, ← List.singleton_append, eligible_append, eligible_append,
      eligible_singleton, eligible_singleton, List.length_append, List.length_append]
    cases hclass : s.symbolClass? with
    | none =>
      rw [step_of_none index r hclass]
      simp
    | some c =>
      rw [step_of_some index r hclass, Array.size_push]
      cases c <;> simp <;> omega

/-- Every symbol of a table that has a type has exactly one outcome. -/
theorem statistics_total (g : Graph) (symbols : List Symbol) :
  (resolve g symbols).statistics.matched + (resolve g symbols).statistics.duplicated
      + (resolve g symbols).statistics.unknown
    = (eligible .function symbols).length + (eligible .object symbols).length
  := by
  have size := size_outcomes_foldl (.ofGraph g) symbols ⟨g, #[]⟩
  have all := count_total (resolve g symbols).outcomes.toList
  rw [Array.length_toList] at all
  have empty : (⟨g, #[]⟩ : Resolution).outcomes.size = 0 := rfl
  rw [empty, Nat.zero_add] at size
  exact all.trans size

end Resolution

/-- After any number of symbol tables has been resolved, every listed record belongs to the
symbol at the same place among those of its class, and no record is listed twice.  In the call
for one more table, the outcomes are as many as the symbols with types in it. -/
theorem slotted_resolveAll (g : Graph) (functions : g.functions = #[]) (objects : g.objects = #[])
    (tables : List (List Symbol)) :
  (g.resolveAll tables).Slotted tables.flatten
    ∧ ∀ table, let s := (resolve (g.resolveAll tables) table).statistics
      s.matched + s.duplicated + s.unknown
        = (eligible .function table).length + (eligible .object table).length
  := by
  have start : g.Slotted [] := by
    constructor
    · intro c
      cases c with
      | function =>
        rw [Graph.taken, functions]
        exact .nil
      | object =>
        rw [Graph.taken, objects]
        exact .nil
    · rw [functions, objects]
      exact List.nodup_nil
  exact ⟨start.resolveAll tables, Resolution.statistics_total (g.resolveAll tables)⟩

/-- Two calls ask for one function three times, under two names. -/
theorem slotted_resolveAll_function :
  let g := Graph.empty.push
    { TypeRecord.ofKind .function (some "f") with flags := .ofClass .function }
  let tables : List (List Symbol) :=
    [[⟨3, "f", .function, .defined⟩, ⟨5, "f.1", .function, .defined⟩],
      [⟨2, "f", .function, .defined⟩, ⟨4, "f", .function, .undefined⟩]]
  (g.resolveAll tables).functions = #[0, 1, 2] ∧ (g.resolveAll tables).Slotted tables.flatten
  := ⟨by decide +kernel, (slotted_resolveAll _ rfl rfl _).left⟩

end CompactTypes

import CompactTypes.Proofs.Conversion.Alike
import CompactTypes.Proofs.Resolution.Numbered

/-!
# What symbols contribute to the sections

The symbols of a table have an influence on the sections of objects and functions only, and only
through their classes and base names, `Graph.sections_withSymbols`: the entry of a symbol is that of
the first function or variable with its base name, `Graph.symbolEntry`, and the other sections are
those of the graph without symbols.
-/

namespace CompactTypes

/-- The base names of the symbols of a class that have types, in order. -/
def symbolNames (c : SymbolClass) (symbols : List Symbol) : List String :=
  (eligible c symbols).map Symbol.baseName

namespace Graph

open Ctf

/-- The entry of a record that a symbol of a class has taken. -/
def takenEntry (g : Graph) (o : ByteOrder) : SymbolClass → TypeId → Except Error (List UInt8)
  | .function => g.functionEntry o
  | .object => g.objectEntry o

/-- The entry of a symbol of a class by its base name. -/
def symbolEntry (g : Graph) (o : ByteOrder) (c : SymbolClass) (name : String) :
    Except Error (List UInt8) :=
  match g.firstNamed? c name with
  | some first => g.assignIndices.takenEntry o c first
  | none => .ok (o.u16 0)

/-- The sections that encode a graph with symbols of either class that have the given base
names. -/
def sectionsFor (g : Graph) (label : String) (o : ByteOrder) (names : SymbolClass → List String) :
    Except Error Sections := do
  let numbered := g.assignIndices
  let strings := StringTable.ofTexts (numbered.texts label)
  let _ ← typeWord numbered.lastNumber
  let objects ← (names .object).mapM (g.symbolEntry o .object)
  let functions ← (names .function).mapM (g.symbolEntry o .function)
  let types ← numbered.emittedTypes.mapM (numbered.typeEntry o strings)
  return {
    labels := o.u32 (strings.offset (some label)) ++ o.u32 numbered.lastNumber
    objects := objects.flatten
    functions := functions.flatten
    types := types.flatten
    strings := byteList strings.bytes }

variable {g₀ g g' : Graph} {symbols symbols' : List Symbol} {id id' : TypeId}

/-! ### Numbered graphs that stem from one graph -/

/-- Records with one content are alike if they refer to types that have a place in the output. -/
theorem Numbered.alike (h : Numbered g₀ symbols g) (h' : Numbered g₀ symbols' g')
    (complete : g₀.Complete) (record : (g'.get id').unclaimed = (g.get id).unclaimed)
    (referent : ∀ target ∈ (g.get id).referents, target ∈ g₀.emittedTypes) :
  g.Alike g' id id'
  := by
  refine ⟨record, fun target mem => ?_, ?_⟩
  · rw [h.index_eq (referent target mem), h'.index_eq (referent target mem)]
  · obtain ⟨index, -, indexType, number⟩ := h.exists_indexType complete
    obtain ⟨index', -, indexType', number'⟩ := h'.exists_indexType complete
    rw [h.indexType_eq] at indexType
    rw [h'.indexType_eq, indexType] at indexType'
    cases indexType'
    rw [number, number']

theorem Numbered.get_eq (h : Numbered g₀ symbols g) (h' : Numbered g₀ symbols' g')
    (mem : id ∈ g₀.emittedTypes) :
  g'.get id = g.get id
  := by
  rw [h.emitted_eq id mem, h'.emitted_eq id mem]

/-- A type that has a place in the output is alike in both graphs. -/
theorem Numbered.alike_of_mem (h : Numbered g₀ symbols g) (h' : Numbered g₀ symbols' g')
    (complete : g₀.Complete) (mem : id ∈ g₀.emittedTypes) :
  g.Alike g' id id
  := by
  apply h.alike h' complete
  · rw [h.get_eq h' mem]
  · rw [h.referents_eq ((g₀.mem_emittedTypes id).mp mem).1]
    exact complete.referent id

theorem Numbered.texts_eq (h : Numbered g₀ symbols g) (h' : Numbered g₀ symbols' g')
    (label : String) :
  g'.texts label = g.texts label
  := by
  rw [texts, texts, h.emittedTypes_eq, h'.emittedTypes_eq]
  congr 1
  exact List.flatMap_congr fun id mem => by rw [h.get_eq h' mem]

theorem Numbered.lastNumber_congr (h : Numbered g₀ symbols g) (h' : Numbered g₀ symbols' g') :
  g'.lastNumber = g.lastNumber
  := by
  have each (g : Graph) : g.lastNumber
      = (g.emittedTypes.map fun id => (g.get id).index).foldl max 0 := by
    rw [lastNumber, List.foldl_map]
  have indices : g₀.emittedTypes.map (fun id => (g'.get id).index)
      = g₀.emittedTypes.map fun id => (g.get id).index :=
    List.map_congr_left fun id mem => by rw [h.get_eq h' mem]
  rw [each, each, h.emittedTypes_eq, h'.emittedTypes_eq, indices]

theorem Numbered.typeEntries_eq (h : Numbered g₀ symbols g) (h' : Numbered g₀ symbols' g')
    (complete : g₀.Complete) (o : ByteOrder) (strings : StringTable) :
  g'.emittedTypes.mapM (g'.typeEntry o strings) = g.emittedTypes.mapM (g.typeEntry o strings)
  := by
  rw [h.emittedTypes_eq, h'.emittedTypes_eq]
  exact mapM_congr fun id mem => (h.alike_of_mem h' complete mem).typeEntry o strings

/-! ### Entries of symbols -/

/-- The entry of a placeholder is zero. -/
theorem takenEntry_placeholder (c : SymbolClass) {s : Symbol} {slot : Nat}
    (record : g.get id = (placeholder s c id).claimedBy slot) (o : ByteOrder) :
  g.takenEntry o c id = .ok (o.u16 0)
  := by
  have reference : (g.get id).reference = some id := by rw [record]; rfl
  have kind : (g.get id).kind = .unknown := by rw [record]; rfl
  have index : (g.get id).index = 0 := by rw [record]; rfl
  cases c with
  | function =>
    rw [takenEntry, functionEntry, if_pos kind]
    rfl
  | object =>
    have word : g.referencedWord id = .ok 0 := by
      rw [referencedWord, referenced, reference]
      change typeWord (g.get id).index = .ok 0
      rw [index]
      rfl
    rw [takenEntry, objectEntry, word]
    rfl

/-- What the symbols of a class have taken is written by their base names. -/
theorem Numbered.takenEntries_eq (h : Numbered g₀ symbols g) (complete : g₀.Complete)
    (o : ByteOrder) (c : SymbolClass) :
  (g.taken c).toList.mapM (g.takenEntry o c)
    = (symbolNames c symbols).mapM (g₀.symbolEntry o c)
  := by
  have numbered : Numbered g₀ [] g₀.assignIndices := complete.numbered []
  apply mapM_eq_of_forall₂
  rw [symbolNames, List.forall₂_map_right_iff]
  apply (h.gets c).imp
  intro id s record
  cases found : g₀.firstNamed? c s.baseName with
  | none =>
    rw [recordFor, found] at record
    rw [symbolEntry, found]
    exact takenEntry_placeholder c record o
  | some first =>
    rw [recordFor, found] at record
    have listed := (of_firstNamed? found).1
    have outside := not_mem_emittedTypes (isSymbol_of_firstNamed? found)
    have same : (g.get id).unclaimed = (g₀.assignIndices.get first).unclaimed := by
      rw [record, numbered.symbol_eq first listed outside]
      rfl
    have alike : g₀.assignIndices.Alike g first id := by
      apply numbered.alike h complete same
      rw [numbered.referents_eq listed]
      exact complete.referent first
    rw [symbolEntry, found]
    cases c with
    | function => exact alike.functionEntry o
    | object => exact alike.objectEntry o

/-! ### Sections -/

/-- The symbols of a table have an influence on the sections through their classes and base names
only. -/
theorem sections_withSymbols (complete : g₀.Complete) (symbols : List Symbol) (label : String)
    (o : ByteOrder) :
  (g₀.withSymbols symbols).sections label o
    = g₀.sectionsFor label o fun c => symbolNames c symbols
  := by
  have numbered : Numbered g₀ [] g₀.assignIndices := complete.numbered []
  have h := complete.numbered symbols
  have objects := h.takenEntries_eq complete o .object
  have functions := h.takenEntries_eq complete o .function
  simp only [taken, takenEntry] at objects functions
  rw [sections, sectionsFor, numbered.texts_eq h, numbered.lastNumber_congr h]
  simp only [objects, functions, numbered.typeEntries_eq h complete]

/-- What sections consist of. -/
theorem sectionsFor_ok {label : String} {o : ByteOrder} {names : SymbolClass → List String}
    {s : Sections} (h : g.sectionsFor label o names = .ok s) :
  ∃ objects functions types : List (List UInt8),
    (names .object).mapM (g.symbolEntry o .object) = .ok objects
    ∧ (names .function).mapM (g.symbolEntry o .function) = .ok functions
    ∧ g.assignIndices.emittedTypes.mapM (g.assignIndices.typeEntry o
      (StringTable.ofTexts (g.assignIndices.texts label))) = .ok types
    ∧ s = {
      labels := o.u32 ((StringTable.ofTexts (g.assignIndices.texts label)).offset (some label))
        ++ o.u32 g.assignIndices.lastNumber
      objects := objects.flatten
      functions := functions.flatten
      types := types.flatten
      strings := byteList (StringTable.ofTexts (g.assignIndices.texts label)).bytes }
  := by
  obtain ⟨-, -, h⟩ := ok_of_bind h
  obtain ⟨objects, hobjects, h⟩ := ok_of_bind h
  obtain ⟨functions, hfunctions, h⟩ := ok_of_bind h
  obtain ⟨types, htypes, h⟩ := ok_of_bind h
  cases h
  exact ⟨objects, functions, types, hobjects, hfunctions, htypes, rfl⟩

end Graph

end CompactTypes

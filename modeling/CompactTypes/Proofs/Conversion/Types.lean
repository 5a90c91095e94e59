import CompactTypes.Proofs.Conversion.Sections
import CompactTypes.Proofs.Conversion.Success

/-!
# Types without symbols

The types that have a place in the output do not depend on the symbol table: whichever symbols get
their records, these types and their numbers are the same, and so are the lines and the sections
that are made of them, `Dwarf.Sections.types_without_symbols`.
-/

namespace CompactTypes.Graph

variable {g₀ g g' : Graph} {symbols symbols' : List Symbol}

/-- The lines of types are the same in numbered graphs that stem from one graph. -/
theorem Numbered.typeLines_eq (h : Numbered g₀ symbols g) (h' : Numbered g₀ symbols' g')
    (complete : g₀.Complete) :
  g'.emittedTypes.map g'.typeLines = g.emittedTypes.map g.typeLines
  := by
  rw [h.emittedTypes_eq, h'.emittedTypes_eq]
  exact List.map_congr_left fun id mem => (h.alike_of_mem h' complete mem).typeLines

/-- The end of the listing is the same for all symbol tables: what comes after the lines of objects
and functions and an empty line after either. -/
theorem Complete.listing_end (complete : g₀.Complete) :
  ∃ rest : String, ∀ symbols : List Symbol, ∃ objects functions : List String,
    numberedLines (g₀.withSymbols symbols).objectLine (g₀.withSymbols symbols).objects.toList
      = objects.map .ok
    ∧ numberedLines (g₀.withSymbols symbols).functionLine
      (g₀.withSymbols symbols).functions.toList = functions.map .ok
    ∧ (g₀.withSymbols symbols).listing
      = ⟨String.join objects ++ "\n" ++ String.join functions ++ "\n" ++ rest, none⟩
  := by
  have plain := complete.numbered []
  obtain ⟨-, -, types, -, -, htypes, -⟩ := plain.listing_eq complete
  refine ⟨String.join types, fun symbols => ?_⟩
  have numbered := complete.numbered symbols
  obtain ⟨objects, functions, types', hobjects, hfunctions, htypes', listing⟩ :=
    numbered.listing_eq complete
  rw [plain.typeLines_eq numbered complete, htypes] at htypes'
  have same : types = types' := List.map_injective_iff.mpr (fun _ _ => Except.ok.inj) htypes'
  exact ⟨objects, functions, hobjects, hfunctions, same ▸ listing⟩

end CompactTypes.Graph

namespace CompactTypes.Dwarf.Sections

/-- In a graph that has been decoded without an error, the types that have a place in the output do
not depend on the symbol table, and neither do their lines nor any section but those of objects and
functions.  The lengths of these two sections shift the offsets of the ones behind them. -/
theorem types_without_symbols (s : Sections) (decoded : (s.decode .empty).error = none) :
  let g := (s.decode .empty).graph
  (∀ symbols symbols' : List Symbol,
    (g.withSymbols symbols').emittedTypes = (g.withSymbols symbols).emittedTypes
    ∧ ∀ id ∈ (g.withSymbols symbols).emittedTypes,
      (g.withSymbols symbols').get id = (g.withSymbols symbols).get id)
  ∧ (∃ rest : String, ∀ symbols : List Symbol, ∃ objects functions : List String,
    Graph.numberedLines (g.withSymbols symbols).objectLine (g.withSymbols symbols).objects.toList
      = objects.map .ok
    ∧ Graph.numberedLines (g.withSymbols symbols).functionLine
      (g.withSymbols symbols).functions.toList = functions.map .ok
    ∧ (g.withSymbols symbols).listing
      = ⟨String.join objects ++ "\n" ++ String.join functions ++ "\n" ++ rest, none⟩)
  ∧ ∀ (symbols symbols' : List Symbol) (label : String) (o : ByteOrder)
      (first second : Ctf.Sections),
    (g.withSymbols symbols).sections label o = .ok first →
    (g.withSymbols symbols').sections label o = .ok second →
    second = { first with objects := second.objects, functions := second.functions }
    ∧ ∀ compressed : Bool, second.header compressed = { first.header compressed with
      functionOffset := UInt32.ofNat (first.labels.length + second.objects.length)
      typeOffset := UInt32.ofNat
        (first.labels.length + second.objects.length + second.functions.length)
      stringOffset := UInt32.ofNat (first.labels.length + second.objects.length
        + second.functions.length + first.types.length) }
  := by
  intro g
  have complete : g.Complete := complete_decode decoded
  refine ⟨fun symbols symbols' => ?_, complete.listing_end,
    fun symbols symbols' label o first second => ?_⟩
  · have h := complete.numbered symbols
    have h' := complete.numbered symbols'
    refine ⟨h'.emittedTypes_eq.trans h.emittedTypes_eq.symm, fun id mem => ?_⟩
    exact h.get_eq h' (h.emittedTypes_eq ▸ mem)
  · rw [Graph.sections_withSymbols complete, Graph.sections_withSymbols complete]
    intro hfirst hsecond
    obtain ⟨objects, functions, types, -, -, htypes, rfl⟩ := Graph.sectionsFor_ok hfirst
    obtain ⟨objects', functions', types', -, -, htypes', rfl⟩ := Graph.sectionsFor_ok hsecond
    rw [htypes] at htypes'
    cases htypes'
    exact ⟨rfl, fun compressed => rfl⟩

/-- The sample unit without symbols, and with those of a function and a variable. -/
theorem types_without_symbols_sampleUnit :
  let g := (sampleUnit.decode .empty).graph
  let symbols : List Symbol := [⟨1, "f", .function, .defined⟩, ⟨2, "v", .object, .defined⟩]
  (sampleUnit.decode .empty).error = none ∧ (g.withSymbols symbols).functions.size = 1
  ∧ ∃ first second, (g.withSymbols []).sections "l" .big = .ok first
    ∧ (g.withSymbols symbols).sections "l" .big = .ok second
    ∧ second = { first with objects := second.objects, functions := second.functions }
  := by
  intro g symbols
  obtain ⟨-, -, sections⟩ := types_without_symbols sampleUnit decode_sampleUnit
  have encoded : ((g.withSymbols []).sections "l" .big).isOk = true
      ∧ ((g.withSymbols symbols).sections "l" .big).isOk = true := by
    decide +kernel
  obtain ⟨first, hfirst⟩ := exists_of_isOk encoded.1
  obtain ⟨second, hsecond⟩ := exists_of_isOk encoded.2
  exact ⟨decode_sampleUnit, by decide +kernel, first, second, hfirst, hsecond,
    (sections [] symbols "l" .big first second hfirst hsecond).1⟩

end CompactTypes.Dwarf.Sections

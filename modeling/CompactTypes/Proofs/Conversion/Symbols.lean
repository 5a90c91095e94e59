import CompactTypes.Proofs.Conversion.Sections
import CompactTypes.Proofs.Dwarf.Decoded
import Mathlib.Data.List.TakeWhile

/-!
# Symbols by class and base name

What a symbol gets in a decoded graph depends only on its class and its base name, not on the other
symbols: the content of the first function or variable with this name, or else a placeholder.  So
the sections of objects and functions of two tables together are those of the tables one after the
other, and a suffix behind a dot makes no difference to an encoding, `Dwarf.Sections.gets_by_name`.
-/

namespace CompactTypes

/-! ### Suffixes -/

namespace Symbol

/-- A symbol is another one, or its name is that of the other one, which does not consist of dots
only, with a suffix behind a dot. -/
def Suffixed (s s' : Symbol) : Prop :=
  s' = s ∨ ((∃ ch ∈ s.name.toList, ch ≠ '.')
    ∧ ∃ suffix, s' = { s with name := s.name ++ "." ++ suffix })

theorem takeWhile_append_stop (before after : List Char) :
  (before ++ '.' :: after).takeWhile (· ≠ '.') = before.takeWhile (· ≠ '.')
  := by
  induction before with
  | nil => rfl
  | cons ch before ih =>
    rw [List.cons_append, List.takeWhile_cons, List.takeWhile_cons, ih]

/-- What comes after a dot behind another character does not count. -/
theorem baseCharacters_append {name : List Char} (h : ∃ ch ∈ name, ch ≠ '.')
    (suffix : List Char) :
  baseCharacters (name ++ '.' :: suffix) = baseCharacters name
  := by
  have rest : (name.dropWhile (· = '.')).isEmpty = false := by
    obtain ⟨ch, mem, other⟩ := h
    rw [List.isEmpty_eq_false_iff, ne_eq, List.dropWhile_eq_nil_iff]
    intro dots
    exact other (of_decide_eq_true (dots ch mem))
  rw [baseCharacters, baseCharacters, List.dropWhile_append, rest, if_neg Bool.false_ne_true,
    takeWhile_append_stop]

theorem Suffixed.symbolClass?_eq {s s' : Symbol} (h : s.Suffixed s') :
  s'.symbolClass? = s.symbolClass?
  := by
  rcases h with rfl | ⟨-, suffix, rfl⟩ <;> rfl

theorem Suffixed.baseName_eq {s s' : Symbol} (h : s.Suffixed s') :
  s'.baseName = s.baseName
  := by
  rcases h with rfl | ⟨other, suffix, rfl⟩
  · rfl
  · have characters : (s.name ++ "." ++ suffix).toList = s.name.toList ++ '.' :: suffix.toList := by
      rw [String.toList_append, String.toList_append, List.append_assoc]
      rfl
    rw [baseName, baseName, characters, baseCharacters_append other]

end Symbol

/-! ### Names of symbols -/

theorem symbolNames_append (c : SymbolClass) (symbols symbols' : List Symbol) :
  symbolNames c (symbols ++ symbols') = symbolNames c symbols ++ symbolNames c symbols'
  := by
  rw [symbolNames, eligible_append, List.map_append]
  rfl

theorem symbolNames_singleton (c : SymbolClass) (s : Symbol) :
  symbolNames c [s] = if s.symbolClass? = some c then [s.baseName] else []
  := by
  rw [symbolNames, eligible_singleton]
  split <;> rfl

/-- Suffixes make no difference to the base names of symbols. -/
theorem symbolNames_of_suffixed {symbols symbols' : List Symbol}
    (h : List.Forall₂ Symbol.Suffixed symbols symbols') (c : SymbolClass) :
  symbolNames c symbols' = symbolNames c symbols
  := by
  induction h with
  | nil => rfl
  | cons first _ ih =>
    rw [← List.singleton_append, symbolNames_append, symbolNames_singleton, ih,
      first.symbolClass?_eq, first.baseName_eq, ← symbolNames_singleton, ← symbolNames_append,
      List.singleton_append]

/-- The results for two lists together are those for one after those for the other. -/
theorem flatten_of_mapM_append {α ε : Type} {f : α → Except ε (List UInt8)} {as bs : List α}
    {firsts seconds both : List (List UInt8)} (hfirsts : as.mapM f = .ok firsts)
    (hseconds : bs.mapM f = .ok seconds) (hboth : (as ++ bs).mapM f = .ok both) :
  both.flatten = firsts.flatten ++ seconds.flatten
  := by
  rw [List.mapM_append, hfirsts, hseconds] at hboth
  cases hboth
  exact List.flatten_append

namespace Dwarf.Sections

/-- In a graph that has been decoded without an error, a symbol gets the content of the first of
all types that has its class and its base name, or else a placeholder.  Therefore the sections of
objects and functions for two tables together are those for one followed by those for the other,
and suffixes of symbols make no difference to an encoding. -/
theorem gets_by_name (s : Sections) (decoded : (s.decode .empty).error = none) :
  let g := (s.decode .empty).graph
  (∀ (symbols : List Symbol) (c : SymbolClass),
    let resolved := (resolve g symbols).graph
    List.Forall₂ (fun id symbol =>
      (∀ first, g.firstNamed? c symbol.baseName = some first →
        resolved.get id = (g.get first).claimedBy symbol.index)
      ∧ (g.firstNamed? c symbol.baseName = none →
        resolved.get id = (placeholder symbol c id).claimedBy symbol.index))
      (resolved.taken c).toList (eligible c symbols))
  ∧ (∀ (front back : List Symbol) (o : ByteOrder) (label label' label'' : String)
      (first second both : Ctf.Sections),
    (g.withSymbols front).sections label o = .ok first →
    (g.withSymbols back).sections label' o = .ok second →
    (g.withSymbols (front ++ back)).sections label'' o = .ok both →
    both.objects = first.objects ++ second.objects
    ∧ both.functions = first.functions ++ second.functions)
  ∧ ∀ symbols symbols' : List Symbol, List.Forall₂ Symbol.Suffixed symbols symbols' →
    ∀ (label : String) (o : ByteOrder) (compressed : Bool),
    (g.withSymbols symbols').encode label o compressed
      = (g.withSymbols symbols).encode label o compressed
  := by
  intro g
  have complete : g.Complete := complete_decode decoded
  refine ⟨fun symbols c => ?_, fun front back o label label' label'' first second both => ?_,
    fun symbols symbols' suffixed label o compressed => ?_⟩
  · apply ((Graph.resolved_resolve complete.toFresh symbols).gets c).imp
    rintro id symbol ⟨-, record⟩
    rw [Graph.recordFor] at record
    refine ⟨fun first found => ?_, fun missing => ?_⟩
    · rw [found] at record
      exact record
    · rw [missing] at record
      exact record
  · rw [Graph.sections_withSymbols complete, Graph.sections_withSymbols complete,
      Graph.sections_withSymbols complete]
    intro hfirst hsecond hboth
    obtain ⟨objects, functions, -, hobjects, hfunctions, -, rfl⟩ := Graph.sectionsFor_ok hfirst
    obtain ⟨objects', functions', -, hobjects', hfunctions', -, rfl⟩ := Graph.sectionsFor_ok hsecond
    obtain ⟨objects'', functions'', -, hobjects'', hfunctions'', -, rfl⟩ :=
      Graph.sectionsFor_ok hboth
    rw [symbolNames_append] at hobjects'' hfunctions''
    exact ⟨flatten_of_mapM_append hobjects hobjects' hobjects'',
      flatten_of_mapM_append hfunctions hfunctions' hfunctions''⟩
  · have names : (fun c => symbolNames c symbols') = fun c => symbolNames c symbols :=
      funext fun c => symbolNames_of_suffixed suffixed c
    rw [Graph.encode, Graph.encode, Graph.sections_withSymbols complete,
      Graph.sections_withSymbols complete, names]

/-- The sample unit, followed by a unit with a function of the same name but without an
argument. -/
def twoFunctions : Sections :=
  { sampleUnit with
    info := sampleUnit.info ++ ⟨#[
      24, 0, 0, 0, 4, 0, 0, 0, 0, 0, 8,
      1,
      2, 105, 110, 116, 0, 4, 5,
      8, 102, 0, 12, 0, 0, 0, 0,
      0]⟩ }

/-- Both symbols with the name of the two functions get the content of the first, whether there is
a suffix or not, and the symbol that no type is for gets a placeholder with its full name. -/
theorem gets_by_name_twoFunctions :
  let g := (twoFunctions.decode .empty).graph
  let cold : Symbol := ⟨1, "f.cold", .function, .defined⟩
  let strange : Symbol := ⟨2, "g.part", .function, .defined⟩
  let function : Symbol := ⟨3, "f", .function, .defined⟩
  let variable' : Symbol := ⟨4, "v", .object, .defined⟩
  let resolved := (resolve g [cold, strange, variable', function]).graph
  (twoFunctions.decode .empty).error = none
  ∧ [6, 9].map (fun id => ((g.get id).symbolClass?, (g.get id).name, (g.get id).members.size))
    = [(some .function, some "f", 1), (some .function, some "f", 0)]
  ∧ resolved.taken .function = #[6, 10, 11]
  ∧ resolved.get 6 = (g.get 6).claimedBy 1
  ∧ resolved.get 10 = (placeholder strange .function 10).claimedBy 2
  ∧ resolved.get 11 = (g.get 6).claimedBy 3
  ∧ (∃ first second both,
    (g.withSymbols [cold, strange]).sections "l" .little = .ok first
    ∧ (g.withSymbols [variable', function]).sections "l" .little = .ok second
    ∧ (g.withSymbols [cold, strange, variable', function]).sections "l" .little = .ok both
    ∧ both.objects = first.objects ++ second.objects
    ∧ both.functions = first.functions ++ second.functions)
  ∧ (g.withSymbols [strange, { function with name := "f.cold" }]).encode "l" .little true
    = (g.withSymbols [strange, function]).encode "l" .little true
  := by
  intro g cold strange function variable' resolved
  have decoded : (twoFunctions.decode .empty).error = none := by decide +kernel
  obtain ⟨gets, append, suffixes⟩ := gets_by_name twoFunctions decoded
  have taken : resolved.taken .function = #[6, 10, 11] := by decide +kernel
  have functions : eligible .function [cold, strange, variable', function]
      = [cold, strange, function] := by
    decide +kernel
  have records : List.Forall₂ _ (resolved.taken .function).toList _ :=
    gets [cold, strange, variable', function] .function
  rw [taken, functions] at records
  obtain ⟨⟨named, -⟩, records⟩ := List.forall₂_cons.mp records
  obtain ⟨⟨-, missing⟩, records⟩ := List.forall₂_cons.mp records
  obtain ⟨⟨named', -⟩, -⟩ := List.forall₂_cons.mp records
  have encoded : ((g.withSymbols [cold, strange]).sections "l" .little).isOk = true
      ∧ ((g.withSymbols [variable', function]).sections "l" .little).isOk = true
      ∧ ((g.withSymbols [cold, strange, variable', function]).sections "l" .little).isOk
        = true := by
    decide +kernel
  obtain ⟨first, hfirst⟩ := exists_of_isOk encoded.1
  obtain ⟨second, hsecond⟩ := exists_of_isOk encoded.2.1
  obtain ⟨both, hboth⟩ := exists_of_isOk encoded.2.2
  have suffixed : List.Forall₂ Symbol.Suffixed
      [strange, function] [strange, { function with name := "f.cold" }] :=
    .cons (.inl rfl)
      (.cons (.inr ⟨⟨'f', by decide +kernel, by decide⟩, "cold", by decide +kernel⟩) .nil)
  refine ⟨decoded, by decide +kernel, taken, named 6 (by decide +kernel),
    missing (by decide +kernel), named' 6 (by decide +kernel),
    ⟨first, second, both, hfirst, hsecond, hboth, ?_⟩, ?_⟩
  · exact append _ _ .little "l" "l" "l" first second both hfirst hsecond hboth
  · exact suffixes _ _ suffixed "l" .little true

end Dwarf.Sections

end CompactTypes

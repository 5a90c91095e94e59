import CompactTypes.Proofs.Conversion.Closure
import CompactTypes.Proofs.Conversion.Success

/-!
# The listing and the file

The listing of a graph that has been decoded and numbered shows the numbers that are in the file
that encodes it.  That is, the listing is made of the summary of the file and of captions, which say
what is not in a summary: names, encodings, and which symbol has taken a record.  The lines of
objects, functions and types are those of the entries in the sections of the file, counted from one,
`Dwarf.Sections.listing_agrees`.
-/

namespace CompactTypes

namespace Dwarf.Sections

/-- If a graph has been decoded without an error and has an encoding, then the listing consists of
the numbers in the file, entry by entry, with captions: the place of an object is that of its number
in the file, and there is one for each symbol of an object; the place of a function is that of its
signature, and there is one for each symbol of a function, but no line if the signature is missing;
and types are numbered by their places.  All this can be told from the bytes of the file if its body
is shorter than the offsets in its header can tell. -/
theorem listing_agrees (s : Sections) (decoded : (s.decode .empty).error = none)
    (symbols : List Symbol) (label : String) (o : ByteOrder) (compressed : Bool) (bytes : ByteArray)
    (encoded : ((s.decode .empty).graph.withSymbols symbols).encode label o compressed
      = .ok bytes) :
  let g := (s.decode .empty).graph.withSymbols symbols
  ∃ (file : Ctf.Sections) (summary : Ctf.Summary), g.sections label o = .ok file
    ∧ bytes = file.toBytes o compressed
    ∧ (file.body.length < wordValues 4 → Ctf.Sections.read? o bytes = some file)
    ∧ file.summary? o = some summary
    ∧ (summary.objects.length = (eligible .object symbols).length
      ∧ summary.functions.length = (eligible .function symbols).length
      ∧ summary.types.length = g.typeCount)
    ∧ g.listing = summary.listing (g.captions g.objects.toList) (g.captions g.functions.toList)
      (g.captions g.emittedTypes)
  := by
  intro g
  have complete := complete_decode decoded
  have numbered : Graph.Numbered _ symbols g := complete.numbered symbols
  obtain ⟨file, summary, sections, written, read, summarizes⟩ := Graph.summarizes_encode encoded
  have few : g.typeCount < wordValues 2 := (numbered.labels_eq complete sections).1
  refine ⟨file, summary, sections, written, ?_, read, ⟨?_, ?_, ?_⟩,
    numbered.listing_eq_listing complete (Nat.lt_trans few (by decide)) summarizes⟩
  · rw [written]
    exact file.read?_toBytes o compressed
  · exact summarizes.objects.length_eq.symm.trans (numbered.gets .object).length_eq
  · exact summarizes.functions.length_eq.symm.trans (numbered.gets .function).length_eq
  · exact summarizes.types.length_eq.symm

/-- The sample unit with a function, a copy of it, a variable, and symbols of both kinds without
type information. -/
theorem listing_agrees_sampleUnit :
  let symbols : List Symbol := [⟨1, "f", .function, .defined⟩, ⟨2, "g", .function, .defined⟩,
    ⟨3, "f.1", .function, .defined⟩, ⟨4, "w", .object, .defined⟩, ⟨5, "v", .object, .defined⟩]
  let g := (sampleUnit.decode .empty).graph.withSymbols symbols
  (sampleUnit.decode .empty).error = none
  ∧ ∃ (bytes : ByteArray) (summary : Ctf.Summary), g.encode "l" .big true = .ok bytes
    ∧ summary.objects.length = 2 ∧ summary.functions.length = 3 ∧ summary.types.length = 6
    ∧ g.listing = summary.listing (g.captions g.objects.toList) (g.captions g.functions.toList)
      (g.captions g.emittedTypes)
  := by
  intro symbols g
  have written : (g.encode "l" .big true).isOk = true := by decide +kernel
  have count : g.typeCount = 6 := by decide +kernel
  obtain ⟨bytes, encoded⟩ := exists_of_isOk written
  obtain ⟨file, summary, -, -, -, -, ⟨objects, functions, types⟩, agrees⟩ :=
    listing_agrees sampleUnit decode_sampleUnit symbols "l" .big true bytes encoded
  exact ⟨decode_sampleUnit, bytes, summary, encoded, objects, functions, types.trans count, agrees⟩

end Dwarf.Sections

end CompactTypes

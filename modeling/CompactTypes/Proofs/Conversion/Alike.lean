import CompactTypes.Listing
import CompactTypes.Proofs.Ctf.Document
import CompactTypes.Proofs.Graph.Fresh
import CompactTypes.Proofs.Results

/-!
# Records that say the same

How a record is listed and encoded depends on its content and on the numbers of the types that it
refers to.  It does not depend on the graph otherwise, nor on which symbol has taken the record.
So records that are `Graph.Alike` have the same lines and the same entries.
-/

namespace CompactTypes

/-- Records that differ in the symbol that has taken them only. -/
theorem TypeRecord.exists_of_unclaimed {r r' : TypeRecord} (h : r'.unclaimed = r.unclaimed) :
  ∃ flags slot, r' = { r with flags := flags, symbolSlot := slot }
  := by
  refine ⟨r'.flags, r'.symbolSlot, ?_⟩
  cases r
  cases r'
  simp only [unclaimed, mk.injEq] at h ⊢
  simp only [h, and_self]

namespace Graph

open Ctf

/-- The records at positions of two graphs have the same content, and the types that they refer
to have the same numbers. -/
structure Alike (g g' : Graph) (id id' : TypeId) : Prop where
  record : (g'.get id').unclaimed = (g.get id).unclaimed
  number : ∀ target ∈ (g.get id).referents, (g'.get target).index = (g.get target).index
  indexType : g'.indexTypeNumber = g.indexTypeNumber

variable {g g' : Graph} {id id' : TypeId} {o : ByteOrder} {strings : StringTable}

/-! ### References -/

theorem Alike.reference_cases (h : g.Alike g' id id') :
  ((g.get id).reference = none ∧ (g'.get id').reference = none)
    ∨ ∃ target, (g.get id).reference = some target ∧ (g'.get id').reference = some target
      ∧ (g'.get target).index = (g.get target).index
  := by
  obtain ⟨flags, slot, same⟩ := TypeRecord.exists_of_unclaimed h.record
  rw [same]
  cases reference : (g.get id).reference with
  | none => exact .inl ⟨rfl, rfl⟩
  | some target =>
    exact .inr ⟨target, rfl, rfl,
      h.number target (TypeRecord.mem_referents.mpr (.inl reference))⟩

theorem Alike.referenced_index (h : g.Alike g' id id') :
  (g'.referenced id').map TypeRecord.index = (g.referenced id).map TypeRecord.index
  := by
  obtain ⟨flags, slot, same⟩ := TypeRecord.exists_of_unclaimed h.record
  rw [referenced, referenced]
  rcases h.reference_cases with ⟨missing, missing'⟩ | ⟨target, reference, reference', number⟩
  · rw [missing, missing', same]
  · simp only [reference, reference', Except.map, number]

theorem referencedWord_eq (g : Graph) (id : TypeId) :
  g.referencedWord id = (g.referenced id).map TypeRecord.index >>= typeWord
  := by
  rw [referencedWord]
  cases g.referenced id <;> rfl

theorem Alike.referencedWord (h : g.Alike g' id id') :
  g'.referencedWord id' = g.referencedWord id
  := by
  rw [referencedWord_eq, referencedWord_eq, h.referenced_index]

theorem Alike.referencedNumber (h : g.Alike g' id id') :
  g'.referencedNumber id' = g.referencedNumber id
  := h.referenced_index

theorem Alike.member_index (h : g.Alike g' id id') {m : Member} (mem : m ∈ (g.get id).members) :
  (g'.get m.reference).index = (g.get m.reference).index
  := h.number m.reference (TypeRecord.mem_referents.mpr (.inr ⟨m, mem, rfl⟩))

theorem Alike.memberWord (h : g.Alike g' id id') {m : Member}
    (mem : m ∈ (g.get id).members.toList) :
  g'.memberWord m = g.memberWord m
  := by
  rw [Graph.memberWord, Graph.memberWord, h.member_index (Array.mem_toList_iff.mp mem)]

theorem Alike.argumentBytes (h : g.Alike g' id id') (o : ByteOrder) :
  g'.argumentBytes o (g'.get id') = g.argumentBytes o (g.get id)
  := by
  obtain ⟨flags, slot, same⟩ := TypeRecord.exists_of_unclaimed h.record
  rw [same]
  simp only [Graph.argumentBytes]
  rw [mapM_congr fun m mem => h.memberWord mem]

/-! ### Entries -/

theorem Alike.objectEntry (h : g.Alike g' id id') (o : ByteOrder) :
  g'.objectEntry o id' = g.objectEntry o id
  := by
  rw [Graph.objectEntry, Graph.objectEntry, h.referencedWord]

theorem Alike.functionEntry (h : g.Alike g' id id') (o : ByteOrder) :
  g'.functionEntry o id' = g.functionEntry o id
  := by
  obtain ⟨flags, slot, same⟩ := TypeRecord.exists_of_unclaimed h.record
  have arguments := h.argumentBytes o
  rw [same] at arguments
  simp only [Graph.functionEntry, same, h.referencedWord, arguments, countWord]

theorem Alike.memberEntry (h : g.Alike g' id id') (o : ByteOrder) (strings : StringTable)
    {m : Member} (mem : m ∈ (g.get id).members.toList) :
  g'.memberEntry o strings (g'.get id') m = g.memberEntry o strings (g.get id) m
  := by
  obtain ⟨flags, slot, same⟩ := TypeRecord.exists_of_unclaimed h.record
  simp only [Graph.memberEntry, same, h.memberWord mem, bitsBelow]

theorem Alike.typeData (h : g.Alike g' id id') (o : ByteOrder) (strings : StringTable) :
  g'.typeData o strings id' = g.typeData o strings id
  := by
  obtain ⟨flags, slot, same⟩ := TypeRecord.exists_of_unclaimed h.record
  have arguments := h.argumentBytes o
  have members : (g.get id).members.toList.mapM (g'.memberEntry o strings (g'.get id'))
      = (g.get id).members.toList.mapM (g.memberEntry o strings (g.get id)) :=
    mapM_congr fun m mem => h.memberEntry o strings mem
  rw [same] at arguments members
  cases kind : (g.get id).kind <;> simp only [kind] at arguments members <;>
    simp only [Graph.typeData, same, kind, h.referencedWord, h.indexType, arguments, members,
      bitsBelow, countWord]

theorem Alike.typeEntry (h : g.Alike g' id id') (o : ByteOrder) (strings : StringTable) :
  g'.typeEntry o strings id' = g.typeEntry o strings id
  := by
  obtain ⟨flags, slot, same⟩ := TypeRecord.exists_of_unclaimed h.record
  simp only [Graph.typeEntry, h.typeData, same]

/-! ### Lines -/

theorem Alike.argumentText (h : g.Alike g' id id') :
  g'.argumentText (g'.get id') = g.argumentText (g.get id)
  := by
  obtain ⟨flags, slot, same⟩ := TypeRecord.exists_of_unclaimed h.record
  have numbers : (g.get id).members.toList.map (fun m => numberText (g'.get m.reference).index)
      = (g.get id).members.toList.map fun m => numberText (g.get m.reference).index :=
    List.map_congr_left fun m mem => by rw [h.member_index (Array.mem_toList_iff.mp mem)]
  rw [same, Graph.argumentText, Graph.argumentText, numbers]

theorem Alike.typeLines (h : g.Alike g' id id') :
  g'.typeLines id' = g.typeLines id
  := by
  obtain ⟨flags, slot, same⟩ := TypeRecord.exists_of_unclaimed h.record
  have arguments := h.argumentText
  rw [same] at arguments
  have members : (g.get id).members.toList.map g'.memberLine
      = (g.get id).members.toList.map g.memberLine :=
    List.map_congr_left fun m mem => by
      rw [memberLine, memberLine, h.member_index (Array.mem_toList_iff.mp mem)]
  cases kind : (g.get id).kind <;> simp only [kind] at arguments <;>
    simp only [Graph.typeLines, same, kind, h.referencedNumber, h.indexType, arguments, members]

end Graph

end CompactTypes

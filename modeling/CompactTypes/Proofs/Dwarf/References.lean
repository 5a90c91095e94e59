import CompactTypes.Proofs.Dwarf.Invariant

/-!
# References between entries

Which entries refer to a type and which ones can be referred to, by their tags and the values of
their attributes.  An entry that `Visit.Refers` to a type refers to where the value of its attribute
points, `Visit.reference_iff`.  What a reference to an entry `Visit.Means` is the record of the
entry, or no type at all, or what a reference to another type means, `Visit.meaning?_iff`.
-/

namespace CompactTypes.Dwarf.Visit

/-- The tags of the entries that stand for a type of their own. -/
def typeTags : List Tag :=
  [.baseType, .pointerType, .referenceType, .rvalueReferenceType, .typedef, .volatileType,
    .constType, .restrictType, .arrayType, .structureType, .classType, .unionType,
    .enumerationType, .subroutineType]

/-- Whether an entry refers to a type, which may be no type at all.  Functions and variables do so
if they have a record, members inside a struct or union unless they are only declared, and arguments
inside a function. -/
def Refers (v : Visit) : Prop :=
  match v.entry.tag with
  | .pointerType | .referenceType | .rvalueReferenceType | .typedef | .volatileType | .constType
  | .restrictType | .arrayType | .subroutineType => True
  | .subprogram | .object => v.made? = some v.id
  | .member => v.entry.declares = false ∧ ∃ owner, v.parent = some (.aggregate owner)
  | .formalParameter => ∃ owner, v.parent = some (.function owner)
  | .baseType | .subrangeType | .structureType | .classType | .unionType | .enumerationType
  | .enumerator | .unspecifiedType | .pointerToMemberType | .atomicType | .other _ => False

/-- What a reference to an entry means, if it can be referred to. -/
inductive Means (v : Visit) : Meaning → Prop where
  | record (tag : v.entry.tag ∈ typeTags) : Means v (.record v.id)
  | untyped (tag : v.entry.tag = .unspecifiedType ∨ v.entry.tag = .pointerToMemberType) :
    Means v (.synonym none)
  | atomic {target : Option Nat} (tag : v.entry.tag = .atomicType)
      (points : v.unit.PointsTo (v.entry.attributes.lookup .type) target) :
    Means v (.synonym target)

variable {s : Sections} {v : Visit}

theorem reference_iff_of_points {target : Option Nat} (refers : v.Refers)
    (reference : v.reference = some target)
    (points : v.unit.PointsTo (v.unit.typeValue? v.entry) target) (other : Option Nat) :
  v.reference = some other ↔ v.Refers ∧ v.unit.PointsTo (v.unit.typeValue? v.entry) other
  := by
  rw [reference, Option.some.injEq, and_iff_right refers]
  constructor
  · rintro rfl
    exact points
  · exact points.unique

theorem reference_iff_of_not_refers (idle : ¬v.Refers) (reference : v.reference = none)
    (other : Option Nat) :
  v.reference = some other ↔ v.Refers ∧ v.unit.PointsTo (v.unit.typeValue? v.entry) other
  := by
  rw [reference]
  exact iff_of_false nofun fun h => idle h.1

/-- The type to which an entry refers is where the value of its attribute points. -/
theorem reference_iff (faithful : v.Faithful s) (target : Option Nat) :
  v.reference = some target ↔ v.Refers ∧ v.unit.PointsTo (v.unit.typeValue? v.entry) target
  := by
  obtain ⟨u, depth, e, parent, id, c⟩ := v
  have stems : Contribution.Stems s u parent e c := Contribution.stems_read faithful
  cases stems with
  | derived tag points =>
    have tags := Contribution.mem_derivedTags tag
    simp only [Contribution.derivedTags, List.mem_cons, List.not_mem_nil, or_false] at tags
    rcases tags with tag | tag | tag | tag | tag | tag | tag <;>
      exact reference_iff_of_points (by simp only [Refers, tag]) rfl
        (by simpa only [CompilationUnit.typeValue?, tag] using points) target
  | array tag points | subroutine tag points =>
    exact reference_iff_of_points (by simp only [Refers, tag]) rfl
      (by simpa only [CompilationUnit.typeValue?, tag] using points) target
  | subprogram tag _ points | object tag _ points =>
    exact reference_iff_of_points (by simp only [Refers, tag]; rfl) rfl
      (by simpa only [CompilationUnit.typeValue?, tag] using points) target
  | member tag inside defined _ points =>
    exact reference_iff_of_points (by simp only [Refers, tag]; exact ⟨defined, _, inside⟩) rfl
      (by simpa only [CompilationUnit.typeValue?, tag] using points) target
  | argument tag inside points =>
    exact reference_iff_of_points (by simp only [Refers, tag]; exact ⟨_, inside⟩) rfl
      (by simpa only [CompilationUnit.typeValue?, tag] using points) target
  | plain tag | enumeration tag | dimension tag | enumerator tag | atomic tag | unknown tag =>
    exact reference_iff_of_not_refers (by simp only [Refers, tag, not_false_eq_true]) rfl target
  | aggregate tag =>
    rcases (Contribution.of_aggregateKind? tag).1 with tag | tag | tag <;>
      exact reference_iff_of_not_refers (by simp only [Refers, tag, not_false_eq_true]) rfl target
  | untyped tag =>
    rcases tag with tag | tag <;>
      exact reference_iff_of_not_refers (by simp only [Refers, tag, not_false_eq_true]) rfl target
  | declared tag declares =>
    refine reference_iff_of_not_refers (fun refers => ?_) rfl target
    simp only [Refers, tag, declares, Bool.true_eq_false, false_and] at refers
  | unrecorded tag =>
    refine reference_iff_of_not_refers (fun refers => ?_) rfl target
    rcases tag with tag | tag <;> simp only [Refers, tag] at refers <;> cases refers
  | outside tag outside =>
    refine reference_iff_of_not_refers (fun refers => ?_) rfl target
    simp only [List.mem_cons, List.not_mem_nil, or_false] at tag
    rcases tag with tag | tag | tag | tag <;> simp only [Refers, tag] at refers outside
    · obtain ⟨-, owner, inside⟩ := refers
      exact Bool.noConfusion (outside _ inside)
    · obtain ⟨owner, inside⟩ := refers
      exact Bool.noConfusion (outside _ inside)

theorem Means.unique {m m' : Meaning} (h : v.Means m) (h' : v.Means m') :
  m = m'
  := by
  cases h with
  | record tag =>
    cases h' with
    | record => rfl
    | untyped tag' => rcases tag' with tag' | tag' <;> simp [typeTags, tag'] at tag
    | atomic tag' => simp [typeTags, tag'] at tag
  | untyped tag =>
    cases h' with
    | record tag' => rcases tag with tag | tag <;> simp [typeTags, tag] at tag'
    | untyped => rfl
    | atomic tag' => simp [tag'] at tag
  | atomic tag points =>
    cases h' with
    | record tag' => simp [typeTags, tag] at tag'
    | untyped tag' => simp [tag] at tag'
    | atomic _ points' => rw [points.unique points']

theorem meaning?_iff_of_means {m : Meaning} (means : v.Means m) (meaning : v.meaning? = some m)
    (other : Meaning) :
  v.meaning? = some other ↔ v.Means other
  := by
  rw [meaning, Option.some.injEq]
  constructor
  · rintro rfl
    exact means
  · exact means.unique

theorem meaning?_iff_of_meaning?_eq_none (meaning : v.meaning? = none)
    (idle : v.entry.tag ∉ typeTags ++ [.unspecifiedType, .pointerToMemberType, .atomicType])
    (other : Meaning) :
  v.meaning? = some other ↔ v.Means other
  := by
  rw [meaning]
  refine iff_of_false nofun fun means => idle ?_
  cases means with
  | record tag => exact List.mem_append_left _ tag
  | untyped tag => rcases tag with tag | tag <;> simp [tag]
  | atomic tag => simp [tag]

/-- What references to an entry mean follows from its tag and, if it is only another name, from
where the value of its attribute points. -/
theorem meaning?_iff (faithful : v.Faithful s) (m : Meaning) :
  v.meaning? = some m ↔ v.Means m
  := by
  obtain ⟨u, depth, e, parent, id, c⟩ := v
  have stems : Contribution.Stems s u parent e c := Contribution.stems_read faithful
  cases stems with
  | plain tag | array tag | enumeration tag | subroutine tag =>
    exact meaning?_iff_of_means (.record (by simp [typeTags, tag])) rfl m
  | derived tag =>
    have types : ∀ tag ∈ Contribution.derivedTags, tag ∈ typeTags := by decide
    exact meaning?_iff_of_means (.record (types _ (Contribution.mem_derivedTags tag))) rfl m
  | aggregate tag =>
    rcases (Contribution.of_aggregateKind? tag).1 with tag | tag | tag <;>
      exact meaning?_iff_of_means (.record (by simp [typeTags, tag])) rfl m
  | untyped tag => exact meaning?_iff_of_means (.untyped tag) rfl m
  | atomic tag points => exact meaning?_iff_of_means (.atomic tag points) rfl m
  | subprogram tag | object tag | dimension tag | member tag | argument tag | enumerator tag
  | declared tag | unknown tag =>
    exact meaning?_iff_of_meaning?_eq_none rfl (by simp [typeTags, tag]) m
  | outside tag =>
    simp only [List.mem_cons, List.not_mem_nil, or_false] at tag
    rcases tag with tag | tag | tag | tag <;>
      exact meaning?_iff_of_meaning?_eq_none rfl (by simp [typeTags, tag]) m
  | unrecorded tag =>
    rcases tag with tag | tag <;>
      exact meaning?_iff_of_meaning?_eq_none rfl (by simp [typeTags, tag]) m

end CompactTypes.Dwarf.Visit

import CompactTypes.Proofs.Dwarf.Attributes

/-!
# What contributions look like

A contribution that has been read from an entry `Stems` from the tag of the entry, the scope that
the parent of the entry has opened and what the attributes of the entry say,
`Contribution.stems_read`.  There is one rule for each way in which an entry contributes.  If the
contribution refers to a type, then the rule says to which value of an attribute the reference
belongs: that of the entry, or for functions, variables and arguments that of the nearest of its
origins that has one.

Therefore a contribution fits the scope, `Contribution.fits_read`: records are bare, of the kind
that the contribution is about, and members, enumerators and dimensions go where the parent takes
them.  It also suits the tag of the entry, `Contribution.suits_read`.
-/

namespace CompactTypes.Dwarf

/-- A record without members, enumerators and a reference, which no symbol has taken. -/
structure Bare (r : TypeRecord) : Prop where
  reference : r.reference = none
  members : r.members = #[]
  enumerators : r.enumerators = #[]
  claimed : r.flags.claimed = false

/-- Whether what an entry with a tag contributes is for an entry with a scope, unless it is for
any entry. -/
@[simp]
def Scope.takes : Scope → Tag → Bool
  | aggregate _, .member | enumeration _, .enumerator | array .., .subrangeType
  | function _, .formalParameter => true
  | _, .member | _, .enumerator | _, .subrangeType | _, .formalParameter => false
  | _, _ => true

namespace Contribution

/-- The kinds of types that are built on another one and hold nothing else. -/
def derivedKinds : List TypeKind :=
  [.pointer, .typedef, .volatile, .const, .restrict]

/-- A contribution is one that a child of an entry with the given scope can make. -/
def Fits (parent : Option Scope) : Contribution → Prop
  | nothing | synonym _ => True
  | plain r => Bare r ∧ r.symbolClass? = none ∧ (r.kind = .integer ∨ r.kind = .float)
  | derived r _ => Bare r ∧ r.symbolClass? = none ∧ r.kind ∈ derivedKinds
  | array r _ => Bare r ∧ r.symbolClass? = none ∧ r.kind = .array
  | aggregate r => Bare r ∧ r.symbolClass? = none ∧ (r.kind = .struct ∨ r.kind = .union)
  | enumeration r => Bare r ∧ r.symbolClass? = none ∧ r.kind = .enum
  | subroutine r _ => Bare r ∧ r.symbolClass? = none ∧ r.kind = .function
  | subprogram r _ => Bare r ∧ r.symbolClass? = some .function ∧ r.kind = .function
  | object r _ => Bare r ∧ r.symbolClass? = some .object ∧ r.kind = .unknown
  | dimension _ => ∃ id entry target counts, parent = some (.array id entry target counts)
  | member owner _ _ _ => parent = some (.aggregate owner) ∨ parent = some (.function owner)
  | enumerator owner _ => parent = some (.enumeration owner)

/-- The tags of the entries that stand for a type that is built on another one. -/
def derivedTags : List Tag :=
  [.pointerType, .referenceType, .rvalueReferenceType, .typedef, .volatileType, .constType,
    .restrictType]

/-- A contribution is one that an entry with the given tag can make. -/
def Suits (tag : Tag) : Contribution → Prop
  | nothing => True
  | plain _ => tag = .baseType
  | derived .. => tag ∈ derivedTags
  | array .. => tag = .arrayType
  | aggregate _ => tag = .structureType ∨ tag = .classType ∨ tag = .unionType
  | enumeration _ => tag = .enumerationType
  | subroutine .. => tag = .subroutineType
  | subprogram .. => tag = .subprogram
  | object .. => tag = .object
  | dimension _ => tag = .subrangeType
  | member .. => tag = .member ∨ tag = .formalParameter
  | enumerator .. => tag = .enumerator
  | synonym _ => tag = .unspecifiedType ∨ tag = .pointerToMemberType ∨ tag = .atomicType

/-- The type that a contribution refers to, which may be no type at all. -/
def reference : Contribution → Option (Option Nat)
  | derived _ target | array _ target | subroutine _ target | subprogram _ target
  | object _ target | member _ _ _ target => some target
  | nothing | plain _ | aggregate _ | enumeration _ | dimension _ | enumerator _ _
  | synonym _ => none

theorem bare_ofKind (kind : TypeKind) (name : Option String) :
  Bare (TypeRecord.ofKind kind name)
  := ⟨rfl, rfl, rfl, rfl⟩

/-! ### What entries contribute -/

/-- The kind of type that is built on another one by an entry with a given tag. -/
@[simp]
def derivedKind? : Tag → Option TypeKind
  | .pointerType | .referenceType | .rvalueReferenceType => some .pointer
  | .typedef => some .typedef
  | .volatileType => some .volatile
  | .constType => some .const
  | .restrictType => some .restrict
  | _ => none

/-- The kind of type with members for which an entry with a given tag stands. -/
@[simp]
def aggregateKind? : Tag → Option TypeKind
  | .structureType | .classType => some .struct
  | .unionType => some .union
  | _ => none

/-- What an entry that can be read contributes, by its tag and by what its attributes say. -/
inductive Stems (s : Sections) (u : CompilationUnit) (parent : Option Scope) (e : Entry) :
    Contribution → Prop where
  | plain (tag : e.tag = .baseType) :
    Stems s u parent e (.plain
      { TypeRecord.ofKind (baseKind e.statedSize e.statedEncoding).1 (s.ownName? u e) with
        size := e.statedSize
        encoding := (baseKind e.statedSize e.statedEncoding).2 })
  | derived {kind : TypeKind} {target : Option Nat} (tag : derivedKind? e.tag = some kind)
      (points : u.PointsTo (e.attributes.lookup .type) target) :
    Stems s u parent e (.derived (TypeRecord.ofKind kind (s.ownName? u e)) target)
  | array {target : Option Nat} (tag : e.tag = .arrayType)
      (points : u.PointsTo (e.attributes.lookup .type) target) :
    Stems s u parent e (.array (TypeRecord.ofKind .array (s.ownName? u e)) target)
  | aggregate {kind : TypeKind} (tag : aggregateKind? e.tag = some kind) :
    Stems s u parent e (.aggregate
      { TypeRecord.ofKind kind (s.ownName? u e) with size := e.statedSize })
  | enumeration (tag : e.tag = .enumerationType) :
    Stems s u parent e (.enumeration
      { TypeRecord.ofKind .enum (s.ownName? u e) with size := e.statedSize })
  | subroutine {target : Option Nat} (tag : e.tag = .subroutineType)
      (points : u.PointsTo (e.attributes.lookup .type) target) :
    Stems s u parent e (.subroutine (TypeRecord.ofKind .function (s.ownName? u e)) target)
  | dimension {id : TypeId} {entry : Nat} {target : Option Nat} {counts : List UInt32}
      {count : UInt32} (tag : e.tag = .subrangeType)
      (inside : parent = some (.array id entry target counts))
      (counted : e.dimensionCount = .ok count) :
    Stems s u parent e (.dimension count)
  | member {owner : TypeId} {offset : UInt64} {target : Option Nat} (tag : e.tag = .member)
      (inside : parent = some (.aggregate owner)) (defined : e.declares = false)
      (placed : u.PlacedAt e offset) (points : u.PointsTo (e.attributes.lookup .type) target) :
    Stems s u parent e (.member owner (s.ownName? u e) offset target)
  | argument {owner : TypeId} {target : Option Nat} (tag : e.tag = .formalParameter)
      (inside : parent = some (.function owner))
      (points : u.PointsTo (u.nearest? .type 4 e) target) :
    Stems s u parent e (.member owner (s.nearestName? u 4 e) 0 target)
  | enumerator {owner : TypeId} {value : Int64} (tag : e.tag = .enumerator)
      (inside : parent = some (.enumeration owner)) (found : e.enumeratorValue = .ok value) :
    Stems s u parent e (.enumerator owner ⟨(s.ownName? u e).getD "", value⟩)
  | subprogram {name : String} {target : Option Nat} (tag : e.tag = .subprogram)
      (named : s.nearestName? u 4 e = some name)
      (points : u.PointsTo (u.nearest? .type 4 e) target) :
    Stems s u parent e (.subprogram (symbolRecord .function name) target)
  | object {name : String} {target : Option Nat} (tag : e.tag = .object)
      (named : s.nearestName? u 4 e = some name)
      (points : u.PointsTo (u.nearest? .type 4 e) target) :
    Stems s u parent e (.object (symbolRecord .object name) target)
  | untyped (tag : e.tag = .unspecifiedType ∨ e.tag = .pointerToMemberType) :
    Stems s u parent e (.synonym none)
  | atomic {target : Option Nat} (tag : e.tag = .atomicType)
      (points : u.PointsTo (e.attributes.lookup .type) target) :
    Stems s u parent e (.synonym target)
  /-- The parent takes no such entries. -/
  | outside (tag : e.tag ∈ [.subrangeType, .member, .enumerator, .formalParameter])
      (outside : ∀ scope, parent = some scope → scope.takes e.tag = false) :
    Stems s u parent e .nothing
  | declared (tag : e.tag = .member) (declares : e.declares = true) : Stems s u parent e .nothing
  | unrecorded (tag : e.tag = .subprogram ∨ e.tag = .object) : Stems s u parent e .nothing
  | unknown {code : Nat} (tag : e.tag = .other code) : Stems s u parent e .nothing

variable {s : Sections} {u : CompilationUnit} {e : Entry} {c : Contribution}

/-! ### Readers by tag -/

theorem namedRecord_ok {kind : TypeKind} {r : TypeRecord}
    (h : (namedRecord s u kind e).value = .ok r) :
  r = TypeRecord.ofKind kind (s.ownName? u e)
  := by
  obtain ⟨name, named, h⟩ := Reading.ok_of_bind h
  cases h
  rw [Sections.ownName?_of_nameOf named]

theorem sizedRecord_ok {kind : TypeKind} {r : TypeRecord}
    (h : (sizedRecord s u kind e).value = .ok r) :
  r = { TypeRecord.ofKind kind (s.ownName? u e) with size := e.statedSize }
  := by
  obtain ⟨name, named, h⟩ := Reading.ok_of_bind h
  obtain ⟨size, sized, h⟩ := Reading.ok_of_bind h
  cases h
  rw [Sections.ownName?_of_nameOf named, Entry.statedSize_of_byteSize sized]

theorem stems_ofBase {parent : Option Scope} (tag : e.tag = .baseType)
    (h : (ofBase s u e).value = .ok c) :
  Stems s u parent e c
  := by
  obtain ⟨name, named, h⟩ := Reading.ok_of_bind h
  obtain ⟨size, sized, h⟩ := Reading.ok_of_bind h
  obtain ⟨encoding, encoded, h⟩ := Reading.ok_of_bind h
  cases h
  rw [← Sections.ownName?_of_nameOf named, ← Entry.statedSize_of_byteSize sized,
    ← Entry.statedEncoding_of_baseEncoding encoded]
  exact .plain tag

theorem stems_ofDerived {parent : Option Scope} {kind : TypeKind}
    (tag : derivedKind? e.tag = some kind) (h : (ofDerived s u kind e).value = .ok c) :
  Stems s u parent e c
  := by
  obtain ⟨r, front, h⟩ := Reading.ok_of_bind h
  obtain ⟨target, found, h⟩ := Reading.ok_of_bind h
  cases h
  rw [namedRecord_ok front]
  exact .derived tag (CompilationUnit.pointsTo_of_typeOf found)

theorem stems_ofArray {parent : Option Scope} (tag : e.tag = .arrayType)
    (h : (ofArray s u e).value = .ok c) :
  Stems s u parent e c
  := by
  obtain ⟨r, front, h⟩ := Reading.ok_of_bind h
  obtain ⟨target, found, h⟩ := Reading.ok_of_bind h
  cases h
  rw [namedRecord_ok front]
  exact .array tag (CompilationUnit.pointsTo_of_typeOf found)

theorem stems_ofAggregate {parent : Option Scope} {kind : TypeKind}
    (tag : aggregateKind? e.tag = some kind) (h : (ofAggregate s u kind e).value = .ok c) :
  Stems s u parent e c
  := by
  obtain ⟨r, found, h⟩ := Reading.ok_of_bind h
  cases h
  rw [sizedRecord_ok found]
  exact .aggregate tag

theorem stems_ofEnumeration {parent : Option Scope} (tag : e.tag = .enumerationType)
    (h : (ofEnumeration s u e).value = .ok c) :
  Stems s u parent e c
  := by
  obtain ⟨r, found, h⟩ := Reading.ok_of_bind h
  cases h
  rw [sizedRecord_ok found]
  exact .enumeration tag

theorem stems_ofSubroutine {parent : Option Scope} (tag : e.tag = .subroutineType)
    (h : (ofSubroutine s u e).value = .ok c) :
  Stems s u parent e c
  := by
  obtain ⟨r, front, h⟩ := Reading.ok_of_bind h
  obtain ⟨target, found, h⟩ := Reading.ok_of_bind h
  cases h
  rw [namedRecord_ok front]
  exact .subroutine tag (CompilationUnit.pointsTo_of_typeOf found)

theorem stems_ofSubrange {parent : Option Scope} (tag : e.tag = .subrangeType)
    (h : (ofSubrange parent e).value = .ok c) :
  Stems s u parent e c
  := by
  unfold ofSubrange at h
  split at h
  next id entry target counts =>
    obtain ⟨count, counted, h⟩ := Reading.ok_of_bind h
    cases h
    exact .dimension tag rfl counted
  next other =>
    cases h
    refine .outside (by rw [tag]; decide) ?_
    rintro (_ | _ | _ | _ | _) rfl <;> rw [tag] <;> first | rfl | exact absurd rfl (other _ _ _ _)

theorem stems_ofMember {parent : Option Scope} (tag : e.tag = .member)
    (h : (ofMember s u parent e).value = .ok c) :
  Stems s u parent e c
  := by
  unfold ofMember at h
  split at h
  next owner =>
    obtain ⟨declared, declaration, h⟩ := Reading.ok_of_bind h
    have declares := Entry.declares_of_isDeclaration declaration
    cases declared with
    | true =>
      cases h
      exact .declared tag declares
    | false =>
      obtain ⟨name, named, h⟩ := Reading.ok_of_bind h
      obtain ⟨offset, placed, h⟩ := Reading.ok_of_bind h
      obtain ⟨target, found, h⟩ := Reading.ok_of_bind h
      cases h
      rw [← Sections.ownName?_of_nameOf named]
      exact .member tag rfl declares (CompilationUnit.placedAt_of_memberOffset placed)
        (CompilationUnit.pointsTo_of_typeOf found)
  next other =>
    cases h
    refine .outside (by rw [tag]; decide) ?_
    rintro (_ | _ | _ | _ | _) rfl <;> rw [tag] <;> first | rfl | exact absurd rfl (other _)

theorem stems_ofEnumerator {parent : Option Scope} (tag : e.tag = .enumerator)
    (h : (ofEnumerator s u parent e).value = .ok c) :
  Stems s u parent e c
  := by
  unfold ofEnumerator at h
  split at h
  next owner =>
    obtain ⟨value, found, h⟩ := Reading.ok_of_bind h
    obtain ⟨name, named, h⟩ := Reading.ok_of_bind h
    cases h
    rw [← Sections.ownName?_of_nameOf named]
    exact .enumerator tag rfl found
  next other =>
    cases h
    refine .outside (by rw [tag]; decide) ?_
    rintro (_ | _ | _ | _ | _) rfl <;> rw [tag] <;> first | rfl | exact absurd rfl (other _)

theorem stems_ofParameter {parent : Option Scope} (tag : e.tag = .formalParameter)
    (h : (ofParameter s u parent e).value = .ok c) :
  Stems s u parent e c
  := by
  unfold ofParameter at h
  split at h
  next owner =>
    obtain ⟨name, named, h⟩ := Reading.ok_of_bind h
    obtain ⟨target, found, h⟩ := Reading.ok_of_bind h
    cases h
    obtain ⟨-, rfl⟩ := (s.inheritedNameOf_ok_iff u e name).mp named
    exact .argument tag rfl (CompilationUnit.pointsTo_of_inheritedTypeOf found)
  next other =>
    cases h
    refine .outside (by rw [tag]; decide) ?_
    rintro (_ | _ | _ | _ | _) rfl <;> rw [tag] <;> first | rfl | exact absurd rfl (other _)

theorem functionRecord?_ok {r : TypeRecord} (h : (functionRecord? s u e).value = .ok (some r)) :
  ∃ name, r = symbolRecord .function name ∧ s.nearestName? u maxOrigins e = some name
  := by
  obtain ⟨declared, -, h⟩ := Reading.ok_of_bind h
  split at h
  · cases h
  · obtain ⟨name?, named, h⟩ := Reading.ok_of_bind h
    obtain ⟨name, rfl, same⟩ := Option.map_eq_some_iff.mp (Except.ok.inj h)
    exact ⟨name, same.symm, ((s.inheritedNameOf_ok_iff u e _).mp named).2.symm⟩

theorem stems_ofSubprogram {parent : Option Scope} (tag : e.tag = .subprogram)
    (h : (ofSubprogram s u e).value = .ok c) :
  Stems s u parent e c
  := by
  obtain ⟨r?, front, h⟩ := Reading.ok_of_bind h
  cases r? with
  | none =>
    cases h
    exact .unrecorded (.inl tag)
  | some r =>
    obtain ⟨name, rfl, named⟩ := functionRecord?_ok front
    obtain ⟨target, found, h⟩ := Reading.ok_of_bind h
    cases h
    exact .subprogram tag named (CompilationUnit.pointsTo_of_inheritedTypeOf found)

theorem variableRecord?_ok {depth : Int} {r : TypeRecord}
    (h : (variableRecord? s u depth e).value = .ok (some r)) :
  ∃ name, r = symbolRecord .object name ∧ s.nearestName? u maxOrigins e = some name
  := by
  obtain ⟨declared, -, h⟩ := Reading.ok_of_bind h
  split at h
  · cases h
  · obtain ⟨isStatic, -, h⟩ := Reading.ok_of_bind h
    split at h
    · obtain ⟨name?, named, h⟩ := Reading.ok_of_bind h
      obtain ⟨name, rfl, same⟩ := Option.map_eq_some_iff.mp (Except.ok.inj h)
      exact ⟨name, same.symm, ((s.inheritedNameOf_ok_iff u e _).mp named).2.symm⟩
    · cases h

theorem stems_ofVariable {parent : Option Scope} {depth : Int} (tag : e.tag = .object)
    (h : (ofVariable s u depth e).value = .ok c) :
  Stems s u parent e c
  := by
  obtain ⟨r?, front, h⟩ := Reading.ok_of_bind h
  cases r? with
  | none =>
    cases h
    exact .unrecorded (.inr tag)
  | some r =>
    obtain ⟨name, rfl, named⟩ := variableRecord?_ok front
    obtain ⟨target, found, h⟩ := Reading.ok_of_bind h
    cases h
    exact .object tag named (CompilationUnit.pointsTo_of_inheritedTypeOf found)

theorem stems_ofAtomic {parent : Option Scope} (tag : e.tag = .atomicType)
    (h : (ofAtomic u e).value = .ok c) :
  Stems s u parent e c
  := by
  obtain ⟨target, found, h⟩ := Reading.ok_of_bind h
  cases h
  exact .atomic tag (CompilationUnit.pointsTo_of_typeOf found)

/-! ### Contributions -/

/-- What is read from an entry is what stems from it. -/
theorem stems_read {parent : Option Scope} {depth : Int}
    (h : (read s u parent depth e).value = .ok c) :
  Stems s u parent e c
  := by
  unfold read at h
  split at h
  next tag => exact stems_ofBase tag h
  next tag => exact stems_ofDerived (by rw [tag]; rfl) h
  next tag => exact stems_ofDerived (by rw [tag]; rfl) h
  next tag => exact stems_ofDerived (by rw [tag]; rfl) h
  next tag => exact stems_ofDerived (by rw [tag]; rfl) h
  next tag => exact stems_ofDerived (by rw [tag]; rfl) h
  next tag => exact stems_ofDerived (by rw [tag]; rfl) h
  next tag => exact stems_ofDerived (by rw [tag]; rfl) h
  next tag => exact stems_ofArray tag h
  next tag => exact stems_ofSubrange tag h
  next tag => exact stems_ofAggregate (by rw [tag]; rfl) h
  next tag => exact stems_ofAggregate (by rw [tag]; rfl) h
  next tag => exact stems_ofAggregate (by rw [tag]; rfl) h
  next tag => exact stems_ofMember tag h
  next tag => exact stems_ofEnumeration tag h
  next tag => exact stems_ofEnumerator tag h
  next tag => exact stems_ofSubroutine tag h
  next tag => exact stems_ofSubprogram tag h
  next tag => exact stems_ofParameter tag h
  next tag => exact stems_ofVariable tag h
  next tag =>
    cases h
    exact .untyped (.inl tag)
  next tag =>
    cases h
    exact .untyped (.inr tag)
  next tag => exact stems_ofAtomic tag h
  next code tag =>
    cases h
    exact .unknown tag

theorem mem_derivedKinds {tag : Tag} {kind : TypeKind} (h : derivedKind? tag = some kind) :
  kind ∈ derivedKinds
  := by
  cases tag <;> cases h <;> decide

theorem mem_derivedTags {tag : Tag} {kind : TypeKind} (h : derivedKind? tag = some kind) :
  tag ∈ derivedTags
  := by
  cases tag <;> cases h <;> decide

theorem of_aggregateKind? {tag : Tag} {kind : TypeKind} (h : aggregateKind? tag = some kind) :
  (tag = .structureType ∨ tag = .classType ∨ tag = .unionType)
    ∧ (kind = .struct ∨ kind = .union)
  := by
  cases tag <;> cases h <;> decide

/-- From the entry of an array stems an array. -/
theorem Stems.of_arrayType {parent : Option Scope} (h : Stems s u parent e c)
    (tag : e.tag = .arrayType) :
  ∃ target, c = .array (TypeRecord.ofKind .array (s.ownName? u e)) target
    ∧ u.PointsTo (e.attributes.lookup .type) target
  := by
  cases h with
  | array _ points => exact ⟨_, rfl, points⟩
  | _ => simp_all

/-- From the entry of an enumeration stems an enumeration. -/
theorem Stems.of_enumerationType {parent : Option Scope} (h : Stems s u parent e c)
    (tag : e.tag = .enumerationType) :
  ∃ r, c = .enumeration r ∧ r.kind = .enum
  := by
  cases h with
  | enumeration => exact ⟨_, rfl, rfl⟩
  | _ => simp_all

/-- From the entry of a struct or union stems one. -/
theorem Stems.of_aggregateType {parent : Option Scope} (h : Stems s u parent e c)
    (tag : e.tag = .structureType ∨ e.tag = .classType ∨ e.tag = .unionType) :
  ∃ r, c = .aggregate r ∧ (r.kind = .struct ∨ r.kind = .union)
  := by
  cases h with
  | aggregate tag => exact ⟨_, rfl, (of_aggregateKind? tag).2⟩
  | _ => rcases tag with tag | tag | tag <;> simp_all

/-- From the entry of a member inside a struct or union stems a member, unless it is only
declared. -/
theorem Stems.of_member {owner : TypeId} (h : Stems s u (some (.aggregate owner)) e c)
    (tag : e.tag = .member) (defined : e.declares = false) :
  ∃ offset target, c = .member owner (s.ownName? u e) offset target
  := by
  cases h with
  | member _ inside =>
    cases inside
    exact ⟨_, _, rfl⟩
  | _ => simp_all

/-- From the entry of an argument inside a function stems an argument. -/
theorem Stems.of_formalParameter {owner : TypeId} (h : Stems s u (some (.function owner)) e c)
    (tag : e.tag = .formalParameter) :
  ∃ target, c = .member owner (s.nearestName? u 4 e) 0 target
  := by
  cases h with
  | argument _ inside =>
    cases inside
    exact ⟨_, rfl⟩
  | _ => simp_all

/-- From the entry of a dimension inside an array stems a dimension. -/
theorem Stems.of_subrangeType {id : TypeId} {entry : Nat} {target : Option Nat}
    {counts : List UInt32} (h : Stems s u (some (.array id entry target counts)) e c)
    (tag : e.tag = .subrangeType) :
  ∃ count, c = .dimension count ∧ e.dimensionCount = .ok count
  := by
  cases h with
  | dimension _ _ counted => exact ⟨_, rfl, counted⟩
  | _ => simp_all

/-- From the entry of an enumerator inside an enumeration stems an enumerator. -/
theorem Stems.of_enumerator {owner : TypeId} (h : Stems s u (some (.enumeration owner)) e c)
    (tag : e.tag = .enumerator) :
  ∃ value, c = .enumerator owner ⟨(s.ownName? u e).getD "", value⟩
    ∧ e.enumeratorValue = .ok value
  := by
  cases h with
  | enumerator _ inside found =>
    cases inside
    exact ⟨_, rfl, found⟩
  | _ => simp_all

/-- What is read from an entry fits the scope of its parent. -/
theorem fits_read {parent : Option Scope} {depth : Int}
    (h : (read s u parent depth e).value = .ok c) :
  c.Fits parent
  := by
  cases stems_read h with
  | plain tag =>
    refine ⟨⟨rfl, rfl, rfl, rfl⟩, rfl, ?_⟩
    cases e.statedEncoding <;> simp [TypeRecord.ofKind, baseKind]
  | derived tag => exact ⟨bare_ofKind _ _, rfl, mem_derivedKinds tag⟩
  | array | subroutine => exact ⟨bare_ofKind _ _, rfl, rfl⟩
  | aggregate tag => exact ⟨⟨rfl, rfl, rfl, rfl⟩, rfl, (of_aggregateKind? tag).2⟩
  | enumeration | subprogram | object => exact ⟨⟨rfl, rfl, rfl, rfl⟩, rfl, rfl⟩
  | dimension tag inside => exact ⟨_, _, _, _, inside⟩
  | member tag inside => exact .inl inside
  | argument tag inside => exact .inr inside
  | enumerator tag inside => exact inside
  | untyped | atomic | outside | declared | unrecorded | unknown => trivial

/-- What is read from an entry suits the tag of the entry. -/
theorem suits_read {parent : Option Scope} {depth : Int}
    (h : (read s u parent depth e).value = .ok c) :
  c.Suits e.tag
  := by
  cases stems_read h with
  | derived tag => exact mem_derivedTags tag
  | aggregate tag => exact (of_aggregateKind? tag).1
  | member tag => exact .inl tag
  | argument tag => exact .inr tag
  | untyped tag => exact tag.elim .inl fun tag => .inr (.inl tag)
  | atomic tag => exact .inr (.inr tag)
  | plain tag | array tag | enumeration tag | subroutine tag | dimension tag | enumerator tag
  | subprogram tag | object tag => exact tag
  | outside | declared | unrecorded | unknown => trivial

end Contribution

end CompactTypes.Dwarf

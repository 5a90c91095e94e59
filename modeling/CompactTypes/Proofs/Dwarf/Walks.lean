import CompactTypes.Proofs.Dwarf.Links
import CompactTypes.Proofs.Graph.Fresh

/-!
# Properties that walks keep

A property of states is `Decoding.Kept` if it is kept by each of the changes from which a walk is
built: new records, changes of records, and new meanings of entries.  Then it holds after every
walk that has started with it, also after one that a fault has stopped, `Kept.walk`.  A property
of graphs that is kept by changes of records that let them refer to what references lead to is
kept when the references are set, `finish_keeps`.
-/

namespace CompactTypes.Dwarf

/-! ### Contributions -/

namespace Contribution

variable {c : Contribution} {r : TypeRecord} {parent : Option Scope}

theorem regular_of_fits (record : c.record? = some r) (fits : c.Fits parent) :
  r.Regular
  := by
  have plain (hclass : r.symbolClass? = none) (kind : r.kind ≠ .unknown) : r.Regular := by
    rw [TypeRecord.Regular, hclass]
    exact kind
  cases c with
  | nothing | dimension | member | enumerator | synonym => cases record
  | plain | aggregate =>
    cases record
    obtain ⟨-, hclass, kind | kind⟩ := fits <;> exact plain hclass (by rw [kind]; decide)
  | array | enumeration | subroutine =>
    cases record
    obtain ⟨-, hclass, kind⟩ := fits
    exact plain hclass (by rw [kind]; decide)
  | derived =>
    cases record
    obtain ⟨-, hclass, kind⟩ := fits
    refine plain hclass fun unknown => ?_
    rw [unknown] at kind
    exact absurd kind (by decide)
  | subprogram | object =>
    cases record
    obtain ⟨-, hclass, kind⟩ := fits
    rw [TypeRecord.Regular, hclass]
    exact kind

/-- Only the records of plain types are meant by references. -/
theorem plain_of_meaning? {id id' : TypeId} (meaning : c.meaning? id = some (.record id'))
    (fits : c.Fits parent) :
  id' = id ∧ ∃ r, c.record? = some r ∧ r.isSymbol = false
  := by
  have plain {r : TypeRecord} (hclass : r.symbolClass? = none) : r.isSymbol = false := by
    rw [TypeRecord.isSymbol_eq_isSome, hclass]
    rfl
  cases c with
  | nothing | subprogram | object | dimension | member | enumerator | synonym => cases meaning
  | plain r | derived r | array r | aggregate r | enumeration r | subroutine r =>
    cases meaning
    exact ⟨rfl, r, rfl, plain fits.2.1⟩

/-- The record of an entry that cannot be read to its end is a bare one as well. -/
theorem bare_of_unfinished? {s : Sections} {u : CompilationUnit} {depth : Int} {e : Entry}
    (h : unfinished? s u depth e = some r) :
  r.Regular ∧ Bare r
  := by
  have named {kind : TypeKind} (known : kind ≠ .unknown)
      (h : (namedRecord s u kind e).value.toOption = some r) : r.Regular ∧ Bare r := by
    obtain rfl := namedRecord_ok (ok_of_toOption h)
    exact ⟨known, bare_ofKind kind _⟩
  unfold unfinished? at h
  cases htag : e.tag with
  | pointerType | referenceType | rvalueReferenceType | typedef | volatileType | constType
  | restrictType | arrayType | subroutineType =>
    rw [htag] at h
    exact named TypeKind.noConfusion h
  | subprogram =>
    rw [htag] at h
    obtain ⟨name, rfl, -⟩ := functionRecord?_ok (ok_of_toOption (Option.join_eq_some_iff.mp h))
    exact ⟨rfl, rfl, rfl, rfl, rfl⟩
  | object =>
    rw [htag] at h
    obtain ⟨name, rfl, -⟩ := variableRecord?_ok (ok_of_toOption (Option.join_eq_some_iff.mp h))
    exact ⟨rfl, rfl, rfl, rfl, rfl⟩
  | _ =>
    rw [htag] at h
    cases h

end Contribution

/-! ### Walks -/

namespace Decoding

/-- An entry means what its contribution says, and the others what they meant before. -/
theorem meaning_add {d : Decoding} {entry offset : Nat} {c : Contribution} {m : Meaning}
    (found : (d.add entry c).meanings[offset]? = some m) :
  c.meaning? d.graph.nextId = some m ∨ d.meanings[offset]? = some m
  := by
  cases c with
  | nothing | subprogram | object | member | enumerator => exact .inr found
  | dimension count =>
    simp only [add, addDimension] at found
    split at found <;> exact .inr found
  | plain | derived | array | aggregate | enumeration | subroutine | synonym =>
    simp only [add, register, push, define, link, Std.TreeMap.getElem?_insert] at found
    split at found
    · exact .inl found
    · exact .inr found

/-- A synonym means no record itself. -/
theorem meaning_define {d : Decoding} {entry offset : Nat} {target : Option Nat} {id : TypeId}
    (found : (d.define entry (.synonym target)).meanings[offset]? = some (.record id)) :
  d.meanings[offset]? = some (.record id)
  := by
  simp only [define, Std.TreeMap.getElem?_insert] at found
  split at found
  · cases found
  · exact found

/-- Each of the changes from which a walk is built keeps a property of states.  Only the graph, the
type that stands for no type at all and the meanings of entries matter to it. -/
structure Kept (P : Decoding → Prop) : Prop where
  transport : ∀ {d d' : Decoding}, P d → d'.graph = d.graph → d'.void = d.void →
    d'.meanings = d.meanings → P d'
  /-- A record keeps its kind, its name and its flags, and at most gets a reference to no type at
  all. -/
  update : ∀ {d : Decoding} (id : TypeId) (f : TypeRecord → TypeRecord), P d →
    (∀ r, (f r).kind = r.kind ∧ (f r).name = r.name ∧ (f r).flags = r.flags) →
    (∀ r, ∀ target ∈ (f r).referents, target ∈ r.referents ∨ target = d.void) →
    P (d.update id f)
  push : ∀ {d : Decoding} {r : TypeRecord}, P d → r.Regular → Bare r → P (d.push r)
  /-- A new record, and what references to its entry mean. -/
  record : ∀ {d : Decoding} {entry : Nat} {c : Contribution} {r : TypeRecord}
    {parent : Option Scope}, P d → c.record? = some r → c.Fits parent → P (d.add entry c)
  synonym : ∀ {d : Decoding} (entry : Nat) (target : Option Nat), P d →
    P (d.define entry (.synonym target))
  /-- An array refers to a new one. -/
  nest : ∀ {d : Decoding} (outer : TypeId) (count : UInt32), P d →
    P ((d.push { TypeRecord.ofKind .array none with elementCount := count }).update outer
      (·.withReference d.graph.nextId))

variable {P : Decoding → Prop} {d : Decoding}

theorem Kept.update_same (kept : Kept P) (h : P d) (id : TypeId) (f : TypeRecord → TypeRecord)
    (same : ∀ r, (f r).kind = r.kind ∧ (f r).name = r.name ∧ (f r).flags = r.flags)
    (referents : ∀ r, (f r).referents = r.referents) :
  P (d.update id f)
  := kept.update id f h same fun r _ mem => .inl (referents r ▸ mem)

theorem Kept.nestArrays (kept : Kept P) (h : P d) (entry : Nat) (target : Option Nat)
    (outer : TypeId) (counts : List UInt32) :
  P (nestArrays entry target outer counts d)
  := by
  induction counts generalizing outer d with
  | nil => exact kept.transport h rfl rfl rfl
  | cons count counts ih =>
    rw [Decoding.nestArrays]
    exact ih (kept.nest outer count h) d.graph.nextId

theorem Kept.close (kept : Kept P) (h : P d) (scope : Scope) :
  P (d.close scope)
  := by
  cases scope with
  | other | aggregate | enumeration => exact h
  | function id => exact kept.update_same h id _ (fun _ => ⟨rfl, rfl, rfl⟩) fun _ => rfl
  | array id entry target counts =>
    have counted := kept.update_same h id
      (fun r => { r with elementCount := counts.reverse.headD 0 }) (fun _ => ⟨rfl, rfl, rfl⟩)
      fun _ => rfl
    exact kept.nestArrays counted entry target id counts.reverse.tail

theorem Kept.closeFrom (kept : Kept P) (h : P d) (depth : Int) (scopes : List (Int × Scope)) :
  P (closeFrom depth scopes d)
  := by
  induction scopes generalizing d with
  | nil => exact kept.transport h rfl rfl rfl
  | cons first scopes ih =>
    rw [Decoding.closeFrom]
    split
    · exact kept.transport h rfl rfl rfl
    · exact ih (kept.close h first.2)

theorem Kept.closeAll (kept : Kept P) (h : P d) (scopes : List (Int × Scope)) :
  P (closeAll scopes d)
  := by
  induction scopes generalizing d with
  | nil => exact kept.transport h rfl rfl rfl
  | cons first scopes ih => exact ih (kept.close h first.2)

theorem Kept.add (kept : Kept P) {entry : Nat} {c : Contribution} {parent : Option Scope} (h : P d)
    (fits : c.Fits parent) :
  P (d.add entry c)
  := by
  cases c with
  | plain | derived | array | aggregate | enumeration | subroutine | subprogram | object =>
    exact kept.record h rfl fits
  | nothing => exact h
  | synonym target => exact kept.synonym entry target h
  | enumerator owner e =>
    exact kept.update_same h owner _ (fun _ => ⟨rfl, rfl, rfl⟩) fun _ => rfl
  | member owner name offset target =>
    -- Until its reference is set, a member is of no type at all.
    have updated : P (d.update owner (·.addMember ⟨name, d.void, offset⟩)) :=
      kept.update owner _ h (fun _ => ⟨rfl, rfl, rfl⟩) fun _ _ mem =>
        TypeRecord.referent_addMember mem
    exact kept.transport updated rfl rfl rfl
  | dimension count =>
    change P (d.addDimension count)
    unfold addDimension
    split
    · exact kept.transport h rfl rfl rfl
    · exact h

theorem Kept.enter (kept : Kept P) (h : P d) (depth : Int) (hasChildren : Bool)
    (scope : Option Scope) :
  P (d.enter depth hasChildren scope)
  := by
  unfold Decoding.enter
  split
  · exact kept.transport h rfl rfl rfl
  · cases scope with
    | none => exact h
    | some scope => exact kept.close h scope

variable {s : Sections}

theorem Kept.abandon (kept : Kept P) (h : P d) (u : CompilationUnit) (depth : Int) (e : Entry) :
  P (d.abandon (Contribution.unfinished? s u depth e))
  := by
  cases found : Contribution.unfinished? s u depth e with
  | none => exact h
  | some r =>
    obtain ⟨regular, bare⟩ := Contribution.bare_of_unfinished? found
    exact kept.push h regular bare

theorem Kept.visit (kept : Kept P) (h : P d) (u : CompilationUnit) (depth : Int) (e : Entry) :
  P (d.visit s u depth e).1
  := by
  have noted (notices : List Fault) : P ((Decoding.closeFrom depth d.scopes d).note notices) :=
    kept.transport (kept.closeFrom h depth d.scopes) rfl rfl rfl
  unfold Decoding.visit
  dsimp only
  split
  next => exact kept.abandon (noted _) u depth e
  next c read =>
    exact kept.enter (kept.add (noted _) (Contribution.fits_read read)) depth e.hasChildren _

theorem Kept.visitAll (kept : Kept P) (h : P d) (u : CompilationUnit)
    (entries : List (Int × Entry)) :
  P (visitAll s u entries d).1
  := by
  induction entries generalizing d with
  | nil => exact h
  | cons item entries ih =>
    have visited := kept.visit (s := s) h u item.1 item.2
    rw [Decoding.visitAll]
    split
    next step =>
      rw [step] at visited
      exact visited
    next step =>
      rw [step] at visited
      exact ih visited

theorem Kept.walkUnit (kept : Kept P) (h : P d) (u : CompilationUnit) :
  P (walkUnit s u d).1
  := by
  have visited := kept.visitAll (s := s) h u u.contents.items
  rw [Decoding.walkUnit]
  split
  next entries =>
    rw [entries] at visited
    exact visited
  next entries =>
    rw [entries] at visited
    split
    · exact visited
    · exact kept.closeAll visited _

theorem Kept.walkUnits (kept : Kept P) (h : P d) (units : List CompilationUnit) :
  P (walkUnits s units d).1
  := by
  induction units generalizing d with
  | nil => exact h
  | cons u units ih =>
    have walked := kept.walkUnit (s := s) h u
    rw [Decoding.walkUnits]
    split
    next unit =>
      rw [unit] at walked
      exact walked
    next unit =>
      rw [unit] at walked
      exact ih walked

/-- A walk over all units keeps the property, whether or not a fault stops it. -/
theorem Kept.walk (kept : Kept P) {units : Stream CompilationUnit} {g : Graph} {indexSize : Nat}
    (h : P (start g indexSize)) :
  P (s.walk units g indexSize).1
  := by
  have walked := kept.walkUnits (s := s) h units.items
  rw [Sections.walk]
  split
  next step =>
    rw [step] at walked
    exact walked
  next step =>
    rw [step] at walked
    exact walked

/-! ### Setting references -/

/-- What holds of no type at all and of the records that entries stand for holds of every record
that a reference leads to. -/
theorem of_resolve? {Q : TypeId → Prop} (void : Q d.void)
    (meaning : ∀ (offset : Nat) (id : TypeId), d.meanings[offset]? = some (.record id) → Q id)
    {target : Option Nat} {id : TypeId} (found : d.resolve? target = some id) :
  Q id
  := by
  have follow {steps offset : Nat} (found : d.follow steps offset = some id) : Q id := by
    induction steps generalizing offset with
    | zero => cases found
    | succ steps ih =>
      obtain ⟨m, known, rfl | ⟨-, rfl⟩ | ⟨next, -, found⟩⟩ :=
        (d.follow_succ_iff steps offset id).mp found
      · exact meaning offset id known
      · exact void
      · exact ih found
  cases target with
  | none =>
    cases found
    exact void
  | some offset => exact follow found

theorem referent_withMemberAt {r : TypeRecord} {place : Nat} {target other : TypeId}
    (mem : other ∈ (withMemberAt place target r).referents) :
  other ∈ r.referents ∨ other = target
  := by
  rcases TypeRecord.mem_referents.mp mem with reference | ⟨m, listed, rfl⟩
  · exact .inl (TypeRecord.mem_referents.mpr (.inl reference))
  · obtain ⟨i, found⟩ := Array.mem_iff_getElem?.mp listed
    rw [withMemberAt, Array.getElem?_modify] at found
    split at found
    · obtain ⟨m', -, rfl⟩ := Option.map_eq_some_iff.mp found
      exact .inr rfl
    · exact .inl (TypeRecord.mem_referents.mpr (.inr ⟨m, Array.mem_of_getElem? found, rfl⟩))

theorem referent_sortMembers {r : TypeRecord} {id : TypeId}
    (mem : id ∈ (sortMembers r).referents) :
  id ∈ r.referents
  := by
  rw [TypeRecord.mem_referents, field_sortMembers TypeRecord.reference fun _ _ => rfl] at mem
  rcases mem with reference | ⟨m, listed, rfl⟩
  · exact TypeRecord.mem_referents.mpr (.inl reference)
  · refine TypeRecord.mem_referents.mpr (.inr ⟨m, ?_, rfl⟩)
    rw [← Array.mem_toList_iff, members_sortMembers] at listed
    rw [← Array.mem_toList_iff]
    unfold inOrder at listed
    split at listed
    · exact List.mem_mergeSort.mp listed
    · exact List.mem_mergeSort.mp listed
    · exact listed

section

variable {Q : Graph → Prop}
  (update : ∀ (g : Graph) (id : TypeId) (f : TypeRecord → TypeRecord), Q g →
    (∀ r, (f r).kind = r.kind ∧ (f r).name = r.name ∧ (f r).flags = r.flags) →
    (∀ r, ∀ target ∈ (f r).referents,
      target ∈ r.referents ∨ ∃ source, d.resolve? source = some target) →
    Q (g.update id f))

include update

theorem linkAll_keeps (links : List Link) {g : Graph} (h : Q g) :
  Q (d.linkAll links g).1
  := by
  refine d.linkAll_preserves (P := Q) ?_ links h
  intro g source target slot found h
  cases slot with
  | reference id =>
    refine update g id (·.withReference target) h (fun _ => ⟨rfl, rfl, rfl⟩) fun r other mem => ?_
    refine (TypeRecord.referent_withReference mem).imp_right ?_
    rintro rfl
    exact ⟨source, found⟩
  | member owner place =>
    refine update g owner (withMemberAt place target) h (fun _ => ⟨rfl, rfl, rfl⟩)
      fun r other mem => ?_
    refine (referent_withMemberAt mem).imp_right ?_
    rintro rfl
    exact ⟨source, found⟩

theorem sortAll_keeps (ids : List TypeId) {g : Graph} (h : Q g) :
  Q (sortAll ids g)
  := by
  induction ids generalizing g with
  | nil => exact h
  | cons id ids ih =>
    have same (r : TypeRecord) : (sortMembers r).kind = r.kind ∧ (sortMembers r).name = r.name
        ∧ (sortMembers r).flags = r.flags :=
      ⟨field_sortMembers TypeRecord.kind (fun _ _ => rfl) r,
        field_sortMembers TypeRecord.name (fun _ _ => rfl) r,
        field_sortMembers TypeRecord.flags (fun _ _ => rfl) r⟩
    exact ih (update g id sortMembers h same fun r target mem => .inl (referent_sortMembers mem))

/-- Setting the collected references and sorting the members keeps the property, whether or not a
reference leads nowhere. -/
theorem finish_keeps (h : Q d.graph) :
  Q d.finish.1
  := by
  have linked := linkAll_keeps update d.links.toList h
  rw [finish]
  split
  next stopped =>
    rw [stopped] at linked
    exact linked
  next g set =>
    rw [set] at linked
    split
    · exact linked
    · exact sortAll_keeps update _ linked

end

end Decoding

end CompactTypes.Dwarf

import CompactTypes.Dwarf.Contribution
import CompactTypes.Proofs.Results

/-!
# What attributes say

The values of attributes, apart from how they are read.  A value that is a reference `PointsTo` an
offset in the section of entries: an offset in a unit is counted from the start of the unit.  An
entry of a member is `PlacedAt` the offset that its location or its offset in bits says.

An entry that lacks an attribute takes it from its origins: the specification or, without one, the
abstract origin, then the origin of that, and so on.  The chain of origins, `originAt`, may lead
forwards or backwards and may run in a circle.  `CompilationUnit.nearest?` is the value of the
attribute at the nearest entry of the chain that has it, no more than a number of hops away.  It is
what a search for the attribute finds, and the search succeeds exactly if every entry that it visits
can be read: `CompilationUnit.inherited?_ok_iff`.
-/

namespace CompactTypes.Dwarf

theorem Reading.value_bind {α β : Type} (r : Reading α) (f : α → Reading β) :
  (r >>= f).value = r.value >>= fun a => (f a).value
  := by
  change (r.andThen f).value = _
  rw [andThen]
  cases r.value <;> rfl

theorem Reading.ok_of_bind {α β : Type} {r : Reading α} {f : α → Reading β} {b : β}
    (h : (r >>= f).value = .ok b) :
  ∃ a, r.value = .ok a ∧ (f a).value = .ok b
  := CompactTypes.ok_of_bind (Reading.value_bind r f ▸ h)

/-! ### Values -/

namespace Entry

/-- Whether an entry only declares what another one defines. -/
def declares (e : Entry) : Bool :=
  e.attributes.lookup .declaration = some (.flag true)

/-- The number for which an attribute stands, if it does so. -/
def numberAt? (e : Entry) (key : AttributeName) : Option Nat :=
  (e.attributes.lookup key).bind Value.unsigned?

/-- The size in bytes, which is zero if there is none. -/
def statedSize (e : Entry) : UInt64 :=
  UInt64.ofNat ((e.numberAt? .byteSize).getD 0)

/-- The encoding of a base type, which is signed if there is none. -/
def statedEncoding (e : Entry) : BaseEncoding :=
  ((e.attributes.lookup .encoding).bind Value.encoding?).getD .signed

/-- The offset in the unit to which an attribute refers, if it does so. -/
def unitTarget? (e : Entry) (key : AttributeName) : Option Nat :=
  match e.attributes.lookup key with
  | some (.unitReference offset) => some offset
  | _ => none

/-- The offset in the unit of the specification of an entry or, if it has none, of its abstract
origin. -/
def originOffset? (e : Entry) : Option Nat :=
  (e.unitTarget? .specification).or (e.unitTarget? .abstractOrigin)

variable {e : Entry} {key : AttributeName}

theorem value?_of_lookup {value : Value} (found : e.attributes.lookup key = some value) :
  e.value? key = .ok (some value)
  := by
  rw [value?, found]

theorem value?_of_fault {f : Fault} (missing : e.attributes.lookup key = none)
    (fault : e.fault = some f) :
  e.value? key = .error f
  := by
  rw [value?, missing, fault]

/-- Every attribute of an entry without a fault can be read. -/
theorem value?_of_readable (readable : e.fault = none) (key : AttributeName) :
  e.value? key = .ok (e.attributes.lookup key)
  := by
  rw [value?, readable]
  cases e.attributes.lookup key <;> rfl

/-- A value that has been read is that of the first attribute with the name. -/
theorem lookup_of_value? {value : Option Value} (h : e.value? key = .ok value) :
  e.attributes.lookup key = value
  := by
  unfold value? at h
  split at h
  next value' _ found =>
    cases h
    exact found
  next => cases h
  next found _ =>
    cases h
    exact found

theorem declares_of_isDeclaration {declared : Bool} (h : e.isDeclaration = .ok declared) :
  e.declares = declared
  := by
  obtain ⟨value, found, h⟩ := ok_of_bind h
  cases h
  rw [declares, lookup_of_value? found]

theorem numberAt?_of_number? {n : Option Nat} (h : e.number? key = .ok n) :
  e.numberAt? key = n
  := by
  obtain ⟨value, found, h⟩ := ok_of_bind h
  cases h
  rw [numberAt?, lookup_of_value? found]

theorem statedSize_of_byteSize {size : UInt64} (h : e.byteSize = .ok size) :
  e.statedSize = size
  := by
  obtain ⟨n, found, h⟩ := ok_of_bind h
  cases h
  rw [statedSize, numberAt?_of_number? found]

theorem statedEncoding_of_baseEncoding {encoding : BaseEncoding}
    (h : e.baseEncoding = .ok encoding) :
  e.statedEncoding = encoding
  := by
  obtain ⟨value, found, h⟩ := ok_of_bind h
  cases h
  rw [statedEncoding, lookup_of_value? found]

theorem unitReference?_of_readable (readable : e.fault = none) (key : AttributeName) :
  e.unitReference? key = .ok (e.unitTarget? key)
  := by
  rw [unitReference?, value?_of_readable readable, unitTarget?]
  change (match e.attributes.lookup key with
    | some (.unitReference offset) => Except.ok (some offset)
    | _ => .ok none) = _
  split <;> rfl

theorem origin?_of_readable (readable : e.fault = none) :
  e.origin? = .ok e.originOffset?
  := by
  rw [origin?, unitReference?_of_readable readable, unitReference?_of_readable readable,
    originOffset?]
  cases e.unitTarget? .specification <;> rfl

end Entry

/-! ### References -/

namespace CompilationUnit

/-- The offset in the section of entries to which the value of an attribute refers.  An offset in
the unit is counted from the start of the unit, with 64 bits.  A value that is no reference to an
entry, and an attribute that is missing, refer to nothing. -/
inductive PointsTo (u : CompilationUnit) : Option Value → Option Nat → Prop where
  | unit (offset : Nat) :
    PointsTo u (some (.unitReference offset)) (some (u.globalOffset offset % wordValues 8))
  | info (offset : Nat) : PointsTo u (some (.infoReference offset)) (some offset)
  | nothing {value : Option Value} : (∀ offset, value ≠ some (.unitReference offset)) →
    (∀ offset, value ≠ some (.infoReference offset)) → PointsTo u value none

theorem pointsTo_target? (u : CompilationUnit) (value : Option Value) :
  u.PointsTo value (u.target? value)
  := by
  cases value with
  | none => exact .nothing nofun nofun
  | some value =>
    cases value with
    | unitReference offset => exact .unit offset
    | infoReference offset => exact .info offset
    | _ => exact .nothing nofun nofun

theorem PointsTo.unique {u : CompilationUnit} {value : Option Value} {target target' : Option Nat}
    (h : u.PointsTo value target) (h' : u.PointsTo value target') :
  target = target'
  := by
  cases h with
  | unit offset =>
    cases h' with
    | unit => rfl
    | nothing other => exact absurd rfl (other offset)
  | info offset =>
    cases h' with
    | info => rfl
    | nothing _ other => exact absurd rfl (other offset)
  | nothing unit info =>
    cases h' with
    | unit offset => exact absurd rfl (unit offset)
    | info offset => exact absurd rfl (info offset)
    | nothing => rfl

theorem pointsTo_iff {u : CompilationUnit} {value : Option Value} {target : Option Nat} :
  u.PointsTo value target ↔ target = u.target? value
  := by
  constructor
  · intro points
    exact points.unique (u.pointsTo_target? value)
  · rintro rfl
    exact u.pointsTo_target? value

/-- The type that has been read from an entry is the one to which its attribute points. -/
theorem pointsTo_of_typeOf {u : CompilationUnit} {e : Entry} {target : Option Nat}
    (h : u.typeOf e = .ok target) :
  u.PointsTo (e.attributes.lookup .type) target
  := by
  obtain ⟨value, found, h⟩ := ok_of_bind h
  cases h
  rw [Entry.lookup_of_value? found]
  exact u.pointsTo_target? value

/-! ### Offsets of members -/

/-- The offset of a member in bytes.  Its location is a number or an expression that adds one, and
any other location counts as zero.  A member without a location may have an offset in bits. -/
inductive PlacedAt (u : CompilationUnit) (e : Entry) : UInt64 → Prop where
  | number {value : Value} {n : Nat} : e.attributes.lookup .memberLocation = some value →
    value.unsigned? = some n → PlacedAt u e (UInt64.ofNat n)
  | added {bytes : ByteArray} {n : Nat} :
    e.attributes.lookup .memberLocation = some (.expression bytes) →
    Operation.first? u.encoding bytes = .ok (some (.plusConstant n)) →
    PlacedAt u e (UInt64.ofNat n)
  | computed {bytes : ByteArray} {operation : Option Operation} :
    e.attributes.lookup .memberLocation = some (.expression bytes) →
    Operation.first? u.encoding bytes = .ok operation →
    (∀ n, operation ≠ some (.plusConstant n)) → PlacedAt u e 0
  | unknown {value : Value} : e.attributes.lookup .memberLocation = some value →
    (∀ bytes, value ≠ .expression bytes) → value.unsigned? = none → PlacedAt u e 0
  | bits {n : Nat} : e.attributes.lookup .memberLocation = none →
    e.numberAt? .dataBitOffset = some n → PlacedAt u e (UInt64.ofNat (n / 8))
  | unplaced : e.attributes.lookup .memberLocation = none → e.numberAt? .dataBitOffset = none →
    PlacedAt u e 0

theorem placedAt_of_memberOffset {u : CompilationUnit} {e : Entry} {offset : UInt64}
    (h : u.memberOffset e = .ok offset) :
  u.PlacedAt e offset
  := by
  obtain ⟨value, found, h⟩ := ok_of_bind h
  have found := Entry.lookup_of_value? found
  split at h
  next bytes =>
    obtain ⟨operation, first, h⟩ := ok_of_bind h
    split at h
    next n =>
      cases h
      exact .added found first
    next other =>
      cases h
      exact .computed found first other
  next value other _ =>
    cases h
    cases number : value.unsigned? with
    | some n => exact .number found number
    | none => exact .unknown found other number
  next =>
    obtain ⟨bits, read, h⟩ := ok_of_bind h
    have read := Entry.numberAt?_of_number? read
    cases h
    cases bits with
    | some n => exact .bits found read
    | none => exact .unplaced found read

theorem PlacedAt.unique {u : CompilationUnit} {e : Entry} {offset offset' : UInt64}
    (h : u.PlacedAt e offset) (h' : u.PlacedAt e offset') :
  offset = offset'
  := by
  cases h <;> cases h' <;> grind [Value.unsigned?]

end CompilationUnit

/-! ### Searches -/

namespace CompilationUnit

/-- The origin of an entry, if it can be read. -/
def origin? (u : CompilationUnit) (e : Entry) : Option Entry :=
  e.originOffset?.bind fun offset => (u.entryAt offset).toOption

/-- The entry that one reaches in a number of hops, each from an entry to its origin. -/
def originAt (u : CompilationUnit) (e : Entry) : Nat → Option Entry
  | 0 => some e
  | hops + 1 => (u.originAt e hops).bind u.origin?

/-- The value of an attribute of the entry that one reaches in a number of hops. -/
def attributeAt? (u : CompilationUnit) (key : AttributeName) (e : Entry) (hops : Nat) :
    Option Value :=
  (u.originAt e hops).bind fun d => d.attributes.lookup key

/-- The value of an attribute of the nearest entry that has it, which one reaches in at most `hops`
hops. -/
def nearest? (u : CompilationUnit) (key : AttributeName) (hops : Nat) (e : Entry) : Option Value :=
  (List.range (hops + 1)).findSome? (u.attributeAt? key e)

/-- Every entry can be read that a search for an attribute visits: those that one reaches in at most
`hops` hops, up to the first that has the attribute. -/
def Readable (u : CompilationUnit) (key : AttributeName) (hops : Nat) (e : Entry) : Prop :=
  ∀ n ≤ hops, (∀ m ≤ n, u.attributeAt? key e m = none) → ∀ d, u.originAt e n = some d →
    d.fault = none ∧ (n < hops → ∀ offset, d.originOffset? = some offset →
      ∃ origin, u.entryAt offset = .ok origin)

variable {u : CompilationUnit} {key : AttributeName} {e : Entry} {hops : Nat}

/-- The first hop leads to the origin of the entry, and the others on from there. -/
theorem originAt_succ (u : CompilationUnit) (e : Entry) (hops : Nat) :
  u.originAt e (hops + 1) = (u.origin? e).bind fun origin => u.originAt origin hops
  := by
  induction hops with
  | zero =>
    rw [originAt, originAt, Option.bind_some]
    exact (Option.bind_fun_some _).symm
  | succ hops ih =>
    rw [originAt, ih, Option.bind_assoc]
    rfl

theorem attributeAt?_succ (u : CompilationUnit) (key : AttributeName) (e : Entry) (hops : Nat) :
  u.attributeAt? key e (hops + 1)
    = (u.origin? e).bind fun origin => u.attributeAt? key origin hops
  := by
  rw [attributeAt?, originAt_succ, Option.bind_assoc]
  rfl

theorem nearest?_of_lookup {value : Value} (found : e.attributes.lookup key = some value)
    (hops : Nat) :
  u.nearest? key hops e = some value
  := by
  rw [nearest?, List.range_succ_eq_map, List.findSome?_cons]
  rw [show u.attributeAt? key e 0 = some value from found]

theorem nearest?_zero (missing : e.attributes.lookup key = none) :
  u.nearest? key 0 e = none
  := by
  rw [nearest?, List.range_one, List.findSome?_singleton]
  exact missing

theorem nearest?_succ (missing : e.attributes.lookup key = none) :
  u.nearest? key (hops + 1) e = (u.origin? e).bind (u.nearest? key hops)
  := by
  rw [nearest?, List.range_succ_eq_map, List.findSome?_cons]
  rw [show u.attributeAt? key e 0 = none from missing]
  rw [List.findSome?_map]
  have further : u.attributeAt? key e ∘ Nat.succ
      = fun n => (u.origin? e).bind fun origin => u.attributeAt? key origin n :=
    funext fun n => u.attributeAt?_succ key e n
  rw [further]
  cases u.origin? e with
  | none => simp
  | some origin => rfl

theorem readable_of_lookup {value : Value} (found : e.attributes.lookup key = some value)
    (hops : Nat) :
  u.Readable key hops e
  := by
  intro n _ lacking
  have missing : e.attributes.lookup key = none := lacking 0 (Nat.zero_le n)
  rw [found] at missing
  cases missing

theorem readable_zero (missing : e.attributes.lookup key = none) :
  u.Readable key 0 e ↔ e.fault = none
  := by
  constructor
  · intro readable
    exact (readable 0 (Nat.le_refl 0) (fun m le => Nat.le_zero.mp le ▸ missing) e rfl).1
  · intro fault n le _ d reached
    obtain rfl := Nat.le_zero.mp le
    obtain rfl : e = d := Option.some.inj reached
    exact ⟨fault, fun lt => absurd lt (Nat.lt_irrefl 0)⟩

/-- A search visits the entry itself and then goes on from its origin. -/
theorem readable_succ (missing : e.attributes.lookup key = none) :
  u.Readable key (hops + 1) e ↔ e.fault = none ∧ ∀ offset, e.originOffset? = some offset →
    ∃ origin, u.entryAt offset = .ok origin ∧ u.Readable key hops origin
  := by
  constructor
  · intro readable
    obtain ⟨fault, further⟩ :=
      readable 0 (Nat.zero_le _) (fun m le => Nat.le_zero.mp le ▸ missing) e rfl
    refine ⟨fault, fun offset target => ?_⟩
    obtain ⟨origin, found⟩ := further (Nat.succ_pos hops) offset target
    have next : u.origin? e = some origin := by
      rw [origin?, target, Option.bind_some, found]
      rfl
    refine ⟨origin, found, fun n le lacking d reached => ?_⟩
    have lacking (m : Nat) (le : m ≤ n + 1) : u.attributeAt? key e m = none := by
      cases m with
      | zero => exact missing
      | succ m =>
        rw [attributeAt?_succ, next]
        exact lacking m (Nat.le_of_succ_le_succ le)
    have reached : u.originAt e (n + 1) = some d := by
      rw [originAt_succ, next]
      exact reached
    obtain ⟨fault, further⟩ := readable (n + 1) (Nat.succ_le_succ le) lacking d reached
    exact ⟨fault, fun lt => further (Nat.succ_lt_succ lt)⟩
  · rintro ⟨fault, further⟩ n le lacking d reached
    cases n with
    | zero =>
      obtain rfl : e = d := Option.some.inj reached
      refine ⟨fault, fun _ offset target => ?_⟩
      obtain ⟨origin, found, -⟩ := further offset target
      exact ⟨origin, found⟩
    | succ n =>
      rw [originAt_succ] at reached
      obtain ⟨origin, next, reached⟩ := Option.bind_eq_some_iff.mp reached
      obtain ⟨offset, target, read⟩ := Option.bind_eq_some_iff.mp next
      obtain ⟨origin', found, readable⟩ := further offset target
      rw [found] at read
      obtain rfl : origin' = origin := Option.some.inj read
      have lacking (m : Nat) (le : m ≤ n) : u.attributeAt? key origin' m = none := by
        have far := lacking (m + 1) (Nat.succ_le_succ le)
        rw [attributeAt?_succ, next] at far
        exact far
      obtain ⟨fault, further⟩ := readable n (Nat.le_of_succ_le_succ le) lacking d reached
      exact ⟨fault, fun lt => further (Nat.lt_of_succ_lt_succ lt)⟩

/-- What an entry has itself is found at once. -/
theorem inherited?_of_lookup {value : Value} (found : e.attributes.lookup key = some value)
    (hops : Nat) :
  u.inherited? key hops e = .ok (some value)
  := by
  cases hops with
  | zero =>
    rw [inherited?]
    exact Entry.value?_of_lookup found
  | succ hops =>
    rw [inherited?, Entry.value?_of_lookup found]
    rfl

/-- A fault that may hide the attribute ends a search. -/
theorem inherited?_of_fault {f : Fault} (missing : e.attributes.lookup key = none)
    (fault : e.fault = some f) (hops : Nat) :
  u.inherited? key hops e = .error f
  := by
  cases hops with
  | zero =>
    rw [inherited?]
    exact Entry.value?_of_fault missing fault
  | succ hops =>
    rw [inherited?, Entry.value?_of_fault missing fault]
    rfl

/-- A search goes on from the origin of an entry that lacks the attribute. -/
theorem inherited?_succ (missing : e.attributes.lookup key = none) (readable : e.fault = none) :
  u.inherited? key (hops + 1) e = match e.originOffset? with
    | none => .ok none
    | some offset => u.entryAt offset >>= u.inherited? key hops
  := by
  rw [inherited?, Entry.value?_of_readable readable, missing, Entry.origin?_of_readable readable]
  cases e.originOffset? <;> rfl

/-- A search for an attribute succeeds exactly if every entry that it visits can be read, and then
it finds the value of the nearest entry that has the attribute. -/
theorem inherited?_ok_iff (u : CompilationUnit) (key : AttributeName) (hops : Nat) (e : Entry)
    (value : Option Value) :
  u.inherited? key hops e = .ok value
    ↔ u.Readable key hops e ∧ value = u.nearest? key hops e
  := by
  induction hops generalizing e with
  | zero =>
    cases found : e.attributes.lookup key with
    | some v =>
      rw [inherited?_of_lookup found, nearest?_of_lookup found, Except.ok.injEq, eq_comm]
      exact (and_iff_right (readable_of_lookup found 0)).symm
    | none =>
      rw [readable_zero found, nearest?_zero found]
      cases fault : e.fault with
      | some f => simp only [inherited?_of_fault found fault, reduceCtorEq, false_and]
      | none =>
        rw [inherited?, Entry.value?_of_readable fault, found, Except.ok.injEq, eq_comm]
        exact (and_iff_right rfl).symm
  | succ hops ih =>
    cases found : e.attributes.lookup key with
    | some v =>
      rw [inherited?_of_lookup found, nearest?_of_lookup found, Except.ok.injEq, eq_comm]
      exact (and_iff_right (readable_of_lookup found _)).symm
    | none =>
      rw [readable_succ found, nearest?_succ found, origin?]
      cases fault : e.fault with
      | some f => simp only [inherited?_of_fault found fault, reduceCtorEq, false_and]
      | none =>
        rw [inherited?_succ found fault, and_iff_right rfl]
        cases e.originOffset? with
        | none =>
          simp only [reduceCtorEq, false_imp_iff, forall_const, true_and, Option.bind_none,
            Except.ok.injEq, eq_comm]
        | some offset =>
          simp only [Option.some.injEq, forall_eq', Option.bind_some]
          cases read : u.entryAt offset with
          | error f => simp only [reduceCtorEq, false_and, exists_false, bind, Except.bind]
          | ok origin =>
            simp only [Except.ok.injEq, exists_eq_left']
            exact ih origin

/-! ### Names and types -/

/-- The value of the attribute for the type of an entry.  Functions, variables and arguments may
have it from one of their origins, at most four hops away. -/
def typeValue? (u : CompilationUnit) (e : Entry) : Option Value :=
  match e.tag with
  | .subprogram | .object | .formalParameter => u.nearest? .type 4 e
  | _ => e.attributes.lookup .type

/-- The offset in the section of entries of the type to which the nearest attribute for a type
refers. -/
def nearestTarget? (u : CompilationUnit) (hops : Nat) (e : Entry) : Option Nat :=
  u.target? (u.nearest? .type hops e)

/-- The type that has been searched for is the one to which the nearest attribute points. -/
theorem pointsTo_of_inheritedTypeOf {u : CompilationUnit} {e : Entry} {target : Option Nat}
    (h : u.inheritedTypeOf e = .ok target) :
  u.PointsTo (u.nearest? .type maxOrigins e) target
  := by
  obtain ⟨value, found, h⟩ := ok_of_bind h
  cases h
  obtain ⟨-, rfl⟩ := (u.inherited?_ok_iff .type maxOrigins e value).mp found
  exact u.pointsTo_target? _

theorem inheritedTypeOf_ok_iff (u : CompilationUnit) (e : Entry) (target : Option Nat) :
  u.inheritedTypeOf e = .ok target
    ↔ u.Readable .type maxOrigins e ∧ target = u.nearestTarget? maxOrigins e
  := map_ok_iff (u.inherited?_ok_iff .type maxOrigins e) u.target? target

end CompilationUnit

namespace Sections

/-- The name of an entry, unless it cannot be read. -/
def ownName? (s : Sections) (u : CompilationUnit) (e : Entry) : Option String :=
  (e.attributes.lookup .name).bind fun value => (s.string u value).toOption.map decodeLossy

/-- The nearest name, unless it cannot be read. -/
def nearestName? (s : Sections) (u : CompilationUnit) (hops : Nat) (e : Entry) : Option String :=
  (u.nearest? .name hops e).bind fun value => (s.string u value).toOption.map decodeLossy

/-- A string that cannot be read is no text. -/
theorem value_text (s : Sections) (u : CompilationUnit) (value : Option Value) :
  (s.text u value).value
    = .ok (value.bind fun value => (s.string u value).toOption.map decodeLossy)
  := by
  cases value with
  | none => rfl
  | some value =>
    rw [text, Option.bind_some]
    cases s.string u value <;> rfl

theorem ownName?_of_nameOf {s : Sections} {u : CompilationUnit} {e : Entry} {name : Option String}
    (h : (s.nameOf u e).value = .ok name) :
  s.ownName? u e = name
  := by
  obtain ⟨value, found, h⟩ := Reading.ok_of_bind h
  rw [value_text] at h
  cases h
  rw [ownName?, Entry.lookup_of_value? found]

theorem inheritedNameOf_ok_iff (s : Sections) (u : CompilationUnit) (e : Entry)
    (name : Option String) :
  (s.inheritedNameOf u e).value = .ok name
    ↔ u.Readable .name maxOrigins e ∧ name = s.nearestName? u maxOrigins e
  := by
  rw [inheritedNameOf, Reading.value_bind]
  simp only [value_text]
  exact map_ok_iff (u.inherited?_ok_iff .name maxOrigins e) _ name

end Sections

end CompactTypes.Dwarf

/-!
# Byte order

`ByteOrder` is the order in which the bytes of a word are stored.  `ByteOrder.encode n v`
are the `n` bytes of the number `v` in that order and `ByteOrder.decode` is the number
that a list of bytes stands for.  The two are inverse to each other on numbers below
`wordValues n` and on lists of length `n`.
-/

namespace CompactTypes

/-- The number of values that a word of `n` bytes can have. -/
def wordValues : Nat → Nat
  | 0 => 1
  | n + 1 => 256 * wordValues n

@[simp]
theorem wordValues_two :
  wordValues 2 = 0x10000
  := rfl

@[simp]
theorem wordValues_four :
  wordValues 4 = 0x100000000
  := rfl

@[simp]
theorem wordValues_eight :
  wordValues 8 = 0x10000000000000000
  := rfl

/-- The `n` lowest bytes of `v`, the least significant one first. -/
def lowBytes : Nat → Nat → List UInt8
  | 0, _ => []
  | n + 1, v => UInt8.ofNat v :: lowBytes n (v / 256)

/-- The number whose bytes are given, the least significant one first. -/
def ofLowBytes : List UInt8 → Nat
  | [] => 0
  | b :: bs => b.toNat + 256 * ofLowBytes bs

@[simp]
theorem length_lowBytes (n v : Nat) :
  (lowBytes n v).length = n
  := by
  induction n generalizing v with
  | zero => rfl
  | succ n ih => simp [lowBytes, ih]

theorem ofLowBytes_lowBytes (n v : Nat) :
  ofLowBytes (lowBytes n v) = v % wordValues n
  := by
  induction n generalizing v with
  | zero => simp [lowBytes, ofLowBytes, wordValues, Nat.mod_one]
  | succ n ih =>
    have low : (UInt8.ofNat v).toNat = v % 256 := by simp
    rw [lowBytes, ofLowBytes, ih, low, wordValues, Nat.mod_mul]

theorem lowBytes_ofLowBytes (bs : List UInt8) :
  lowBytes bs.length (ofLowBytes bs) = bs
  := by
  induction bs with
  | nil => rfl
  | cons b bs ih =>
    have bound := b.toNat_lt
    have quotient : (b.toNat + 256 * ofLowBytes bs) / 256 = ofLowBytes bs := by omega
    have low : UInt8.ofNat (b.toNat + 256 * ofLowBytes bs) = b := by
      apply UInt8.toNat_inj.mp
      simp
    simp only [List.length_cons, ofLowBytes, lowBytes, quotient, low, ih]

theorem ofLowBytes_lt (bs : List UInt8) :
  ofLowBytes bs < wordValues bs.length
  := by
  induction bs with
  | nil => simp [ofLowBytes, wordValues]
  | cons b bs ih =>
    have bound := b.toNat_lt
    rw [List.length_cons, wordValues, ofLowBytes]
    omega

/-- The order in which the bytes of a word are stored. -/
inductive ByteOrder where
  /-- The least significant byte comes first. -/
  | little
  /-- The most significant byte comes first. -/
  | big
  deriving DecidableEq, Repr, Inhabited

namespace ByteOrder

/-- The `n` lowest bytes of `v` in the order `o`. -/
def encode (o : ByteOrder) (n v : Nat) : List UInt8 :=
  match o with
  | little => lowBytes n v
  | big => (lowBytes n v).reverse

/-- The number that the bytes `bs` stand for in the order `o`. -/
def decode (o : ByteOrder) (bs : List UInt8) : Nat :=
  match o with
  | little => ofLowBytes bs
  | big => ofLowBytes bs.reverse

/-- The two bytes of a 16-bit word. -/
def u16 (o : ByteOrder) (w : UInt16) : List UInt8 :=
  o.encode 2 w.toNat

/-- The four bytes of a 32-bit word. -/
def u32 (o : ByteOrder) (w : UInt32) : List UInt8 :=
  o.encode 4 w.toNat

/-! ### Laws -/

@[simp]
theorem length_encode (o : ByteOrder) (n v : Nat) :
  (o.encode n v).length = n
  := by
  cases o <;> simp [encode]

theorem decode_encode (o : ByteOrder) (n v : Nat) :
  o.decode (o.encode n v) = v % wordValues n
  := by
  cases o <;> simp [encode, decode, ofLowBytes_lowBytes]

theorem encode_decode (o : ByteOrder) (bs : List UInt8) :
  o.encode bs.length (o.decode bs) = bs
  := by
  cases o with
  | little => exact lowBytes_ofLowBytes bs
  | big =>
    have reversed := lowBytes_ofLowBytes bs.reverse
    rw [List.length_reverse] at reversed
    simp [encode, decode, reversed]

theorem decode_lt (o : ByteOrder) (bs : List UInt8) :
  o.decode bs < wordValues bs.length
  := by
  cases o with
  | little => exact ofLowBytes_lt bs
  | big => simpa [decode] using ofLowBytes_lt bs.reverse

theorem decode_u16 (o : ByteOrder) (w : UInt16) :
  o.decode (o.u16 w) = w.toNat
  := by
  rw [u16, decode_encode]
  exact Nat.mod_eq_of_lt w.toNat_lt

theorem u16_decode (o : ByteOrder) {bs : List UInt8} (h : bs.length = 2) :
  o.u16 (UInt16.ofNat (o.decode bs)) = bs
  := by
  have small := o.decode_lt bs
  have bytes := o.encode_decode bs
  rw [h] at small bytes
  rw [u16, UInt16.toNat_ofNat_of_lt' small, bytes]

theorem u32_decode (o : ByteOrder) {bs : List UInt8} (h : bs.length = 4) :
  o.u32 (UInt32.ofNat (o.decode bs)) = bs
  := by
  have small := o.decode_lt bs
  have bytes := o.encode_decode bs
  rw [h] at small bytes
  rw [u32, UInt32.toNat_ofNat_of_lt' small, bytes]

@[simp]
theorem length_u16 (o : ByteOrder) (w : UInt16) :
  (o.u16 w).length = 2
  := length_encode o 2 w.toNat

@[simp]
theorem length_u32 (o : ByteOrder) (w : UInt32) :
  (o.u32 w).length = 4
  := length_encode o 4 w.toNat

end ByteOrder

end CompactTypes

import CompactTypes.Deflate.Huffman

/-!
# Inflating

`inflateBlocks` undoes the compression of a stream of blocks, each of which is stored as it
is or coded with a fixed code or one of its own.  The bytes that come before a flaw are kept.
A `Setting` says what a stream can refer to before its first byte, and how many bytes are
wanted.
-/

namespace CompactTypes.Deflate

/-- What lies in front of the first byte of a stream. -/
inductive Past where
  /-- Nothing that the stream could refer to. -/
  | empty
  /-- As many null bytes as the stream refers to. -/
  | zeros
  deriving DecidableEq, Repr, Inhabited

/-- How a stream is to be inflated. -/
structure Setting where
  past : Past
  /-- The number of bytes that are wanted; without it all are. -/
  wanted : Option Nat
  deriving DecidableEq, Repr, Inhabited

/-- Whether there are more bytes than are wanted.  A stream is not read any further then, and
counts as incomplete. -/
def Setting.isSated (setting : Setting) (output : ByteArray) : Bool :=
  match setting.wanted with
  | some size => size < output.size
  | none => false

/-- Whether a stream can refer to a byte some distance back. -/
def Setting.reaches (setting : Setting) (output : ByteArray) (distance : Nat) : Bool :=
  match setting.past with
  | .empty => distance ≤ output.size
  | .zeros => true

/-- The bytes that a compressed stream stands for, what is left of the stream, and the flaw
that ended it early. -/
structure Inflated where
  output : ByteArray
  rest : Bits
  flaw : Option Flaw
  deriving Inhabited

/-- The least length of each length symbol, and the number of bits that are added to it. -/
def lengthTable : List (Nat × Nat) :=
  [(3, 0), (4, 0), (5, 0), (6, 0), (7, 0), (8, 0), (9, 0), (10, 0), (11, 1), (13, 1),
    (15, 1), (17, 1), (19, 2), (23, 2), (27, 2), (31, 2), (35, 3), (43, 3), (51, 3),
    (59, 3), (67, 4), (83, 4), (99, 4), (115, 4), (131, 5), (163, 5), (195, 5), (227, 5),
    (258, 0)]

/-- The least distance of each distance symbol, and the number of bits that are added to
it. -/
def distanceTable : List (Nat × Nat) :=
  [(1, 0), (2, 0), (3, 0), (4, 0), (5, 1), (7, 1), (9, 2), (13, 2), (17, 3), (25, 3),
    (33, 4), (49, 4), (65, 5), (97, 5), (129, 6), (193, 6), (257, 7), (385, 7), (513, 8),
    (769, 8), (1025, 9), (1537, 9), (2049, 10), (3073, 10), (4097, 11), (6145, 11),
    (8193, 12), (12289, 12), (16385, 13), (24577, 13)]

/-- The number that the symbol at a place of a table stands for. -/
def readTabled (table : List (Nat × Nat)) (place : Nat) : BitReader Nat :=
  match table[place]? with
  | some (least, bits) => do
    let more ← BitReader.number bits
    return least + more
  | none => throw .corrupt

/-- A step of a coded block. -/
inductive Token where
  | literal (b : UInt8)
  /-- Repeats `length` bytes, the first of which lies `distance` bytes back. -/
  | back (length distance : Nat)
  | endOfBlock
  deriving DecidableEq, Repr, Inhabited

/-- The next step of a block with the given codes. -/
def readToken (literals distances : Code) : BitReader Token := do
  let symbol ← literals.read
  if symbol < 256 then
    return .literal (UInt8.ofNat symbol)
  else if symbol = 256 then
    return .endOfBlock
  else
    let length ← readTabled lengthTable (symbol - 257)
    let distance ← readTabled distanceTable (← distances.read)
    return .back length distance

/-- The byte that lies some distance back from the end of the output; in front of the output
there are null bytes. -/
def byteBack (output : ByteArray) (distance : Nat) : UInt8 :=
  if distance ≤ output.size then byteAt output (output.size - distance) else 0

/-- The output with some bytes repeated. -/
def copyBack (output : ByteArray) (distance : Nat) : Nat → ByteArray
  | 0 => output
  | length + 1 => copyBack (output.push (byteBack output distance)) distance length

/-- The rest of a coded block.  A step takes a bit at least, so `fuel` steps are enough when
there are fewer bits. -/
def inflateTokens (setting : Setting) (literals distances : Code) :
    Nat → ByteArray → Bits → Inflated
  | 0, output, s => ⟨output, s, some .incomplete⟩
  | fuel + 1, output, s =>
    if setting.isSated output then
      ⟨output, s, some .incomplete⟩
    else
      match readToken literals distances s with
      | .error flaw => ⟨output, s, some flaw⟩
      | .ok (.endOfBlock, s) => ⟨output, s, none⟩
      | .ok (.literal b, s) =>
        inflateTokens setting literals distances fuel (output.push b) s
      | .ok (.back length distance, s) =>
        if setting.reaches output distance then
          inflateTokens setting literals distances fuel (copyBack output distance length) s
        else
          ⟨output, s, some .corrupt⟩

/-- The number of bytes of a stored block, which is stored twice. -/
def readStoredLength : BitReader Nat := do
  let low ← BitReader.byte
  let high ← BitReader.byte
  let lowCheck ← BitReader.byte
  let highCheck ← BitReader.byte
  if lowCheck = ~~~low ∧ highCheck = ~~~high then
    return low.toNat + 256 * high.toNat
  else
    throw .corrupt

/-- A block that is stored as it is. -/
def inflateStored (output : ByteArray) (s : Bits) : Inflated :=
  match readStoredLength s with
  | .error flaw => ⟨output, s, some flaw⟩
  | .ok (length, s) =>
    let start := s.nextByte
    let stop := min (start + length) s.bytes.size
    { output := output ++ s.bytes.extract start stop
      rest := s.fromByte stop
      flaw := if stop = start + length then none else some .incomplete }

/-- The start of a block: whether it is the last one, and how it is coded. -/
def readBlockStart : BitReader (Bool × Nat) := do
  let last ← BitReader.bit
  let method ← BitReader.number 2
  return (last, method)

/-- A block that is coded with the codes that are read or supplied in front of it. -/
def inflateCoded (setting : Setting) (codes : BitReader (Code × Code)) (output : ByteArray)
    (s : Bits) : Inflated :=
  match codes s with
  | .error flaw => ⟨output, s, some flaw⟩
  | .ok ((literals, distances), s) =>
    inflateTokens setting literals distances (s.count + 1) output s

/-- The fixed codes. -/
def fixedCodes : BitReader (Code × Code) :=
  return (fixedLiterals, fixedDistances)

/-- A block that is coded by the given method. -/
def inflateBlock (setting : Setting) (method : Nat) (output : ByteArray) (s : Bits) :
    Inflated :=
  match method with
  | 0 => inflateStored output s
  | 1 => inflateCoded setting fixedCodes output s
  | 2 => inflateCoded setting readCodes output s
  | _ => ⟨output, s, some .corrupt⟩

/-- The blocks of a stream up to the last one.  A block takes three bits at least, so `fuel`
blocks are enough when there are fewer bits. -/
def inflateBlocks (setting : Setting) : Nat → ByteArray → Bits → Inflated
  | 0, output, s => ⟨output, s, some .incomplete⟩
  | fuel + 1, output, s =>
    if setting.isSated output then
      ⟨output, s, some .incomplete⟩
    else
      match readBlockStart s with
      | .error flaw => ⟨output, s, some flaw⟩
      | .ok ((last, method), s) =>
        match inflateBlock setting method output s with
        | ⟨output, s, some flaw⟩ => ⟨output, s, some flaw⟩
        | ⟨output, s, none⟩ =>
          if last then ⟨output, s, none⟩ else inflateBlocks setting fuel output s

end CompactTypes.Deflate

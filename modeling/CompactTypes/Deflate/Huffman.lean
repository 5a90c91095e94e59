import CompactTypes.Deflate.Bits

/-!
# Canonical prefix codes

A `Code` assigns bit strings to symbols.  It is determined by the lengths of these strings:
shorter ones come first, and strings of one length are assigned to the symbols in ascending
order.  A code that leaves bit strings unused is trivial, or it is refused.
-/

namespace CompactTypes.Deflate

/-- A canonical code.  `counts` are the numbers of bit strings of each length from one up to
the greatest, and `symbols` are the symbols in the order of their bit strings. -/
structure Code where
  counts : List Nat
  symbols : Array Nat
  deriving Repr, Inhabited

namespace Code

/-- The number of bit strings of the greatest length of a code with the given counts. -/
def wholeSpace (counts : List Nat) : Nat :=
  counts.foldl (fun whole _ => 2 * whole) 1

/-- The number of these bit strings that start with a string of the code: each further length
doubles those of the shorter ones. -/
def usedSpace (counts : List Nat) : Nat :=
  counts.foldl (fun used count => 2 * used + count) 0

/-- Whether every long enough bit string starts with exactly one string of the code. -/
def isComplete (code : Code) : Bool :=
  usedSpace code.counts = wholeSpace code.counts

/-- Whether a code leaves bit strings unused, but is as simple as can be: it has one string of
length one, or none at all. -/
def isTrivial (code : Code) : Bool :=
  code.counts = [1] || code.counts = [0]

/-- The code whose bit strings have the given lengths; the length zero leaves a symbol out. -/
def ofLengths (lengths : List Nat) : Code :=
  let used := lengths.zipIdx.filter fun entry => entry.1 ≠ 0
  let sizes := (List.range (used.foldl (fun most entry => max most entry.1) 1)).map (· + 1)
  let sorted := used.mergeSort fun entry entry' => entry.1 ≤ entry'.1
  { counts := sizes.map fun size => used.countP fun entry => entry.1 = size
    symbols := (sorted.map Prod.snd).toArray }

/-- Goes on reading a symbol: `word` is the bit string read so far, followed by a zero,
`first` the first bit string of the next length, and `place` the number of shorter ones. -/
def readFrom (symbols : Array Nat) (word first place : Nat) : List Nat → BitReader Nat
  | [] => throw .corrupt
  | count :: counts => do
    let b ← BitReader.bit
    let word := word + b.toNat
    if word < first + count then return symbols.getD (place + (word - first)) 0
    else readFrom symbols (2 * word) (2 * (first + count)) (place + count) counts

/-- The symbol whose bit string comes next. -/
def read (code : Code) : BitReader Nat :=
  readFrom code.symbols 0 0 0 code.counts

end Code

/-- A code of literals, lengths or distances, which is complete or trivial. -/
def dataCode (lengths : List Nat) : BitReader Code :=
  let code := Code.ofLengths lengths
  if code.isComplete || code.isTrivial then return code else throw .corrupt

/-- The code of the lengths of other codes, which is complete. -/
def lengthCode (lengths : List Nat) : BitReader Code :=
  let code := Code.ofLengths lengths
  if code.isComplete then return code else throw .corrupt

/-- The fixed code for literals and lengths. -/
def fixedLiterals : Code :=
  .ofLengths (List.replicate 144 8 ++ List.replicate 112 9 ++ List.replicate 24 7
    ++ List.replicate 8 8)

/-- The fixed code for distances. -/
def fixedDistances : Code :=
  .ofLengths (List.replicate 32 5)

/-- The order in which the lengths of the code for lengths are stored. -/
def lengthOrder : List Nat :=
  [16, 17, 18, 0, 8, 7, 9, 6, 10, 5, 11, 4, 12, 3, 13, 2, 14, 1, 15]

/-- The lengths of the code for lengths, in the order of its symbols. -/
def inSymbolOrder (stored : List Nat) : List Nat :=
  (List.range 19).map fun symbol =>
    ((lengthOrder.zip stored).lookup symbol).getD 0

/-- The next run of lengths: how many there are, and which one is repeated.  `known` are the
lengths read so far, the last one first. -/
def readRun (code : Code) (known : List Nat) : BitReader (Nat × Nat) := do
  let symbol ← code.read
  if symbol < 16 then
    return (1, symbol)
  else if symbol = 16 then
    match known with
    | [] => throw .corrupt
    | last :: _ =>
      let more ← BitReader.number 2
      return (3 + more, last)
  else if symbol = 17 then
    let more ← BitReader.number 3
    return (3 + more, 0)
  else
    let more ← BitReader.number 7
    return (11 + more, 0)

/-- Reads the `missing` lengths after the ones read so far, `known`, the last of which comes
first.  A run may not go beyond them.  It has one length at least, so `fuel` runs are enough
when fewer lengths are missing. -/
def readLengths (code : Code) : Nat → Nat → List Nat → BitReader (List Nat)
  | 0, _, _ => throw .corrupt
  | fuel + 1, missing, known => do
    if missing = 0 then
      return known.reverse
    else
      let (count, length) ← readRun code known
      if missing < count then throw .corrupt
      else readLengths code fuel (missing - count) (List.replicate count length ++ known)

/-- The numbers stored in `n` groups of three bits. -/
def readTriples : Nat → BitReader (List Nat)
  | 0 => return []
  | n + 1 => do
    let first ← BitReader.number 3
    let others ← readTriples n
    return first :: others

/-- The codes that a block describes: one for literals and lengths, one for distances. -/
def readCodes : BitReader (Code × Code) := do
  let literalCount := 257 + (← BitReader.number 5)
  let distanceCount := 1 + (← BitReader.number 5)
  let storedCount := 4 + (← BitReader.number 4)
  if 286 < literalCount ∨ 30 < distanceCount then
    throw .corrupt
  else
    let stored ← readTriples storedCount
    let code ← lengthCode (inSymbolOrder stored)
    let total := literalCount + distanceCount
    let lengths ← readLengths code (total + 1) total []
    let literals ← dataCode (lengths.take literalCount)
    let distances ← dataCode (lengths.drop literalCount)
    return (literals, distances)

end CompactTypes.Deflate

import CompactTypes.Bytes.Excerpt

/-!
# UTF-8

`utf8Bytes` is the encoding of a text.  `decodeLossy` decodes any bytes at all: each longest
run of bytes that starts a character without finishing it, and each byte that cannot start
one, stands for the replacement character.
-/

namespace CompactTypes

/-- The bytes of a text. -/
def utf8Bytes (s : String) : List UInt8 :=
  byteList s.toUTF8

namespace Utf8

/-- Where a decoder stands between two bytes. -/
inductive State where
  /-- Between two characters. -/
  | between
  /-- Inside a character: `more` bytes are missing, the next of them is from `low` to
  `high`, and the bits read so far are `bits`. -/
  | inside (bits : Nat) (more : Nat) (low high : UInt8)
  deriving DecidableEq, Repr, Inhabited

/-- The character that stands for bytes that encode none. -/
def replacement : Char :=
  '\uFFFD'

/-- The characters that end with a byte read between two characters, and the state after
it. -/
def start (b : UInt8) : List Char × State :=
  if b < 0x80 then ([Char.ofNat b.toNat], .between)
  else if b < 0xC2 then ([replacement], .between)
  else if b < 0xE0 then ([], .inside (b.toNat % 32) 1 0x80 0xBF)
  else if b = 0xE0 then ([], .inside 0 2 0xA0 0xBF)
  else if b = 0xED then ([], .inside 13 2 0x80 0x9F)
  else if b < 0xF0 then ([], .inside (b.toNat % 16) 2 0x80 0xBF)
  else if b = 0xF0 then ([], .inside 0 3 0x90 0xBF)
  else if b < 0xF4 then ([], .inside (b.toNat % 8) 3 0x80 0xBF)
  else if b = 0xF4 then ([], .inside 4 3 0x80 0x8F)
  else ([replacement], .between)

/-- The characters that end with a byte, and the state after it. -/
def step : State → UInt8 → List Char × State
  | .between, b => start b
  | .inside bits more low high, b =>
    if low ≤ b ∧ b ≤ high then
      let bits := bits * 64 + b.toNat % 64
      if more ≤ 1 then ([Char.ofNat bits], .between)
      else ([], .inside bits (more - 1) 0x80 0xBF)
    else
      let (characters, state) := start b
      (replacement :: characters, state)

/-- The characters of the bytes that follow a state. -/
def decodeFrom : State → List UInt8 → List Char
  | .between, [] => []
  | .inside .., [] => [replacement]
  | state, b :: bytes =>
    let (characters, state) := step state b
    characters ++ decodeFrom state bytes

end Utf8

/-- The text that bytes stand for. -/
def decodeLossy (bytes : ByteArray) : String :=
  match String.fromUTF8? bytes with
  | some text => text
  | none => String.ofList (Utf8.decodeFrom .between (byteList bytes))

end CompactTypes

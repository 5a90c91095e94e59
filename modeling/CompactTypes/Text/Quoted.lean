import CompactTypes.Text.Printable

/-!
# Quoted text

The hexadecimal digits of a number, and the quoted form of a name: `quoted s` stands
between double quotes, with an escape for each quote, backslash and character that is not
printable.
-/

namespace CompactTypes

/-- The digits of a number in base sixteen, in lower case. -/
def hexDigits (n : Nat) : String :=
  String.ofList (Nat.toDigits 16 n)

/-- A number in base sixteen, after its marker. -/
def hexLiteral (n : Nat) : String :=
  "0x" ++ hexDigits n

/-- The form of a character between double quotes. -/
def quotedChar (c : Char) : String :=
  match c with
  | '\x00' => "\\0"
  | '\t' => "\\t"
  | '\r' => "\\r"
  | '\n' => "\\n"
  | '\\' => "\\\\"
  | '"' => "\\\""
  | c =>
    if printable c then String.singleton c
    else "\\u\x7b" ++ hexDigits c.toNat ++ "\x7d"

/-- A text between double quotes. -/
def quoted (s : String) : String :=
  "\"" ++ String.join (s.toList.map quotedChar) ++ "\""

/-- A name that may be missing. -/
def quotedOption : Option String → String
  | none => "None"
  | some s => "Some(" ++ quoted s ++ ")"

end CompactTypes

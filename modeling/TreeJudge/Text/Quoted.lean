import TreeJudge.Text.Glyph

/-!
# Quoted text

A text in a message stands between double quotes. The quote and the backslash
are escaped, the common controls have letters, and every other character that
would not be seen is given by its code point.
-/

set_option autoImplicit false

namespace TreeJudge.Text

def hexDigits (n : Nat) : List Char := Nat.toDigits 16 n

def quoteChar (c : Char) : List Char :=
  match c with
  | '"' => ['\\', '"']
  | '\\' => ['\\', '\\']
  | '\n' => ['\\', 'n']
  | '\r' => ['\\', 'r']
  | '\t' => ['\\', 't']
  | '\x00' => ['\\', '0']
  | c => if hasGlyph c then [c] else ['\\', 'u', '{'] ++ hexDigits c.toNat ++ ['}']

def quoted (s : String) : String :=
  String.ofList ('"' :: s.toList.flatMap quoteChar ++ ['"'])

end TreeJudge.Text

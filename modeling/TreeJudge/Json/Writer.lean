import TreeJudge.Json.Basic

/-!
# Compact JSON text

No blanks; strings escape the quote, the backslash and the controls below the
space, five of which have letters.
-/

set_option autoImplicit false

namespace TreeJudge.Json

def hexDigit (n : Nat) : Char := Nat.digitChar n

def escapeChar (c : Char) : List Char :=
  match c with
  | '"' => ['\\', '"']
  | '\\' => ['\\', '\\']
  | '\x08' => ['\\', 'b']
  | '\x0c' => ['\\', 'f']
  | '\n' => ['\\', 'n']
  | '\r' => ['\\', 'r']
  | '\t' => ['\\', 't']
  | c =>
    if c.toNat < 0x20 then
      ['\\', 'u', '0', '0', hexDigit (c.toNat / 16), hexDigit (c.toNat % 16)]
    else [c]

def writeString (s : String) : List Char :=
  '"' :: s.toList.flatMap escapeChar ++ ['"']

def writeInt : Int → List Char
  | .ofNat n => Nat.toDigits 10 n
  | .negSucc n => '-' :: Nat.toDigits 10 (n + 1)

mutual

def write : Json → List Char
  | .null => ['n', 'u', 'l', 'l']
  | .bool true => ['t', 'r', 'u', 'e']
  | .bool false => ['f', 'a', 'l', 's', 'e']
  | .int n => writeInt n
  | .float x => numberLayout.writeFloat x
  | .str s => writeString s
  | .arr [] => ['[', ']']
  | .arr (v :: vs) => '[' :: (write v ++ writeItems vs ++ [']'])
  | .obj [] => ['{', '}']
  | .obj ((k, v) :: ms) => '{' :: (writeString k ++ ':' :: write v ++ writeMembers ms ++ ['}'])

def writeItems : List Json → List Char
  | [] => []
  | v :: vs => ',' :: (write v ++ writeItems vs)

def writeMembers : List (String × Json) → List Char
  | [] => []
  | (k, v) :: ms => ',' :: (writeString k ++ ':' :: write v ++ writeMembers ms)

end

def compact (v : Json) : String := String.ofList (write v)

end TreeJudge.Json

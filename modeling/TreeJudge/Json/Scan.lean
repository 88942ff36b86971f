import TreeJudge.Json.Problem

/-!
# Words and strings of JSON text

The parts of the grammar without nesting, but for numbers. Every reader
answers the value and the characters after it.
-/

set_option autoImplicit false

namespace TreeJudge.Json

def isSpace (c : Char) : Bool := c == ' ' || c == '\n' || c == '\t' || c == '\r'

def skipSpace (cs : List Char) : List Char := cs.dropWhile isSpace

def word : List Char → List Char → Reads (List Char)
  | [], cs => .ok cs
  | _ :: _, [] => .error (.here .endInValue [])
  | w :: ws, c :: cs => if c = w then word ws cs else .error (.next .expectedWord (c :: cs))

def hexValue? (c : Char) : Option Nat :=
  if '0' ≤ c ∧ c ≤ '9' then some (c.toNat - '0'.toNat)
  else if 'a' ≤ c ∧ c ≤ 'f' then some (c.toNat - 'a'.toNat + 10)
  else if 'A' ≤ c ∧ c ≤ 'F' then some (c.toNat - 'A'.toNat + 10)
  else none

/-- Four hexadecimal digits. Four bytes are taken before they are looked at. -/
def hexQuad (cs : List Char) : Reads (Nat × List Char) :=
  if bytes (cs.take 4) < 4 then .error (.located .endInString 0)
  else
    match cs with
    | a :: b :: c :: d :: rest =>
      match hexValue? a, hexValue? b, hexValue? c, hexValue? d with
      | some a, some b, some c, some d => .ok (((a * 16 + b) * 16 + c) * 16 + d, rest)
      | _, _, _, _ => .error (.located .invalidEscape (bytes cs - 4))
    | _ => .error (.located .invalidEscape (bytes cs - 4))

def pairChar (wanted : Char) : List Char → Reads (List Char)
  | [] => .error (.here .endInString [])
  | c :: cs => if c = wanted then .ok cs else .error (.next .halfSurrogatePair (c :: cs))

def codePoint (cs : List Char) : Reads (Char × List Char) := do
  let (high, cs) ← hexQuad cs
  if 0xDC00 ≤ high ∧ high ≤ 0xDFFF then .error (.here .loneSurrogate cs)
  else if high < 0xD800 ∨ 0xDBFF < high then .ok (Char.ofNat high, cs)
  else do
    let cs ← pairChar '\\' cs
    let cs ← pairChar 'u' cs
    let (low, cs) ← hexQuad cs
    if low < 0xDC00 ∨ 0xDFFF < low then .error (.here .loneSurrogate cs)
    else .ok (Char.ofNat (0x10000 + (high - 0xD800) * 0x400 + (low - 0xDC00)), cs)

def letterEscape? : Char → Option Char
  | '"' => some '"'
  | '\\' => some '\\'
  | '/' => some '/'
  | 'b' => some '\x08'
  | 'f' => some '\x0c'
  | 'n' => some '\n'
  | 'r' => some '\r'
  | 't' => some '\t'
  | _ => none

def escape : Reader Char
  | [] => .error (.here .endInString [])
  | 'u' :: cs => codePoint cs
  | c :: cs =>
    match letterEscape? c with
    | some e => .ok (e, cs)
    | none => .error (.next .invalidEscape (c :: cs))

/-- The characters of a string up to its closing quote, which is read too. The
first text is a clock: at least one character is read each time it ticks, so
when it is the text itself it only stops where that ends. -/
def stringBody : List Char → Reader (List Char)
  | [], _ => .error (.here .endInString [])
  | _ :: _, [] => .error (.here .endInString [])
  | _ :: _, '"' :: cs => .ok ([], cs)
  | _ :: clock, '\\' :: cs => do
    let (c, cs) ← escape cs
    let (s, cs) ← stringBody clock cs
    .ok (c :: s, cs)
  | _ :: clock, c :: cs =>
    if c.toNat < 0x20 then .error (.next .controlInString (c :: cs))
    else do
      let (s, cs) ← stringBody clock cs
      .ok (c :: s, cs)

def string (cs : List Char) : Reads (String × List Char) := do
  let (s, cs) ← stringBody cs cs
  .ok (String.ofList s, cs)

end TreeJudge.Json

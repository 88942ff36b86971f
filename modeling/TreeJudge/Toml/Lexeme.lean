import TreeJudge.Toml.Basic

/-!
# Words of TOML text

Blanks, comments, keys and the four kinds of strings. A scanner answers what it
found and the rest of the text, or nothing.
-/

set_option autoImplicit false

namespace TreeJudge.Toml

abbrev Scanner (α : Type) := List Char → Option (α × List Char)

def isBlank (c : Char) : Bool := c == ' ' || c == '\t'

def skipBlanks (cs : List Char) : List Char := cs.dropWhile isBlank

def isVisible (c : Char) : Bool :=
  c == '\t' || (0x20 ≤ c.toNat && c.toNat ≤ 0x7E) || 0x80 ≤ c.toNat

def newline? : List Char → Option (List Char)
  | '\n' :: r => some r
  | '\r' :: '\n' :: r => some r
  | _ => none

def skipComment (cs : List Char) : List Char :=
  match cs with
  | '#' :: r => r.dropWhile isVisible
  | r => r

def lineEnd? (cs : List Char) : Option (List Char) :=
  match skipComment (skipBlanks cs) with
  | [] => some []
  | r => newline? r

def skipLines : Nat → List Char → Option (List Char)
  | 0, cs => some cs
  | n + 1, cs =>
    match skipBlanks cs with
    | '#' :: r => do
      let r ← newline? (r.dropWhile isVisible)
      skipLines n r
    | '\n' :: r => skipLines n r
    | '\r' :: r => do
      let r ← newline? ('\r' :: r)
      skipLines n r
    | r => some r

def hexValue? (c : Char) : Option Nat :=
  if '0' ≤ c ∧ c ≤ '9' then some (c.toNat - '0'.toNat)
  else if 'a' ≤ c ∧ c ≤ 'f' then some (c.toNat - 'a'.toNat + 10)
  else if 'A' ≤ c ∧ c ≤ 'F' then some (c.toNat - 'A'.toNat + 10)
  else none

def hexNumber : Nat → Nat → Scanner Nat
  | 0, acc, cs => some (acc, cs)
  | n + 1, acc, c :: cs => do
    let d ← hexValue? c
    hexNumber n (acc * 16 + d) cs
  | _ + 1, _, [] => none

def scalarValue? (n : Nat) : Option Char :=
  if n < 0xD800 ∨ (0xDFFF < n ∧ n < 0x110000) then some (Char.ofNat n) else none

def codePoint (digits : Nat) (cs : List Char) : Option (Char × List Char) := do
  let (n, cs) ← hexNumber digits 0 cs
  let c ← scalarValue? n
  some (c, cs)

def escape : Scanner Char
  | 'b' :: r => some ('\x08', r)
  | 't' :: r => some ('\t', r)
  | 'n' :: r => some ('\n', r)
  | 'f' :: r => some ('\x0c', r)
  | 'r' :: r => some ('\r', r)
  | '"' :: r => some ('"', r)
  | '\\' :: r => some ('\\', r)
  | 'u' :: r => codePoint 4 r
  | 'U' :: r => codePoint 8 r
  | _ => none

/-- A string on one line, behind its opening quote. The first argument bounds
the number of characters. -/
def basicBody : Nat → Scanner (List Char)
  | 0, _ => none
  | _ + 1, [] => none
  | _ + 1, '"' :: r => some ([], r)
  | n + 1, '\\' :: r => do
    let (c, r) ← escape r
    let (s, r) ← basicBody n r
    some (c :: s, r)
  | n + 1, c :: r =>
    if isVisible c then do
      let (s, r) ← basicBody n r
      some (c :: s, r)
    else none

def literalBody : Scanner (List Char)
  | [] => none
  | '\'' :: r => some ([], r)
  | c :: r =>
    if isVisible c then do
      let (s, r) ← literalBody r
      some (c :: s, r)
    else none

/-- A run of quotes inside a text on several lines. From three on it ends the
text, and up to two more belong to the text. -/
def quoteRun (quote : Char) (cs : List Char) : Nat × Bool × List Char :=
  let run := (cs.takeWhile (· == quote)).length
  if run < 3 then (run, false, cs.drop run)
  else
    let inside := min 2 (run - 3)
    (inside, true, cs.drop (inside + 3))

def isGap (c : Char) : Bool := isBlank c || c == '\n'

def skipGap : Nat → List Char → List Char
  | 0, cs => cs
  | n + 1, cs =>
    match cs.dropWhile isGap with
    | '\r' :: '\n' :: r => skipGap n r
    | r => r

/-- A text on several lines, behind its opening quotes. An escaped line end is
left out with all blanks and line ends behind it. -/
def basicLines : Nat → Scanner (List Char)
  | 0, _ => none
  | _ + 1, [] => none
  | n + 1, '"' :: r =>
    match quoteRun '"' ('"' :: r) with
    | (inside, true, r) => some (List.replicate inside '"', r)
    | (inside, false, r) => do
      let (s, r) ← basicLines n r
      some (List.replicate inside '"' ++ s, r)
  | n + 1, '\\' :: r =>
    match newline? (skipBlanks r) with
    | some r => basicLines n (skipGap n r)
    | none => do
      let (c, r) ← escape r
      let (s, r) ← basicLines n r
      some (c :: s, r)
  | n + 1, c :: r => do
    match newline? (c :: r) with
    | some r =>
      let (s, r) ← basicLines n r
      some ('\n' :: s, r)
    | none =>
      if isVisible c then
        let (s, r) ← basicLines n r
        some (c :: s, r)
      else none

def literalLines : Nat → Scanner (List Char)
  | 0, _ => none
  | _ + 1, [] => none
  | n + 1, '\'' :: r =>
    match quoteRun '\'' ('\'' :: r) with
    | (inside, true, r) => some (List.replicate inside '\'', r)
    | (inside, false, r) => do
      let (s, r) ← literalLines n r
      some (List.replicate inside '\'' ++ s, r)
  | n + 1, c :: r => do
    match newline? (c :: r) with
    | some r =>
      let (s, r) ← literalLines n r
      some ('\n' :: s, r)
    | none =>
      if isVisible c then
        let (s, r) ← literalLines n r
        some (c :: s, r)
      else none

def dropNewline (cs : List Char) : List Char := (newline? cs).getD cs

def string : Scanner String
  | '"' :: '"' :: '"' :: r =>
    (fun p => (String.ofList p.1, p.2)) <$> basicLines (r.length + 1) (dropNewline r)
  | '\'' :: '\'' :: '\'' :: r =>
    (fun p => (String.ofList p.1, p.2)) <$> literalLines (r.length + 1) (dropNewline r)
  | '"' :: r => (fun p => (String.ofList p.1, p.2)) <$> basicBody (r.length + 1) r
  | '\'' :: r => (fun p => (String.ofList p.1, p.2)) <$> literalBody r
  | _ => none

def isBare (c : Char) : Bool :=
  ('a' ≤ c && c ≤ 'z') || ('A' ≤ c && c ≤ 'Z') || ('0' ≤ c && c ≤ '9') || c == '-' || c == '_'

def keyName : Scanner String
  | '"' :: r => (fun p => (String.ofList p.1, p.2)) <$> basicBody (r.length + 1) r
  | '\'' :: r => (fun p => (String.ofList p.1, p.2)) <$> literalBody r
  | cs =>
    match cs.takeWhile isBare with
    | [] => none
    | name => some (String.ofList name, cs.dropWhile isBare)

def dottedKey : Nat → Scanner (List Key)
  | 0, _ => none
  | n + 1, cs => do
    let cs := skipBlanks cs
    let (name, r) ← keyName cs
    let key : Key := ⟨name, ⟨cs.length, r.length⟩⟩
    match skipBlanks r with
    | '.' :: r =>
      let (keys, r) ← dottedKey n r
      some (key :: keys, r)
    | r => some ([key], r)

def key : Scanner (List Key) := dottedKey 79

end TreeJudge.Toml

import TreeJudge.Decimal.Nearest
import TreeJudge.Toml.Basic
import TreeJudge.Toml.Lexeme

/-!
# Numbers and dates of TOML text

Underscores may stand between digits. Integers have 64 bits with sign; a float
is the binary64 value nearest to its decimal, and a positive one must not be too
large. Of dates and times only the form and the ranges matter.
-/

set_option autoImplicit false

namespace TreeJudge.Toml

def isDigit (c : Char) : Bool := '0' ≤ c && c ≤ '9'

def digitValue (c : Char) : Nat := (hexValue? c).getD 0

/-- Digits behind a first one, each of which one underscore may precede. -/
def digitTail (digit : Char → Bool) : List Char → List Char × List Char
  | '_' :: c :: r =>
    if digit c then
      let (ds, r) := digitTail digit r
      (c :: ds, r)
    else ([], '_' :: c :: r)
  | c :: r =>
    if digit c then
      let (ds, r) := digitTail digit r
      (c :: ds, r)
    else ([], c :: r)
  | [] => ([], [])

def digits (digit : Char → Bool) : Scanner (List Char)
  | c :: r =>
    if digit c then
      let (ds, r) := digitTail digit r
      some (c :: ds, r)
    else none
  | [] => none

def wholeDigits : Scanner (List Char)
  | '0' :: r => some (['0'], r)
  | cs => digits isDigit cs

def sign : List Char → Bool × List Char
  | '-' :: r => (true, r)
  | '+' :: r => (false, r)
  | r => (false, r)

def valueOf (base : Nat) (ds : List Char) : Nat :=
  ds.foldl (fun acc d => acc * base + digitValue d) 0

def inRange (n : Int) : Bool := Int64.minValue.toInt ≤ n && n ≤ Int64.maxValue.toInt

def based (base : Nat) (digit : Char → Bool) (cs : List Char) :
    Option (Scalar × List Char) := do
  let (ds, r) ← digits digit cs
  let n : Int := valueOf base ds
  if inRange n then some (.integer n, r) else none

def integer : Scanner Scalar
  | '0' :: 'x' :: r => based 16 (fun c => (hexValue? c).isSome) r
  | '0' :: 'o' :: r => based 8 (fun c => '0' ≤ c && c ≤ '7') r
  | '0' :: 'b' :: r => based 2 (fun c => c == '0' || c == '1') r
  | cs => do
    let (negative, r) := sign cs
    let (ds, r) ← wholeDigits r
    let n : Int := if negative then -(valueOf 10 ds : Int) else valueOf 10 ds
    if inRange n then some (.integer n, r) else none

def fraction : Scanner (List Char)
  | '.' :: r => digits isDigit r
  | r => some ([], r)

def power : Scanner Int
  | 'e' :: r | 'E' :: r => do
    let (negative, r) := sign r
    let (ds, r) ← digits isDigit r
    some (if negative then -(valueOf 10 ds : Int) else valueOf 10 ds, r)
  | r => some (0, r)

def word (w : List Char) (cs : List Char) : Option (List Char) := w.isPrefixOf? cs

def special (cs : List Char) : Option (Scalar × List Char) :=
  let (negative, r) := sign cs
  match word ['i', 'n', 'f'] r, word ['n', 'a', 'n'] r with
  | some r, _ =>
    some (.float (if negative then -infinity else infinity), r)
  | none, some r => some (.float (0.0 / 0.0), r)
  | none, none => none

def float (cs : List Char) : Option (Scalar × List Char) := do
  let (negative, r) := sign cs
  let (whole, r) ← wholeDigits r
  match r with
  | '.' :: _ | 'e' :: _ | 'E' :: _ =>
    let (part, r) ← fraction r
    let (shift, r) ← power r
    let x := floatOfDecimal (valueOf 10 (whole ++ part)) (shift - part.length)
    if negative then some (.float (-x), r)
    else if x.isInf then none
    else some (.float x, r)
  | _ => none

def field (count low high : Nat) (cs : List Char) : Option (Nat × List Char) :=
  let ds := cs.take count
  let n := valueOf 10 ds
  if ds.length = count ∧ ds.all isDigit ∧ low ≤ n ∧ n ≤ high then some (n, cs.drop count)
  else none

def char (c : Char) : List Char → Option (List Char)
  | d :: r => if d = c then some r else none
  | [] => none

def daysIn (year month : Nat) : Nat :=
  let leap := year % 4 = 0 ∧ (year % 100 ≠ 0 ∨ year % 400 = 0)
  if month = 2 then if leap then 29 else 28
  else if month = 4 ∨ month = 6 ∨ month = 9 ∨ month = 11 then 30
  else 31

def date (cs : List Char) : Option (List Char) := do
  let (year, r) ← field 4 0 9999 cs
  let r ← char '-' r
  let (month, r) ← field 2 1 12 r
  let r ← char '-' r
  let (_, r) ← field 2 1 (daysIn year month) r
  some r

def time (cs : List Char) : Option (List Char) := do
  let (_, r) ← field 2 0 23 cs
  let r ← char ':' r
  let (_, r) ← field 2 0 59 r
  let r ← char ':' r
  let (_, r) ← field 2 0 60 r
  match r with
  | '.' :: c :: r => if isDigit c then some (r.dropWhile isDigit) else some ('.' :: c :: r)
  | r => some r

def zone (cs : List Char) : Option (List Char) :=
  match cs with
  | 'Z' :: r | 'z' :: r => some r
  | '+' :: r | '-' :: r => do
    let (_, r) ← field 2 0 23 r
    let r ← char ':' r
    let (_, r) ← field 2 0 59 r
    some r
  | r => some r

def timeAfter (cs : List Char) : Option (List Char) :=
  match cs with
  | 'T' :: r | 't' :: r | ' ' :: r => (time r).bind zone
  | _ => none

def dateTime (cs : List Char) : Option (Scalar × List Char) :=
  match date cs with
  | some r => some (.date, (timeAfter r).getD r)
  | none => (Scalar.date, ·) <$> time cs

def number (cs : List Char) : Option (Scalar × List Char) :=
  dateTime cs <|> float cs <|> special cs <|> integer cs

end TreeJudge.Toml

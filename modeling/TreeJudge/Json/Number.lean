import TreeJudge.Decimal.Nearest
import TreeJudge.Json.Basic
import TreeJudge.Json.Problem

/-!
# Numbers of JSON text

Digits are collected into a 64-bit significand; those that no longer fit only
move the decimal point. A number without fraction and exponent that fits in 64
bits, with its sign, is an integer. Any other is the significand as a binary64
value, times or divided by a power of ten.
-/

set_option autoImplicit false

namespace TreeJudge.Json

def largestSignificand : Nat := UInt64.size - 1

def largestExponent : Nat := 2147483647

def isDigit (c : Char) : Bool := '0' ≤ c && c ≤ '9'

def digitValue (c : Char) : Nat := c.toNat - '0'.toNat

/-- Takes digits while the value stays within the limit; answers the value and
the digits that were not taken. -/
def collect (limit : Nat) : Nat → List Char → Nat × List Char
  | acc, [] => (acc, [])
  | acc, d :: ds =>
    if limit < acc * 10 + digitValue d then (acc, d :: ds)
    else collect limit (acc * 10 + digitValue d) ds

def powerOfTen (e : Nat) : Float := nearestFloat (Nat.pow 10 e) 1

/-- Division by a power of ten in steps of at most 308 places. Any 64-bit
significand vanishes within three steps. -/
def shrink : Nat → Float → Nat → Float
  | 0, x, _ => x
  | rounds + 1, x, e =>
    if e ≤ 308 then x / powerOfTen e
    else if x == 0.0 then x
    else shrink rounds (x / powerOfTen 308) (e - 308)

def scaled (significand : Nat) (exponent : Int) : Option Float :=
  let x := significand.toUInt64.toFloat
  if exponent < 0 then some (shrink 4 x exponent.natAbs)
  else if 308 < exponent then if significand = 0 then some x else none
  else
    let y := x * powerOfTen exponent.toNat
    if y.isInf then none else some y

def signed (negative : Bool) (x : Float) : Float := if negative then -x else x

def floating (negative : Bool) (significand : Nat) (exponent : Int) (rest : List Char) :
    Reads (Json × List Char) :=
  match scaled significand exponent with
  | some x => .ok (.float (signed negative x), rest)
  | none => .error (.here .numberOutOfRange rest)

def whole (negative : Bool) (significand : Nat) : Json :=
  if negative then
    if significand = 0 ∨ Nat.pow 2 63 < significand then
      .float (-significand.toUInt64.toFloat)
    else .int (-significand)
  else .int significand

def exponentPart (negative : Bool) (significand : Nat) (shift : Int) (cs : List Char) :
    Reads (Json × List Char) :=
  let (down, cs) := match cs with
    | '+' :: r => (false, r)
    | '-' :: r => (true, r)
    | r => (false, r)
  match cs with
  | [] => .error (.here .endInValue [])
  | c :: _ =>
    if isDigit c then
      let ds := cs.takeWhile isDigit
      let rest := cs.dropWhile isDigit
      match collect largestExponent 0 ds with
      | (e, []) => floating negative significand (if down then shift - e else shift + e) rest
      | (_, _ :: more) =>
        if significand ≠ 0 ∧ !down then .error (.here .numberOutOfRange (more ++ rest))
        else .ok (.float (signed negative 0.0), rest)
    else .error (.next .invalidNumber cs)

def fractionPart (negative : Bool) (significand : Nat) (shift : Int) (cs : List Char) :
    Reads (Json × List Char) :=
  let ds := cs.takeWhile isDigit
  let rest := cs.dropWhile isDigit
  match ds, rest with
  | [], [] => .error (.next .endInValue [])
  | [], _ :: _ => .error (.next .invalidNumber rest)
  | _, _ =>
    let (significand, unused) := collect largestSignificand significand ds
    let shift := shift - (ds.length - unused.length : Nat)
    match rest with
    | c :: r =>
      if c = 'e' ∨ c = 'E' then exponentPart negative significand shift r
      else floating negative significand shift rest
    | [] => floating negative significand shift rest

def afterWhole (negative : Bool) (significand : Nat) (unused : Nat) (cs : List Char) :
    Reads (Json × List Char) :=
  match cs with
  | '.' :: r => fractionPart negative significand unused r
  | 'e' :: r | 'E' :: r => exponentPart negative significand unused r
  | r =>
    if unused = 0 then .ok (whole negative significand, r)
    else floating negative significand unused r

def number (negative : Bool) (cs : List Char) : Reads (Json × List Char) :=
  match cs with
  | [] => .error (.here .endInValue [])
  | '0' :: r =>
    match r with
    | c :: _ => if isDigit c then .error (.next .invalidNumber r) else afterWhole negative 0 0 r
    | [] => afterWhole negative 0 0 r
  | c :: _ =>
    if isDigit c then
      let (significand, unused) := collect largestSignificand 0 (cs.takeWhile isDigit)
      afterWhole negative significand unused.length (cs.dropWhile isDigit)
    else .error (.next .invalidNumber cs)

end TreeJudge.Json

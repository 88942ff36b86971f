import TreeJudge.Decimal.Shortest

/-!
# Written decimals

A decimal is written positionally, always with a fraction, or with one digit
before the point and an exponent that carries its sign.
-/

set_option autoImplicit false

namespace TreeJudge

namespace Decimal

def digits (d : Decimal) : List Char := Nat.toDigits 10 d.coefficient

def zeros (n : Nat) : List Char := List.replicate n '0'

def magnitude (d : Decimal) : Int := d.exponent + d.digits.length - 1

def positional (d : Decimal) : List Char :=
  if 0 ≤ d.exponent then d.digits ++ zeros d.exponent.toNat ++ ['.', '0']
  else
    let places := (-d.exponent).toNat
    let whole := d.digits.length - places
    if whole = 0 then ['0', '.'] ++ zeros (places - d.digits.length) ++ d.digits
    else d.digits.take whole ++ ['.'] ++ d.digits.drop whole

def scientific (d : Decimal) : List Char :=
  let tail := d.digits.drop 1
  let sign := if d.magnitude < 0 then '-' else '+'
  d.digits.take 1 ++ (if tail.isEmpty then [] else '.' :: tail) ++
    ['e', sign] ++ Nat.toDigits 10 d.magnitude.natAbs

end Decimal

/-- Which magnitudes are written positionally. -/
inductive Layout where
  | plain
  | between (lowest highest : Int)
deriving Repr, DecidableEq

namespace Layout

def write (l : Layout) (d : Decimal) : List Char :=
  match l with
  | .plain => d.positional
  | .between lowest highest =>
    if d.coefficient = 0 ∨ (lowest ≤ d.magnitude ∧ d.magnitude ≤ highest) then d.positional
    else d.scientific

def writeFloat (l : Layout) (x : Float) : List Char :=
  let text := l.write (Dyadic.ofFloat x).shortest
  if x.toBits.toNat / Nat.pow 2 63 = 1 then '-' :: text else text

end Layout
end TreeJudge

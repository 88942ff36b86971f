/-!
# Nearest binary64 values

The binary64 value nearest to a quotient of natural numbers, a tie going to the
even mantissa. Quotients that are too large give infinity.
-/

set_option autoImplicit false

namespace TreeJudge

/-- Division rounded to the nearest integer, a tie to the even one. -/
def roundQuotient (n d : Nat) : Nat :=
  let q := n / d
  let r := n % d
  if 2 * r < d ∨ (2 * r = d ∧ q % 2 = 0) then q else q + 1

def scaledBy (n d : Nat) (e : Int) : Nat × Nat :=
  if 0 ≤ e then (n, d * Nat.pow 2 e.toNat) else (n * Nat.pow 2 (-e).toNat, d)

def lastBit (n d : Nat) : Int :=
  let e : Int := (n.log2 : Int) - d.log2 - 53
  let (a, b) := scaledBy n d e
  max (-1074) (if Nat.pow 2 53 ≤ a / b then e + 1 else e)

def hiddenBit : Nat := Nat.pow 2 52

def infinity : Float := Float.ofBits 0x7FF0000000000000

def nearestFloat (n d : Nat) : Float :=
  if n = 0 then 0.0
  else
    let e := lastBit n d
    let (a, b) := scaledBy n d e
    let m := roundQuotient a b
    let bits := if m < hiddenBit then m else (e + 1075).toNat * hiddenBit + (m - hiddenBit)
    if infinity.toBits.toNat ≤ bits then infinity else Float.ofBits bits.toUInt64

/-- A coefficient times a power of ten. Exponents beyond the range of binary64
values are not computed. -/
def floatOfDecimal (coefficient : Nat) (exponent : Int) : Float :=
  let size := (Nat.toDigits 10 coefficient).length + exponent
  if coefficient = 0 ∨ size < -400 then 0.0
  else if 400 < size then infinity
  else if 0 ≤ exponent then nearestFloat (coefficient * Nat.pow 10 exponent.toNat) 1
  else nearestFloat coefficient (Nat.pow 10 (-exponent).toNat)

end TreeJudge

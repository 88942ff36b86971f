/-!
# Shortest decimals

A binary64 magnitude is a mantissa times a power of two. Of all decimals that
round back to it, the shortest is taken, and of several shortest the nearest.
Everything is exact arithmetic on natural numbers.
-/

set_option autoImplicit false

namespace TreeJudge

structure Decimal where
  coefficient : Nat
  exponent : Int
deriving Repr, DecidableEq

/-- A mantissa times a power of two. The gap to the next smaller magnitude is
half of the gap to the next larger one when `narrow` holds. -/
structure Dyadic where
  mantissa : Nat
  exponent : Int
  narrow : Bool
deriving Repr, DecidableEq

namespace Dyadic

def ofFloat (x : Float) : Dyadic :=
  let bits := x.toBits.toNat % Nat.pow 2 63
  let biased : Nat := bits / Nat.pow 2 52
  let fraction : Nat := bits % Nat.pow 2 52
  if biased = 0 then ⟨fraction, -1074, false⟩
  else ⟨fraction + Nat.pow 2 52, (biased : Int) - 1075, fraction == 0 && 1 < biased⟩

/-- The magnitudes between `low` and `high` round to the one at `middle`; the
ends count when the mantissa is even. All three share one power of ten. -/
structure Interval where
  low : Nat
  middle : Nat
  high : Nat
  closed : Bool
  exponent : Int
deriving Repr

def interval (d : Dyadic) : Interval :=
  let q := d.exponent - 2
  let unit := if 0 ≤ q then Nat.pow 2 q.toNat else Nat.pow 5 (-q).toNat
  { low := (4 * d.mantissa - if d.narrow then 1 else 2) * unit
    middle := 4 * d.mantissa * unit
    high := (4 * d.mantissa + 2) * unit
    closed := d.mantissa % 2 == 0
    exponent := min 0 q }

namespace Interval

def holds (i : Interval) (v : Nat) : Bool :=
  if i.closed then i.low ≤ v && v ≤ i.high else i.low < v && v < i.high

def onGrid? (i : Interval) (p : Nat) : Option Nat :=
  let d := i.middle / p
  let rest := i.middle % p
  match i.holds (d * p), i.holds ((d + 1) * p) with
  | true, true => some (if 2 * rest < p || (2 * rest == p && d % 2 == 0) then d else d + 1)
  | true, false => some d
  | false, true => some (d + 1)
  | false, false => none

def coarsest (i : Interval) : Nat → Decimal
  | 0 => ⟨i.middle, i.exponent⟩
  | j + 1 =>
    match i.onGrid? (Nat.pow 10 (j + 1)) with
    | some c => ⟨c, i.exponent + (j + 1 : Nat)⟩
    | none => coarsest i j

end Interval

def shortest (d : Dyadic) : Decimal :=
  if d.mantissa = 0 then ⟨0, 0⟩
  else
    let i := d.interval
    i.coarsest (Nat.toDigits 10 i.middle).length

end Dyadic
end TreeJudge

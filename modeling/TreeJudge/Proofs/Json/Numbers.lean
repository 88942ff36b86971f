import TreeJudge.Json.Number

/-!
# Floats of text are numbers

What is read of digits is a 64-bit significand times or divided by powers of ten, none of
which is zero or infinite. So it is always a number, and each number equals itself.
-/

set_option autoImplicit false

namespace TreeJudge

open Float.Model (UnpackedFloat Format)
open Float.Model.UnpackedFloat (unpackExponent unpackMantissa unpackExponent_packComponents
  roundWithAccuracy)

theorem isNaN_unpack {spec : Format} (b : BitVec spec.numBits) :
    (UnpackedFloat.unpack spec b).isNaN =
      (decide (unpackExponent b = -1#_) && decide (unpackMantissa b ≠ 0#_)) := by
  unfold UnpackedFloat.unpack
  dsimp only
  by_cases hexponent : unpackExponent b = -1#_
  · rw [if_pos hexponent, decide_eq_true hexponent, Bool.true_and]
    by_cases hmantissa : unpackMantissa b = 0#_
    · rw [if_pos hmantissa, decide_eq_false (not_not_intro hmantissa)]
      rfl
    · rw [if_neg hmantissa, decide_eq_true hmantissa]
      rfl
  · rw [if_neg hexponent, decide_eq_false hexponent, Bool.false_and]
    by_cases hzero : unpackExponent b = 0#_
    · rw [if_pos hzero]
      by_cases hmantissa : unpackMantissa b = 0#_
      · rw [dif_pos hmantissa]
        rfl
      · rw [dif_neg hmantissa]
        rfl
    · rw [if_neg hzero]
      rfl

theorem ofNat_ne_allOnes {n : Nat} (h : ¬ 2048 ≤ n + 1) : BitVec.ofNat 11 n ≠ -1#11 := by
  intro heq
  have hvalue : n % 2048 = 2047 := congrArg BitVec.toNat heq
  omega

theorem isNaN_unpack_pack (f : UnpackedFloat) : (Float.Model.pack f).unpack.isNaN = f.isNaN := by
  change (UnpackedFloat.unpack Format.binary64 (UnpackedFloat.pack Format.binary64 f)).isNaN =
    f.isNaN
  rw [isNaN_unpack]
  cases f with
  | notANumber => decide
  | infinity s => cases s <;> decide
  | zero s => cases s <;> decide
  | finite s m e hm =>
    change _ = false
    unfold UnpackedFloat.pack
    dsimp only
    split
    · cases s <;> decide
    · next hsmall =>
      split
      · rw [unpackExponent_packComponents, decide_eq_false (ofNat_ne_allOnes hsmall),
          Bool.false_and]
      · rw [unpackExponent_packComponents, decide_eq_false (by decide), Bool.false_and]

theorem isNaN_roundWithAccuracy (spec : Format) (s : UnpackedFloat.Sign) (m : Nat) (e : Int)
    (a : UnpackedFloat.Accuracy) : (roundWithAccuracy spec s m e a).isNaN = false := by
  unfold roundWithAccuracy
  rw [apply_dite UnpackedFloat.isNaN]
  exact dite_eq_left_iff.mpr fun _ => rfl

theorem isNaN_toFloat (n : UInt64) : n.toFloat.isNaN = false := by
  change (Float.Model.pack (UnpackedFloat.ofInt Format.binary64 n.toNat)).unpack.isNaN = false
  rw [isNaN_unpack_pack]
  unfold UnpackedFloat.ofInt UnpackedFloat.normalize
  split
  · exact isNaN_roundWithAccuracy _ _ _ _ _
  · rfl
  · exact isNaN_roundWithAccuracy _ _ _ _ _

theorem isNaN_neg (x : Float) : (-x).isNaN = x.isNaN := by
  change (Float.Model.pack x.toModel.unpack.neg).unpack.isNaN = x.toModel.unpack.isNaN
  rw [isNaN_unpack_pack]
  cases x.toModel.unpack <;> rfl

theorem exists_finite_of_div_self {x : Float} (h : (x / x).isNaN = false) :
    ∃ s m e hm, x.toModel.unpack = .finite s m e hm := by
  change (Float.Model.pack (UnpackedFloat.div Format.binary64 x.toModel.unpack
    x.toModel.unpack)).unpack.isNaN = false at h
  rw [isNaN_unpack_pack] at h
  cases hx : x.toModel.unpack with
  | finite s m e hm => exact ⟨s, m, e, hm, rfl⟩
  | notANumber => rw [hx] at h; cases h
  | infinity s => rw [hx] at h; cases h
  | zero s => rw [hx] at h; cases h

section
variable (spec : Format) (u : UnpackedFloat) {s : UnpackedFloat.Sign} {m : Nat} {e : Int}
  {hm : 0 < m}

theorem isNaN_mul_finite :
    (UnpackedFloat.mul spec u (.finite s m e hm)).isNaN = u.isNaN := by
  cases u with
  | finite s' m' e' hm' => exact isNaN_roundWithAccuracy _ _ _ _ _
  | _ => rfl

theorem isNaN_div_finite :
    (UnpackedFloat.div spec u (.finite s m e hm)).isNaN = u.isNaN := by
  cases u with
  | finite s' m' e' hm' => exact isNaN_roundWithAccuracy _ _ _ _ _
  | _ => rfl

end

section
variable {p : Float} (x : Float) (hp : (p / p).isNaN = false)
include hp

theorem isNaN_mul : (x * p).isNaN = x.isNaN := by
  obtain ⟨s, m, e, hm, hfinite⟩ := exists_finite_of_div_self hp
  change (Float.Model.pack (UnpackedFloat.mul Format.binary64 x.toModel.unpack
    p.toModel.unpack)).unpack.isNaN = x.toModel.unpack.isNaN
  rw [isNaN_unpack_pack, hfinite, isNaN_mul_finite]

theorem isNaN_div : (x / p).isNaN = x.isNaN := by
  obtain ⟨s, m, e, hm, hfinite⟩ := exists_finite_of_div_self hp
  change (Float.Model.pack (UnpackedFloat.div Format.binary64 x.toModel.unpack
    p.toModel.unpack)).unpack.isNaN = x.toModel.unpack.isNaN
  rw [isNaN_unpack_pack, hfinite, isNaN_div_finite]

end

theorem beq_self_of_isNaN {x : Float} (h : x.isNaN = false) : (x == x) = true := by
  change x.toModel.unpack.isNaN = false at h
  change (x.toModel.unpack.compare x.toModel.unpack == some .eq) = true
  cases hunpack : x.toModel.unpack with
  | notANumber => rw [hunpack] at h; cases h
  | infinity s => cases s <;> rfl
  | zero s => rfl
  | finite s m e hm =>
    have hsame : (compare e e).then (compare m m) = .eq := by simp
    cases s with
    | negative =>
      change (some ((compare e e).then (compare m m)).swap == some .eq) = true
      rw [hsame]
      rfl
    | positive =>
      change (some ((compare e e).then (compare m m)) == some .eq) = true
      rw [hsame]
      rfl

namespace Json

/-- No power of ten that the readers use is zero or infinite. -/
theorem isNaN_powerOfTen_div_self {e : Nat} (h : e ≤ 308) :
    (powerOfTen e / powerOfTen e).isNaN = false := by
  have hall : ∀ e < 309, (powerOfTen e / powerOfTen e).isNaN = false := by decide +kernel
  exact hall e (Nat.lt_succ_of_le h)

theorem isNaN_shrink (rounds : Nat) (x : Float) (e : Nat) :
    (shrink rounds x e).isNaN = x.isNaN := by
  induction rounds generalizing x e with
  | zero => rfl
  | succ rounds ih =>
    unfold shrink
    split
    · next he => exact isNaN_div x (isNaN_powerOfTen_div_self he)
    · split
      · rfl
      · rw [ih, isNaN_div x (isNaN_powerOfTen_div_self (Nat.le_refl 308))]

theorem isNaN_scaled {significand : Nat} {exponent : Int} {x : Float}
    (h : scaled significand exponent = some x) : x.isNaN = false := by
  have hwhole := isNaN_toFloat significand.toUInt64
  unfold scaled at h
  dsimp only at h
  split at h
  · cases h
    rw [isNaN_shrink, hwhole]
  · split at h
    · split at h
      · cases h
        exact hwhole
      · cases h
    · next hsmall =>
      split at h
      · cases h
      · cases h
        rw [isNaN_mul _ (isNaN_powerOfTen_div_self (by omega)), hwhole]

theorem isNaN_signed (negative : Bool) (x : Float) : (signed negative x).isNaN = x.isNaN := by
  cases negative with
  | false => rfl
  | true => exact isNaN_neg x

end Json
end TreeJudge

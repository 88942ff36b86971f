import TreeJudge.Json.Reader
import TreeJudge.Json.Writer

/-!
# Written integers are read back

An integer is written without leading zeros, and what follows it is neither a digit nor
the start of a fraction or an exponent. When its size fits the significand, its digits
are all collected and it is read as it was; otherwise it becomes a float or is too large
for one, but never another integer.
-/

set_option autoImplicit false

namespace TreeJudge.Json

/-- The rest of a text behind a complete item: it ends there, or the next item or
the end of the container follows. -/
def Delimited (rest : List Char) : Prop := ∀ c ∈ rest.head?, c = ',' ∨ c = ']' ∨ c = '}'

def EndsNumber (rest : List Char) : Prop :=
  ∀ c ∈ rest.head?, isDigit c = false ∧ c ≠ '.' ∧ c ≠ 'e' ∧ c ≠ 'E'

instance (rest : List Char) : Decidable (EndsNumber rest) :=
  match rest with
  | [] => .isTrue nofun
  | c :: _ => decidable_of_iff (isDigit c = false ∧ c ≠ '.' ∧ c ≠ 'e' ∧ c ≠ 'E')
      (by simp [EndsNumber])

theorem Delimited.endsNumber {rest : List Char} (h : Delimited rest) : EndsNumber rest := by
  intro c hc
  rcases h c hc with rfl | rfl | rfl <;> decide

theorem isDigit_of_mem_toDigits {n : Nat} {c : Char} (h : c ∈ Nat.toDigits 10 n) :
    isDigit c = true := by
  have hc := Nat.isDigit_of_mem_toDigits (by decide) (by decide) h
  simp only [Char.isDigit, Bool.and_eq_true, decide_eq_true_eq] at hc
  simp only [isDigit, Bool.and_eq_true, decide_eq_true_eq]
  exact hc

theorem toDigits_opens (n : Nat) : ∃ d ds, Nat.toDigits 10 n = d :: ds ∧ isDigit d = true := by
  obtain ⟨d, ds, hd⟩ := List.exists_cons_of_ne_nil (Nat.toDigits_ne_nil (n := n) (b := 10))
  exact ⟨d, ds, hd, isDigit_of_mem_toDigits (n := n) (by simp [hd])⟩

theorem toDigits_no_leading_zero {n : Nat} (h : 0 < n) :
    ∃ d ds, Nat.toDigits 10 n = d :: ds ∧ d ≠ '0' := by
  have hdigit : ∀ n < 10, 0 < n → n.digitChar ≠ '0' := by decide
  induction n using Nat.strongRecOn with
  | _ n ih =>
    by_cases hsmall : n < 10
    · exact ⟨n.digitChar, [], Nat.toDigits_of_lt_base hsmall, hdigit n hsmall h⟩
    · obtain ⟨d, ds, hd, hzero⟩ := ih (n / 10) (by omega) (by omega)
      exact ⟨d, ds ++ [(n % 10).digitChar],
        by rw [Nat.toDigits_of_base_le (by decide) (by omega), hd, List.cons_append], hzero⟩

theorem le_ofDigitChars (ds : List Char) (acc : Nat) : acc ≤ Nat.ofDigitChars 10 ds acc := by
  induction ds generalizing acc with
  | nil => exact Nat.le_refl acc
  | cons d ds ih =>
    have := ih (10 * acc + (d.toNat - '0'.toNat))
    rw [Nat.ofDigitChars_cons]
    omega

theorem collect_all {limit : Nat} {ds : List Char} {acc : Nat}
    (h : Nat.ofDigitChars 10 ds acc ≤ limit) :
    collect limit acc ds = (Nat.ofDigitChars 10 ds acc, []) := by
  induction ds generalizing acc with
  | nil => rfl
  | cons d ds ih =>
    have hacc : acc * 10 + digitValue d = 10 * acc + (d.toNat - '0'.toNat) := by
      rw [digitValue, Nat.mul_comm]
    rw [Nat.ofDigitChars_cons] at h ⊢
    have hfits := le_ofDigitChars ds (10 * acc + (d.toNat - '0'.toNat))
    rw [collect, hacc, if_neg (by omega), ih h]

theorem collect_toDigits {limit n : Nat} (h : n ≤ limit) :
    collect limit 0 (Nat.toDigits 10 n) = (n, []) := by
  have hvalue : Nat.ofDigitChars 10 (Nat.toDigits 10 n) 0 = n := Nat.ofDigitChars_ten_toDigits
  rw [collect_all (by omega), hvalue]

theorem collect_le {limit acc : Nat} (h : acc ≤ limit) (ds : List Char) :
    (collect limit acc ds).1 ≤ limit := by
  induction ds generalizing acc with
  | nil => exact h
  | cons d ds ih =>
    rw [collect]
    split
    · exact h
    · exact ih (by omega)

theorem ofDigitChars_le_of_collect {limit acc : Nat} {ds : List Char} (hacc : acc ≤ limit)
    (h : (collect limit acc ds).2 = []) : Nat.ofDigitChars 10 ds acc ≤ limit := by
  induction ds generalizing acc with
  | nil => exact hacc
  | cons d ds ih =>
    have hnext : acc * 10 + digitValue d = 10 * acc + (d.toNat - '0'.toNat) := by
      rw [digitValue, Nat.mul_comm]
    rw [collect] at h
    split at h
    · cases h
    · rw [Nat.ofDigitChars_cons, ← hnext]
      exact ih (by omega) h

section
variable {rest : List Char}

theorem span_toDigits (n : Nat) (hr : EndsNumber rest) :
    (Nat.toDigits 10 n ++ rest).takeWhile isDigit = Nat.toDigits 10 n ∧
      (Nat.toDigits 10 n ++ rest).dropWhile isDigit = rest := by
  have hdigits : ∀ c ∈ Nat.toDigits 10 n, isDigit c = true := fun _ => isDigit_of_mem_toDigits
  rw [List.takeWhile_append_of_pos hdigits, List.dropWhile_append_of_pos hdigits]
  cases rest with
  | nil => simp
  | cons c rest => simp [(hr c rfl).1]

theorem afterWhole_endsNumber (negative : Bool) (significand unused : Nat)
    (hr : EndsNumber rest) :
    afterWhole negative significand unused rest =
      if unused = 0 then .ok (whole negative significand, rest)
      else floating negative significand unused rest := by
  unfold afterWhole
  split
  · exact absurd rfl (hr '.' rfl).2.1
  · exact absurd rfl (hr 'e' rfl).2.2.1
  · exact absurd rfl (hr 'E' rfl).2.2.2
  · rfl

theorem number_toDigits (negative : Bool) (n : Nat) (hr : EndsNumber rest) :
    number negative (Nat.toDigits 10 n ++ rest) =
      afterWhole negative (collect largestSignificand 0 (Nat.toDigits 10 n)).1
        (collect largestSignificand 0 (Nat.toDigits 10 n)).2.length rest := by
  rcases Nat.eq_zero_or_pos n with rfl | hpos
  · rw [collect_toDigits (Nat.zero_le _), Nat.toDigits_zero, List.singleton_append]
    cases rest with
    | nil => rfl
    | cons c rest =>
      change (if isDigit c = true then _ else afterWhole negative 0 0 (c :: rest)) = _
      rw [(hr c rfl).1, if_neg (by decide)]
      rfl
  · obtain ⟨htake, hdrop⟩ := span_toDigits n hr
    obtain ⟨d, ds, hd, hzero⟩ := toDigits_no_leading_zero hpos
    have hdigit : isDigit d = true := isDigit_of_mem_toDigits (n := n) (by simp [hd])
    rw [hd, List.cons_append] at htake hdrop ⊢
    rw [number, if_pos hdigit, htake, hdrop, ← hd]
    exact hzero

theorem scalar_digit {c : Char} (h : isDigit c = true) (cs : List Char) :
    scalar (c :: cs) = number false (c :: cs) := by
  unfold scalar
  split
  case h_7 _ _ _ _ _ he =>
    cases he
    rw [if_pos h]
  case h_1 he => cases he
  -- the other values start with a letter, a sign or a quote
  all_goals
    next he =>
      cases he
      cases h

theorem scalar_writeInt (n : Int) (rest : List Char) :
    scalar (writeInt n ++ rest) =
      number (decide (n < 0)) (Nat.toDigits 10 n.natAbs ++ rest) := by
  cases n with
  | ofNat m =>
    obtain ⟨d, ds, hd, hdigit⟩ := toDigits_opens m
    have hsign : decide (Int.ofNat m < 0) = false :=
      decide_eq_false (Int.not_lt.mpr (Int.natCast_nonneg m))
    rw [hsign, writeInt, Int.natAbs_ofNat', hd, List.cons_append, scalar_digit hdigit]
  | negSucc m =>
    have hsign : decide (Int.negSucc m < 0) = true := decide_eq_true (Int.negSucc_lt_zero m)
    rw [hsign]
    rfl

def Fits (n : Int) : Prop := -0x8000000000000000 ≤ n ∧ n < 0x10000000000000000

instance (n : Int) : Decidable (Fits n) := inferInstanceAs (Decidable (_ ∧ _))

/-- What an integer of any size is read as, if it is read. -/
def rounded (n : Int) : Option Json :=
  let digits := collect largestSignificand 0 (Nat.toDigits 10 n.natAbs)
  if digits.2.length = 0 then some (whole (decide (n < 0)) digits.1)
  else (scaled digits.1 digits.2.length).map fun x => .float (signed (decide (n < 0)) x)

theorem scalar_integer {n : Int} {v : Json} {rest' : List Char} (hr : EndsNumber rest) :
    scalar (writeInt n ++ rest) = .ok (v, rest') ↔ rounded n = some v ∧ rest' = rest := by
  rw [scalar_writeInt, number_toDigits _ _ hr, afterWhole_endsNumber _ _ _ hr]
  simp only [rounded]
  split
  · simp [eq_comm]
  · unfold floating
    cases scaled _ _ <;> simp [eq_comm]

theorem rounded_of_fits {n : Int} (h : Fits n) : rounded n = some (.int n) := by
  obtain ⟨hlow, hhigh⟩ := h
  have hlargest : largestSignificand = 2 ^ 64 - 1 := rfl
  have hpower : Nat.pow 2 63 = 2 ^ 63 := rfl
  rw [rounded, collect_toDigits (by omega)]
  change some (whole (decide (n < 0)) n.natAbs) = _
  unfold whole
  by_cases hn : n < 0
  · rw [if_pos (decide_eq_true hn), if_neg (by omega)]
    congr 2
    omega
  · rw [if_neg (by simpa using hn)]
    congr 2
    omega

theorem rounded_of_not_fits {n : Int} {v : Json} (h : ¬Fits n) (hv : rounded n = some v) :
    ∃ x, v = .float x := by
  have hlargest : largestSignificand = 2 ^ 64 - 1 := rfl
  have hpower : Nat.pow 2 63 = 2 ^ 63 := rfl
  have hvalue : Nat.ofDigitChars 10 (Nat.toDigits 10 n.natAbs) 0 = n.natAbs :=
    Nat.ofDigitChars_ten_toDigits
  simp only [rounded] at hv
  split at hv
  · next hall =>
    -- only below -2^63 all digits are collected
    have hle := ofDigitChars_le_of_collect (Nat.zero_le largestSignificand)
      (List.length_eq_zero_iff.mp hall)
    rw [hvalue] at hle
    have hn : n < 0 := by
      unfold Fits at h
      omega
    have hsize : n.natAbs = 0 ∨ Nat.pow 2 63 < n.natAbs := by
      unfold Fits at h
      omega
    rw [collect_toDigits hle, whole, if_pos (decide_eq_true hn), if_pos hsize] at hv
    exact ⟨_, (Option.some.inj hv).symm⟩
  · obtain ⟨x, -, rfl⟩ := Option.map_eq_some_iff.mp hv
    exact ⟨_, rfl⟩

end

end TreeJudge.Json

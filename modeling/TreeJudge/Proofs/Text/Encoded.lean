import Mathlib.Tactic.SplitIfs

/-!
# The order of encoded texts

Texts are compared character by character, or byte by byte once they are encoded. Both
comparisons agree: in the encoding of a character the first byte tells how many follow,
and grows with their number, and the groups of six bits stand in order of their weight.
-/

set_option autoImplicit false

namespace TreeJudge.Text

def bytes (s : String) : List UInt8 := s.toUTF8.data.toList

theorem bytes_eq (s : String) : bytes s = s.toList.flatMap String.utf8EncodeChar := by
  rw [bytes, String.toUTF8_eq_toByteArray, ← String.utf8Encode_toList, List.utf8Encode,
    List.toList_data_toByteArray]

/-- What is left of a number in front of `k` groups of six bits. -/
def leading : Nat → Nat → Nat
  | 0, n => n
  | k + 1, n => leading k (n / 64)

def groups (mark : Nat) : Nat → Nat → List UInt8
  | 0, n => [UInt8.ofNat (n + mark)]
  | k + 1, n => groups mark k (n / 64) ++ [UInt8.ofNat (n % 64 + 128)]

theorem ofNat_lt {a b : Nat} (h : a < b) (hb : b < 256) : UInt8.ofNat a < UInt8.ofNat b := by
  rw [UInt8.lt_iff_toNat_lt, UInt8.toNat_ofNat', UInt8.toNat_ofNat']
  omega

theorem groups_eq_cons (mark k n : Nat) :
    ∃ tail, groups mark k n = UInt8.ofNat (leading k n + mark) :: tail := by
  induction k generalizing n with
  | zero => exact ⟨[], rfl⟩
  | succ k ih =>
    obtain ⟨tail, htail⟩ := ih (n / 64)
    exact ⟨tail ++ [UInt8.ofNat (n % 64 + 128)], by rw [groups, htail, leading, List.cons_append]⟩

theorem groups_lt {mark k m n : Nat} (h : m < n) (hmark : leading k n + mark < 256)
    (x y : List UInt8) : groups mark k m ++ x < groups mark k n ++ y := by
  induction k generalizing m n x y with
  | zero =>
    have hbyte : UInt8.ofNat (m + mark) < UInt8.ofNat (n + mark) :=
      ofNat_lt (Nat.add_lt_add_right h mark) hmark
    exact List.cons_lt_cons_iff.mpr (.inl hbyte)
  | succ k ih =>
    rw [groups, groups, List.append_assoc, List.append_assoc]
    by_cases hlt : m / 64 < n / 64
    · exact ih hlt hmark _ _
    · -- the groups in front agree, so the last one decides
      have heq : m / 64 = n / 64 := by omega
      have hbyte : UInt8.ofNat (m % 64 + 128) < UInt8.ofNat (n % 64 + 128) :=
        ofNat_lt (by omega) (by omega)
      rw [heq]
      exact List.append_left_lt (List.cons_lt_cons_iff.mpr (.inl hbyte))

theorem groups_lt_of_leading {mark mark' k k' m n : Nat}
    (h : leading k m + mark < leading k' n + mark') (hmark : leading k' n + mark' < 256)
    (x y : List UInt8) : groups mark k m ++ x < groups mark' k' n ++ y := by
  obtain ⟨tail, htail⟩ := groups_eq_cons mark k m
  obtain ⟨tail', htail'⟩ := groups_eq_cons mark' k' n
  rw [htail, htail']
  exact List.cons_lt_cons_iff.mpr (.inl (ofNat_lt h hmark))

def width (n : Nat) : Nat :=
  if n ≤ 0x7F then 0 else if n ≤ 0x7FF then 1 else if n ≤ 0xFFFF then 2 else 3

def mark : Nat → Nat
  | 0 => 0
  | 1 => 0xC0
  | 2 => 0xE0
  | _ => 0xF0

theorem toNat_lt (c : Char) : c.toNat < 0x110000 := by
  rcases c.valid with h | h
  · exact Nat.lt_trans h (by decide)
  · exact h.2

theorem utf8EncodeChar_eq (c : Char) :
    String.utf8EncodeChar c = groups (mark (width c.toNat)) (width c.toNat) c.toNat := by
  have hc := toNat_lt c
  rw [← Char.toNat_val] at hc ⊢
  simp only [String.utf8EncodeChar, width]
  generalize c.val.toNat = n at hc
  -- the leading bits are few enough, so no remainder is taken of them
  have htwo : n ≤ 0x7FF → n / 64 % 0x20 = n / 64 := by omega
  have hthree : n ≤ 0xFFFF → n / 4096 % 0x10 = n / 64 / 64 := by omega
  have hfour : n / 262144 % 0x08 = n / 64 / 64 / 64 := by omega
  have hmiddle : n / 4096 = n / 64 / 64 := by omega
  split_ifs with h₁ h₂ h₃
  · rfl
  · rw [htwo h₂]
    rfl
  · rw [hthree h₃]
    rfl
  · rw [hfour, hmiddle]
    rfl

theorem leading_lt {n : Nat} (h : n < 0x110000) :
    leading (width n) n + mark (width n) < 256 := by
  simp only [width]
  split_ifs <;> simp only [leading, mark] <;> omega

theorem leading_lt_of_width {m n : Nat} (h : width m < width n) :
    leading (width m) m + mark (width m) < leading (width n) n + mark (width n) := by
  simp only [width] at h ⊢
  split_ifs at h ⊢ <;> simp only [leading, mark] at h ⊢ <;> omega

theorem width_mono {m n : Nat} (h : m ≤ n) : width m ≤ width n := by
  simp only [width]
  split_ifs <;> omega

theorem utf8EncodeChar_lt {c d : Char} (h : c < d) (x y : List UInt8) :
    String.utf8EncodeChar c ++ x < String.utf8EncodeChar d ++ y := by
  have hlt : c.toNat < d.toNat := h
  have hmark := leading_lt (toNat_lt d)
  rw [utf8EncodeChar_eq, utf8EncodeChar_eq]
  rcases Nat.lt_or_eq_of_le (width_mono (Nat.le_of_lt hlt)) with hwidth | hwidth
  · exact groups_lt_of_leading (leading_lt_of_width hwidth) hmark x y
  · rw [hwidth]
    exact groups_lt hlt hmark x y

theorem utf8EncodeChar_ne_nil (c : Char) : String.utf8EncodeChar c ≠ [] := by
  obtain ⟨tail, htail⟩ := groups_eq_cons (mark (width c.toNat)) (width c.toNat) c.toNat
  rw [utf8EncodeChar_eq, htail]
  exact List.cons_ne_nil _ _

theorem flatMap_utf8EncodeChar_lt {s t : List Char} (h : s < t) :
    s.flatMap String.utf8EncodeChar < t.flatMap String.utf8EncodeChar := by
  induction h with
  | @nil c t =>
    obtain ⟨b, bs, hbytes⟩ := List.exists_cons_of_ne_nil (utf8EncodeChar_ne_nil c)
    rw [List.flatMap_cons, hbytes]
    exact List.nil_lt_cons b _
  | rel h => exact utf8EncodeChar_lt h _ _
  | cons _ ih => exact List.append_left_lt ih

/-- Texts and their bytes are in the same order. -/
theorem bytes_lt_iff (s t : String) : bytes s < bytes t ↔ s < t := by
  have forward (a b : String) (h : a < b) : bytes a < bytes b := by
    rw [bytes_eq, bytes_eq]
    exact flatMap_utf8EncodeChar_lt (String.lt_iff.mp h)
  refine ⟨fun h => ?_, forward s t⟩
  by_cases hlt : s < t
  · exact hlt
  · by_cases hgt : t < s
    · exact absurd h (List.lt_asymm (forward t s hgt))
    · rw [String.le_antisymm (String.not_lt.mp hgt) (String.not_lt.mp hlt)] at h
      exact absurd h (List.lt_irrefl _)

end TreeJudge.Text

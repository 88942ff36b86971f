import TreeJudge.Json.Scan
import TreeJudge.Json.Writer

/-!
# Written strings are read back

A character is written as itself, or as an escape that is read as this one
character. A string is read in one tick of the clock for each of its characters,
so the text itself is clock enough.
-/

set_option autoImplicit false

namespace TreeJudge.Json

theorem length_le_bytes (cs : List Char) : cs.length ≤ bytes cs := by
  induction cs with
  | nil => simp
  | cons c cs ih =>
    have hc : 0 < c.utf8Size := c.utf8Size_pos
    have hcs : bytes (c :: cs) = c.utf8Size + bytes cs := by
      simp [bytes, String.ofList_cons]
    rw [hcs, List.length_cons]
    omega

theorem hexValue_hexDigit : ∀ {n : Nat}, n < 16 → hexValue? (hexDigit n) = some n := by
  decide

theorem hexQuad_digits {a b c d : Nat} (ha : a < 16) (hb : b < 16) (hc : c < 16) (hd : d < 16)
    (cs : List Char) :
    hexQuad (hexDigit a :: hexDigit b :: hexDigit c :: hexDigit d :: cs) =
      .ok (((a * 16 + b) * 16 + c) * 16 + d, cs) := by
  have hlong : ¬bytes [hexDigit a, hexDigit b, hexDigit c, hexDigit d] < 4 := by
    have := length_le_bytes [hexDigit a, hexDigit b, hexDigit c, hexDigit d]
    simp only [List.length_cons, List.length_nil] at this
    omega
  simp only [hexQuad, List.take, hlong, if_false, hexValue_hexDigit ha, hexValue_hexDigit hb,
    hexValue_hexDigit hc, hexValue_hexDigit hd]

theorem codePoint_control {n : Nat} (h : n < 0x20) (cs : List Char) :
    codePoint ('0' :: '0' :: hexDigit (n / 16) :: hexDigit (n % 16) :: cs) =
      .ok (Char.ofNat n, cs) := by
  have hzero : '0' = hexDigit 0 := rfl
  have hvalue : ((0 * 16 + 0) * 16 + n / 16) * 16 + n % 16 = n := by omega
  have hlow : ¬(0xDC00 ≤ n ∧ n ≤ 0xDFFF) := by omega
  have hhigh : n < 0xD800 ∨ 0xDBFF < n := by omega
  rw [codePoint, hzero, hexQuad_digits (by omega) (by omega) (by omega) (by omega), hvalue]
  simp only [bind, Except.bind, if_neg hlow, if_pos hhigh]

theorem escapeChar_cases (c : Char) :
    (escapeChar c = [c] ∧ c ≠ '"' ∧ c ≠ '\\' ∧ 0x20 ≤ c.toNat) ∨
    ∃ e, escapeChar c = '\\' :: e ∧ ∀ cs, escape (e ++ cs) = .ok (c, cs) := by
  unfold escapeChar
  split
  case h_8 hquote hback _ _ _ _ _ =>
    split
    · next hcontrol =>
      refine .inr ⟨_, rfl, fun cs => ?_⟩
      exact (codePoint_control hcontrol cs).trans (by rw [Char.ofNat_toNat])
    · next hprinted => exact .inl ⟨rfl, hquote, hback, by omega⟩
  -- the seven characters that have an escape of one letter
  all_goals exact .inr ⟨_, rfl, fun _ => rfl⟩

theorem stringBody_escapeChar (c tick : Char) (clock cs : List Char) :
    stringBody (tick :: clock) (escapeChar c ++ cs) =
      (do
        let (s, cs) ← stringBody clock cs
        .ok (c :: s, cs)) := by
  rcases escapeChar_cases c with ⟨he, hquote, hback, hprinted⟩ | ⟨e, he, hread⟩
  · rw [he, List.singleton_append, stringBody, if_neg (by omega)]
    · exact hquote
    · exact hback
  · rw [he, List.cons_append, stringBody, hread]
    rfl

theorem stringBody_write (s : List Char) {clock : List Char} (h : s.length < clock.length)
    (cs : List Char) : stringBody clock (s.flatMap escapeChar ++ '"' :: cs) = .ok (s, cs) := by
  induction s generalizing clock with
  | nil =>
    cases clock with
    | nil => cases h
    | cons tick clock => rfl
  | cons c s ih =>
    cases clock with
    | nil => cases h
    | cons tick clock =>
      rw [List.flatMap_cons, List.append_assoc, stringBody_escapeChar, ih (by simpa using h)]
      rfl

theorem length_le_escaped (s : List Char) : s.length ≤ (s.flatMap escapeChar).length := by
  induction s with
  | nil => simp
  | cons c s ih =>
    have hc : 1 ≤ (escapeChar c).length := by
      rcases escapeChar_cases c with ⟨he, _⟩ | ⟨e, he, _⟩ <;> simp [he]
    simp only [List.flatMap_cons, List.length_append, List.length_cons]
    omega

theorem string_write (s : String) (cs : List Char) :
    string (s.toList.flatMap escapeChar ++ '"' :: cs) = .ok (s, cs) := by
  have hlong : s.toList.length < (s.toList.flatMap escapeChar ++ '"' :: cs).length := by
    have := length_le_escaped s.toList
    simp only [List.length_append, List.length_cons]
    omega
  rw [string, stringBody_write s.toList hlong]
  simp only [bind, Except.bind, String.ofList_toList]

theorem map_string_write {α : Type} (f : String × List Char → α) (s : String) (cs : List Char) :
    f <$> string (s.toList.flatMap escapeChar ++ '"' :: cs) = .ok (f (s, cs)) := by
  rw [string_write]
  rfl

theorem writeString_append (s : String) (cs : List Char) :
    writeString s ++ cs = '"' :: (s.toList.flatMap escapeChar ++ '"' :: cs) := by
  simp [writeString]

end TreeJudge.Json

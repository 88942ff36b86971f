import TreeJudge.Toml.Lexeme
import TreeJudge.Toml.Writer

/-!
# Quoted strings are read back

Every string is read back from whichever form it is written in. In a form on several
lines the reader takes a whole run of quotes at once, so what is read back by induction is
a run that has come so far, and the characters behind it.
-/

set_option autoImplicit false

namespace TreeJudge.Toml

theorem isVisible_of_not_isControl {c : Char} (h : isControl c = false) (hline : c ≠ '\n') :
    isVisible c = true := by
  simp only [isControl, isVisible, Bool.or_eq_false_iff, Bool.and_eq_false_iff, bne_eq_false_iff_eq,
    decide_eq_false_iff_not, beq_eq_false_iff_ne, Bool.or_eq_true, Bool.and_eq_true,
    decide_eq_true_eq, beq_iff_eq] at h ⊢
  obtain ⟨(hlow | rfl) | rfl, hdelete⟩ := h
  · omega
  · exact .inl (.inl rfl)
  · exact absurd rfl hline

theorem newline?_visible {c : Char} (h : isVisible c = true) (r : List Char) :
    newline? (c :: r) = none := by
  unfold newline?
  split
  · next heq =>
    cases heq
    cases h
  · next heq =>
    cases heq
    cases h
  · rfl

theorem lt_of_isControl {c : Char} (h : isControl c = true) : c.toNat < 0x80 := by
  simp only [isControl, Bool.or_eq_true, Bool.and_eq_true, decide_eq_true_eq, beq_iff_eq] at h
  omega

theorem hexValue?_hexUpper : ∀ {n : Nat}, n < 16 → hexValue? (hexUpper n) = some n := by
  decide

theorem hexNumber_control {n : Nat} (h : n < 0x80) (cs : List Char) :
    hexNumber 4 0 ('0' :: '0' :: hexUpper (n / 16) :: hexUpper (n % 16) :: cs) = some (n, cs) := by
  have hzero : hexValue? '0' = some 0 := rfl
  have hhigh : hexValue? (hexUpper (n / 16)) = some (n / 16) := hexValue?_hexUpper (by omega)
  have hlow : hexValue? (hexUpper (n % 16)) = some (n % 16) := hexValue?_hexUpper (by omega)
  have hvalue : ((0 * 16 + 0) * 16 + n / 16) * 16 + n % 16 = n := by omega
  simp only [hexNumber, hzero, hhigh, hlow, bind, Option.bind_some]
  rw [hvalue]

theorem escape_hex {n : Nat} (h : n < 0x80) (cs : List Char) :
    escape ('u' :: '0' :: '0' :: hexUpper (n / 16) :: hexUpper (n % 16) :: cs) =
      some (Char.ofNat n, cs) := by
  have hscalar : scalarValue? n = some (Char.ofNat n) := if_pos (.inl (by omega))
  simp only [escape, codePoint, hexNumber_control h, hscalar, bind, Option.bind_some]

/-- A text that is read as an escape of the character, and not as an escaped line end. -/
structure Escapes (w : List Char) (c : Char) : Prop where
  read : ∀ r, escape (w ++ r) = some (c, r)
  noGap : ∀ r, newline? (skipBlanks (w ++ r)) = none

theorem escapes_quote : Escapes ['"'] '"' := ⟨fun _ => rfl, fun _ => rfl⟩

theorem writeChar_cases (lines : Bool) (c : Char) :
    (writeChar lines c = [c] ∧ c ≠ '\\' ∧ isVisible c = true) ∨
    (lines = true ∧ c = '\n' ∧ writeChar lines c = ['\n']) ∨
    ∃ w, writeChar lines c = '\\' :: w ∧ Escapes w c := by
  unfold writeChar
  split
  case h_6 =>
    cases lines with
    | true => exact .inr (.inl ⟨rfl, rfl, rfl⟩)
    | false => exact .inr (.inr ⟨_, rfl, fun _ => rfl, fun _ => rfl⟩)
  case h_7 hback hline =>
    split
    · next hcontrol =>
      refine .inr (.inr ⟨_, rfl, fun r => ?_, fun _ => rfl⟩)
      exact (escape_hex (lt_of_isControl hcontrol) r).trans (by rw [Char.ofNat_toNat])
    · next hplain =>
      exact .inl ⟨rfl, hback, isVisible_of_not_isControl (by simpa using hplain) hline⟩
  -- the five characters that have an escape of one letter
  all_goals exact .inr (.inr ⟨_, rfl, fun _ => rfl, fun _ => rfl⟩)

theorem writeChar_eq_cons {c : Char} (hquote : c ≠ '"') (lines : Bool) :
    ∃ d w, writeChar lines c = d :: w ∧ d ≠ '"' := by
  rcases writeChar_cases lines c with ⟨hw, -⟩ | ⟨-, -, hw⟩ | ⟨w, hw, -⟩
  · exact ⟨c, [], hw, hquote⟩
  · exact ⟨'\n', [], hw, by decide⟩
  · exact ⟨'\\', w, hw, by decide⟩

/-- The scanner finds the answer when it is given more than a number of steps. -/
def Within {α : Type} (scan : Nat → Scanner α) (steps : Nat) (cs : List Char)
    (answer : α × List Char) : Prop :=
  ∀ n, steps < n → scan n cs = some answer

theorem Within.mono {α : Type} {scan : Nat → Scanner α} {steps more : Nat} {cs : List Char}
    {answer : α × List Char} (h : Within scan steps cs answer) (hle : steps ≤ more) :
    Within scan more cs answer := fun n hn => h n (by omega)

theorem within_of_succ {α : Type} {scan : Nat → Scanner α} {steps : Nat} {cs : List Char}
    {answer : α × List Char} (h : ∀ n, steps ≤ n → scan (n + 1) cs = some answer) :
    Within scan steps cs answer := by
  intro n hn
  cases n with
  | zero => cases hn
  | succ n => exact h n (by omega)

section
variable {steps run : Nat} {c : Char} {s r rest : List Char}

theorem basicBody_escape {w : List Char} (hw : Escapes w c)
    (h : Within basicBody steps r (s, rest)) :
    Within basicBody (steps + 1) ('\\' :: (w ++ r)) (c :: s, rest) := by
  refine within_of_succ fun n hn => ?_
  rw [basicBody, hw.read]
  simp [h n (by omega)]

theorem basicBody_writeChar (hquote : c ≠ '"') (h : Within basicBody steps r (s, rest)) :
    Within basicBody (steps + 1) (writeChar false c ++ r) (c :: s, rest) := by
  rcases writeChar_cases false c with ⟨hw, hback, hvisible⟩ | ⟨hfalse, _⟩ | ⟨w, hw, hescapes⟩
  · refine within_of_succ fun n hn => ?_
    rw [hw, List.singleton_append, basicBody, if_pos hvisible, h n (by omega)]
    · rfl
    · exact hquote
    · exact hback
  · cases hfalse
  · rw [hw]
    exact basicBody_escape hescapes h

theorem basicBody_write (run : Nat) (cs rest : List Char) :
    Within basicBody (writeBasic false run cs).length (writeBasic false run cs ++ '"' :: rest)
      (cs, rest) := by
  induction cs generalizing run with
  | nil =>
    exact within_of_succ fun _ _ => rfl
  | cons c cs ih =>
    rw [writeBasic]
    by_cases hquote : c = '"'
    · subst hquote
      rw [if_pos rfl, if_pos (by simp)]
      exact (basicBody_escape escapes_quote (ih 0)).mono (by simp)
    · rw [if_neg hquote, List.append_assoc]
      obtain ⟨d, w, hw, -⟩ := writeChar_eq_cons hquote false
      exact (basicBody_writeChar hquote (ih 0)).mono (by simp [hw])

theorem literalBody_write {cs : List Char} (hplain : ∀ c ∈ cs, isVisible c = true ∧ c ≠ '\'')
    (rest : List Char) : literalBody (cs ++ '\'' :: rest) = some (cs, rest) := by
  induction cs with
  | nil => rfl
  | cons c cs ih =>
    obtain ⟨⟨hvisible, hquote⟩, hcs⟩ := List.forall_mem_cons.mp hplain
    rw [List.cons_append, literalBody, if_pos hvisible, ih hcs]
    · rfl
    · exact hquote

end

section
variable {q : Char} {rest : List Char} (hrest : rest.head? ≠ some q)
include hrest

theorem takeWhile_run (run : Nat) :
    (List.replicate run q ++ rest).takeWhile (· == q) = List.replicate run q := by
  rw [List.takeWhile_append_of_pos (by simp)]
  cases rest with
  | nil => simp
  | cons c r =>
    have hc : c ≠ q := by simpa using hrest
    simp [hc]

theorem quoteRun_inside {run : Nat} (hrun : run ≤ 2) :
    quoteRun q (List.replicate run q ++ rest) = (run, false, rest) := by
  rw [quoteRun, takeWhile_run hrest, List.length_replicate, if_pos (by omega)]
  simp

theorem quoteRun_closing {run : Nat} (hrun : run ≤ 2) :
    quoteRun q (List.replicate run q ++ q :: q :: q :: rest) = (run, true, rest) := by
  have hjoined : List.replicate run q ++ q :: q :: q :: rest =
      List.replicate (run + 3) q ++ rest := by
    rw [← List.replicate_append_replicate, List.append_assoc]
    rfl
  have hinside : min 2 (run + 3 - 3) = run := by omega
  rw [hjoined, quoteRun, takeWhile_run hrest, List.length_replicate, if_neg (by omega), hinside]
  simp

end

/-- The scanner takes a whole run of quotes at once, and ends with a closing one. -/
structure TakesRuns (q : Char) (scan : Nat → Scanner (List Char)) : Prop where
  closing : ∀ n r inside rest, quoteRun q (q :: r) = (inside, true, rest) →
    scan (n + 1) (q :: r) = some (List.replicate inside q, rest)
  run : ∀ n r inside s r' rest, quoteRun q (q :: r) = (inside, false, r') →
    scan n r' = some (s, rest) → scan (n + 1) (q :: r) = some (List.replicate inside q ++ s, rest)

theorem takesRuns_basicLines : TakesRuns '"' basicLines where
  closing n r inside rest h := by rw [basicLines, h]
  run n r inside s r' rest h hread := by
    rw [basicLines, h]
    simp [hread]

theorem takesRuns_literalLines : TakesRuns '\'' literalLines where
  closing n r inside rest h := by rw [literalLines, h]
  run n r inside s r' rest h hread := by
    rw [literalLines, h]
    simp [hread]

section
variable {q : Char} {scan : Nat → Scanner (List Char)} (hscan : TakesRuns q scan)
  {steps run : Nat} {s r rest : List Char}
include hscan

theorem TakesRuns.within_closing (hrest : rest.head? ≠ some q) (hrun : run ≤ 2) :
    Within scan run (List.replicate run q ++ q :: q :: q :: rest) (List.replicate run q, rest) := by
  have hclosing := quoteRun_closing hrest hrun
  refine within_of_succ fun n _ => ?_
  cases run with
  | zero => exact hscan.closing n _ _ _ hclosing
  | succ run => exact hscan.closing n _ _ _ hclosing

theorem TakesRuns.within_run (hr : r.head? ≠ some q) (hrun : run ≤ 2)
    (h : Within scan steps r (s, rest)) :
    Within scan (run + steps) (List.replicate run q ++ r) (List.replicate run q ++ s, rest) := by
  have hinside := quoteRun_inside hr hrun
  cases run with
  | zero => exact h.mono (by omega)
  | succ run =>
    refine within_of_succ fun n hn => ?_
    exact hscan.run n _ _ s r rest hinside (h n (by omega))

end

section
variable {steps run : Nat} {c : Char} {s r rest : List Char}

theorem basicLines_escape {w : List Char} (hw : Escapes w c)
    (h : Within basicLines steps r (s, rest)) :
    Within basicLines (steps + 1) ('\\' :: (w ++ r)) (c :: s, rest) := by
  refine within_of_succ fun n hn => ?_
  rw [basicLines, hw.noGap, hw.read]
  simp [h n (by omega)]

theorem basicLines_writeChar (hquote : c ≠ '"') (h : Within basicLines steps r (s, rest)) :
    Within basicLines (steps + 1) (writeChar true c ++ r) (c :: s, rest) := by
  rcases writeChar_cases true c with ⟨hw, hback, hvisible⟩ | ⟨-, rfl, hw⟩ | ⟨w, hw, hescapes⟩
  · refine within_of_succ fun n hn => ?_
    rw [hw, List.singleton_append, basicLines, newline?_visible hvisible]
    · simp [hvisible, h n (by omega)]
    · exact hquote
    · exact hback
  · refine within_of_succ fun n hn => ?_
    rw [hw, List.singleton_append, basicLines, newline?]
    · simp [h n (by omega)]
    · decide
    · decide
  · rw [hw]
    exact basicLines_escape hescapes h

theorem basicLines_write (hrest : rest.head? ≠ some '"') (cs : List Char) (hrun : run ≤ 2) :
    Within basicLines (run + (writeBasic true run cs).length)
      (List.replicate run '"' ++ (writeBasic true run cs ++ '"' :: '"' :: '"' :: rest))
      (List.replicate run '"' ++ cs, rest) := by
  -- a quote that is written plainly only makes the run longer
  induction cs generalizing run with
  | nil =>
    rw [List.append_nil]
    exact takesRuns_basicLines.within_closing hrest hrun
  | cons c cs ih =>
    rw [writeBasic]
    by_cases hquote : c = '"'
    · subst hquote
      rw [if_pos rfl]
      by_cases hfull : run = 2
      · subst hfull
        rw [if_pos (by simp)]
        have hescaped := basicLines_escape escapes_quote (ih (Nat.zero_le 2))
        refine (takesRuns_basicLines.within_run (by simp) (by omega) hescaped).mono ?_
        simp
      · rw [if_neg (by simpa using hfull)]
        have hlonger := ih (show run + 1 ≤ 2 by omega)
        simp only [List.replicate_succ', List.append_assoc, List.singleton_append] at hlonger
        exact hlonger.mono (by simp +arith)
    · rw [if_neg hquote, List.append_assoc]
      have hchar := basicLines_writeChar hquote (ih (Nat.zero_le 2))
      obtain ⟨d, w, hw, hd⟩ := writeChar_eq_cons hquote true
      rw [hw] at hchar ⊢
      refine (takesRuns_basicLines.within_run (by simpa using hd) hrun hchar).mono ?_
      simp

theorem literalLines_plain (hquote : c ≠ '\'') (hplain : isVisible c = true ∨ c = '\n')
    (h : Within literalLines steps r (s, rest)) :
    Within literalLines (steps + 1) (c :: r) (c :: s, rest) := by
  refine within_of_succ fun n hn => ?_
  have hread := h n (by omega)
  rcases hplain with hvisible | rfl
  · rw [literalLines, newline?_visible hvisible]
    · simp [hvisible, hread]
    · exact hquote
  · rw [literalLines, newline?]
    · simp [hread]
    · exact hquote

/-- Behind a run that has come so far, no run of the character is longer than the bound. -/
def RunsWithin (q : Char) (bound : Nat) : Nat → List Char → Prop
  | run, [] => run ≤ bound
  | run, c :: cs =>
    if c = q then RunsWithin q bound (run + 1) cs
    else run ≤ bound ∧ RunsWithin q bound 0 cs

theorem literalLines_write (hrest : rest.head? ≠ some '\'') {cs : List Char}
    (hplain : ∀ c ∈ cs, isVisible c = true ∨ c = '\n') (hruns : RunsWithin '\'' 2 run cs) :
    Within literalLines (run + cs.length)
      (List.replicate run '\'' ++ (cs ++ '\'' :: '\'' :: '\'' :: rest))
      (List.replicate run '\'' ++ cs, rest) := by
  induction cs generalizing run with
  | nil =>
    rw [List.append_nil]
    exact takesRuns_literalLines.within_closing hrest hruns
  | cons c cs ih =>
    obtain ⟨hc, hcs⟩ := List.forall_mem_cons.mp hplain
    rw [RunsWithin] at hruns
    by_cases hquote : c = '\''
    · subst hquote
      rw [if_pos rfl] at hruns
      have hlonger := ih hcs hruns
      simp only [List.replicate_succ', List.append_assoc, List.singleton_append] at hlonger
      exact hlonger.mono (by simp +arith)
    · rw [if_neg hquote] at hruns
      have hchar := literalLines_plain hquote hc (ih hcs hruns.2)
      refine (takesRuns_literalLines.within_run (by simpa using hquote) hruns.1 hchar).mono ?_
      simp

theorem runsWithin_of_foldl {q : Char} {bound : Nat} {f : Nat × Nat → Char → Nat × Nat}
    (hsame : ∀ run best, f (run, best) q = (run + 1, max best (run + 1)))
    (hother : ∀ run best c, c ≠ q → f (run, best) c = (0, best)) (cs : List Char)
    {run best : Nat} (hrun : run ≤ best) (h : (cs.foldl f (run, best)).2 ≤ bound) :
    best ≤ bound ∧ RunsWithin q bound run cs := by
  induction cs generalizing run best with
  | nil => exact ⟨h, Nat.le_trans hrun h⟩
  | cons c cs ih =>
    rw [List.foldl_cons] at h
    rw [RunsWithin]
    by_cases hc : c = q
    · subst hc
      rw [hsame] at h
      obtain ⟨hbest, hruns⟩ := ih (by omega) h
      rw [if_pos rfl]
      exact ⟨by omega, hruns⟩
    · rw [hother run best c hc] at h
      obtain ⟨hbest, hruns⟩ := ih (Nat.zero_le _) h
      rw [if_neg hc]
      exact ⟨hbest, by omega, hruns⟩

theorem runsWithin_of_longestRun {q : Char} {bound : Nat} {cs : List Char}
    (h : longestRun q cs ≤ bound) : RunsWithin q bound 0 cs := by
  refine (runsWithin_of_foldl ?_ ?_ cs (Nat.le_refl 0) h).2
  · exact fun run best => if_pos (by simp)
  · exact fun run best c hc => if_neg (by simpa using hc)

end

def Form.Holds (cs : List Char) : Form → Prop
  | .basic | .basicLines => True
  | .literal => (∀ c ∈ cs, isVisible c = true ∧ c ≠ '\'') ∧ cs ≠ []
  | .literalLines => (∀ c ∈ cs, isVisible c = true ∨ c = '\n') ∧ longestRun '\'' cs ≤ 2

theorem formOf_holds (cs : List Char) : (formOf cs).1.Holds cs := by
  unfold formOf
  dsimp only
  split
  · trivial
  next hbasic =>
  split
  · next hliteral =>
    have hfree : (∀ c ∈ cs, isControl c = false) ∧ '\'' ∉ cs ∧ '\n' ∉ cs := by
      simpa [and_assoc] using hliteral
    obtain ⟨hcontrols, hquote, hline⟩ := hfree
    constructor
    · intro c hc
      exact ⟨isVisible_of_not_isControl (hcontrols c hc) fun he => hline (he ▸ hc),
        fun he => hquote (he ▸ hc)⟩
    · rintro rfl
      exact hbasic rfl
  split
  · trivial
  split
  · next hlines =>
    have hfree : (∀ c ∈ cs, isControl c = false) ∧ longestRun '\'' cs ≤ 2 := by
      simpa using hlines
    refine ⟨fun c hc => ?_, hfree.2⟩
    by_cases hline : c = '\n'
    · exact .inr hline
    · exact .inl (isVisible_of_not_isControl (hfree.1 c hc) hline)
  · cases cs.contains '\n' <;> trivial

section
variable {cs : List Char}

theorem dropNewline_openLines {w : List Char} (h : '\n' ∉ cs → newline? w = none) :
    dropNewline (openLines cs ++ w) = w := by
  unfold openLines
  split
  · rfl
  · next hline =>
    rw [List.nil_append, dropNewline, h (by simpa using hline)]
    rfl

theorem newline?_writeBasic (hline : '\n' ∉ cs) (w : List Char) :
    newline? (writeBasic true 0 cs ++ '"' :: w) = none := by
  cases cs with
  | nil => rfl
  | cons c cs =>
    rw [writeBasic]
    by_cases hquote : c = '"'
    · rw [if_pos hquote]
      rfl
    · rw [if_neg hquote]
      rcases writeChar_cases true c with ⟨hw, -, hvisible⟩ | ⟨-, rfl, -⟩ | ⟨e, hw, -⟩
      · rw [hw, List.append_assoc, List.singleton_append, newline?_visible hvisible]
      · simp at hline
      · rw [hw]
        rfl

end

section
variable {rest : List Char}

theorem string_basic (hrest : rest.head? ≠ some '"') (cs : List Char) :
    string ('"' :: (writeBasic false 0 cs ++ '"' :: rest)) = some (String.ofList cs, rest) := by
  have hread := basicBody_write 0 cs rest
  rw [string]
  · rw [hread _ (by simp +arith)]
    rfl
  · intro r heq
    cases cs with
    | nil =>
      injection heq with _ heq
      exact hrest (heq ▸ rfl)
    | cons c cs =>
      rw [writeBasic] at heq
      by_cases hquote : c = '"'
      · rw [if_pos hquote, if_pos (by simp)] at heq
        cases heq
      · obtain ⟨d, w, hw, hd⟩ := writeChar_eq_cons hquote false
        rw [if_neg hquote, hw] at heq
        injection heq with heq
        exact hd heq

theorem string_literal {cs : List Char} (hne : cs ≠ [])
    (hplain : ∀ c ∈ cs, isVisible c = true ∧ c ≠ '\'') :
    string ('\'' :: (cs ++ '\'' :: rest)) = some (String.ofList cs, rest) := by
  rw [string, literalBody_write hplain]
  · rfl
  · intro r heq
    cases cs with
    | nil => exact hne rfl
    | cons c cs =>
      injection heq with heq
      exact (hplain c List.mem_cons_self).2 heq

theorem string_basicLines (hrest : rest.head? ≠ some '"') (cs : List Char) :
    string ('"' :: '"' :: '"' ::
      (openLines cs ++ (writeBasic true 0 cs ++ '"' :: '"' :: '"' :: rest))) =
        some (String.ofList cs, rest) := by
  have hread := basicLines_write hrest cs (Nat.zero_le 2)
  rw [List.replicate_zero, List.nil_append, List.nil_append] at hread
  rw [string, dropNewline_openLines fun hline => newline?_writeBasic hline _,
    hread _ (by simp +arith)]
  rfl

theorem newline?_visibles {cs : List Char} (hvisible : ∀ c ∈ cs, isVisible c = true)
    (w : List Char) : newline? (cs ++ '\'' :: w) = none := by
  cases cs with
  | nil => rfl
  | cons c cs => exact newline?_visible (hvisible c List.mem_cons_self) _

theorem string_literalLines (hrest : rest.head? ≠ some '\'') {cs : List Char}
    (hplain : ∀ c ∈ cs, isVisible c = true ∨ c = '\n') (hruns : longestRun '\'' cs ≤ 2) :
    string ('\'' :: '\'' :: '\'' :: (openLines cs ++ (cs ++ '\'' :: '\'' :: '\'' :: rest))) =
      some (String.ofList cs, rest) := by
  have hread := literalLines_write hrest hplain (runsWithin_of_longestRun hruns)
  have hvisible (hline : '\n' ∉ cs) : ∀ c ∈ cs, isVisible c = true := fun c hc =>
    (hplain c hc).resolve_right fun he => hline (he ▸ hc)
  rw [List.replicate_zero, List.nil_append, List.nil_append] at hread
  rw [string, dropNewline_openLines fun hline => newline?_visibles (hvisible hline) _,
    hread _ (by simp +arith)]
  rfl

theorem string_quote (cs : List Char) (hdouble : rest.head? ≠ some '"')
    (hsingle : rest.head? ≠ some '\'') :
    string (quote cs ++ rest) = some (String.ofList cs, rest) := by
  have hholds := formOf_holds cs
  unfold quote
  generalize (formOf cs).1 = form at hholds
  cases form with
  | basic => simpa using string_basic hdouble cs
  | literal => simpa using string_literal hholds.2 hholds.1
  | basicLines => simpa using string_basicLines hdouble cs
  | literalLines => simpa using string_literalLines hsingle hholds.1 hholds.2

end

end TreeJudge.Toml

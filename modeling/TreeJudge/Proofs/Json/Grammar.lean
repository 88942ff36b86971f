import Mathlib.Data.List.TakeWhile
import TreeJudge.Proofs.Json.Reading

/-!
# Valid texts

The grammar of JSON, without values: it has no largest number, no greatest depth, and an
escape for every unit of 16 bits, whether it is a character or half of one. The reader
knows such limits, so it accepts valid texts only, but not all of them.
-/

set_option autoImplicit false

namespace TreeJudge.Json
open Shape (bind_eq_ok map_eq_ok)

def IsBlank (cs : List Char) : Prop := ∀ c ∈ cs, c = ' ' ∨ c = '\n' ∨ c = '\t' ∨ c = '\r'

def IsDigits (cs : List Char) : Prop := cs ≠ [] ∧ ∀ c ∈ cs, '0' ≤ c ∧ c ≤ '9'

def IsWhole (cs : List Char) : Prop := IsDigits cs ∧ (cs.head? = some '0' → cs = ['0'])

inductive IsFraction : List Char → Prop
  | none : IsFraction []
  | digits {ds : List Char} (h : IsDigits ds) : IsFraction ('.' :: ds)

inductive IsExponent : List Char → Prop
  | none : IsExponent []
  | digits {letter : Char} {sign ds : List Char} (hletter : letter = 'e' ∨ letter = 'E')
      (hsign : sign = [] ∨ sign = ['+'] ∨ sign = ['-']) (h : IsDigits ds) :
      IsExponent (letter :: (sign ++ ds))

def IsNumber (cs : List Char) : Prop :=
  ∃ sign whole fraction exponent, cs = sign ++ whole ++ fraction ++ exponent ∧
    (sign = [] ∨ sign = ['-']) ∧ IsWhole whole ∧ IsFraction fraction ∧ IsExponent exponent

def IsHexDigit (c : Char) : Prop :=
  ('0' ≤ c ∧ c ≤ '9') ∨ ('a' ≤ c ∧ c ≤ 'f') ∨ ('A' ≤ c ∧ c ≤ 'F')

inductive IsQuoted : List Char → Prop
  | nil : IsQuoted []
  | plain {c : Char} {cs : List Char} (hquote : c ≠ '"') (hslash : c ≠ '\\')
      (hcontrol : 0x20 ≤ c.toNat) (rest : IsQuoted cs) : IsQuoted (c :: cs)
  | escape {c : Char} {cs : List Char} (h : c ∈ ['"', '\\', '/', 'b', 'f', 'n', 'r', 't'])
      (rest : IsQuoted cs) : IsQuoted ('\\' :: c :: cs)
  | unit {a b c d : Char} {cs : List Char} (h : ∀ x ∈ [a, b, c, d], IsHexDigit x)
      (rest : IsQuoted cs) : IsQuoted ('\\' :: 'u' :: a :: b :: c :: d :: cs)

def IsString (cs : List Char) : Prop := ∃ quoted, cs = '"' :: quoted ++ ['"'] ∧ IsQuoted quoted

def IsKey (cs : List Char) : Prop :=
  ∃ before name after, cs = before ++ name ++ after ∧ IsBlank before ∧ IsString name ∧
    IsBlank after

/-- Members and items are separated by commas, which these put before each. -/
def behindCommas (items : List (List Char)) : List Char := items.flatMap fun cs => ',' :: cs

def memberText (m : List Char × List Char) : List Char := m.1 ++ ':' :: m.2

/-- A value, with or without blanks around it. -/
inductive IsText : List Char → Prop
  | spaced {before cs after : List Char} (hbefore : IsBlank before) (h : IsText cs)
      (hafter : IsBlank after) : IsText (before ++ cs ++ after)
  | word {cs : List Char} (h : cs ∈ ["null", "true", "false"].map String.toList) : IsText cs
  | number {cs : List Char} (h : IsNumber cs) : IsText cs
  | string {cs : List Char} (h : IsString cs) : IsText cs
  | emptyArray {cs : List Char} (h : IsBlank cs) : IsText ('[' :: cs ++ [']'])
  | array {cs : List Char} {items : List (List Char)} (h : ∀ i ∈ cs :: items, IsText i) :
      IsText ('[' :: (cs ++ behindCommas items) ++ [']'])
  | emptyObject {cs : List Char} (h : IsBlank cs) : IsText ('{' :: cs ++ ['}'])
  | object {m : List Char × List Char} {ms : List (List Char × List Char)}
      (hkeys : ∀ n ∈ m :: ms, IsKey n.1) (h : ∀ n ∈ m :: ms, IsText n.2) :
      IsText ('{' :: (memberText m ++ behindCommas (ms.map memberText)) ++ ['}'])

def Valid (text : String) : Prop := IsText text.toList

section
variable {cs rest : List Char}

theorem skipSpace_split (cs : List Char) :
    ∃ blank, cs = blank ++ skipSpace cs ∧ IsBlank blank := by
  refine ⟨cs.takeWhile isSpace, List.takeWhile_append_dropWhile.symm, fun c hc => ?_⟩
  simpa [isSpace, or_assoc] using List.mem_takeWhile_imp hc

theorem word_split {ws : List Char} (h : word ws cs = .ok rest) : cs = ws ++ rest := by
  induction ws generalizing cs with
  | nil =>
    cases h
    rfl
  | cons w ws ih =>
    cases cs with
    | nil => cases h
    | cons c cs =>
      rw [word] at h
      split at h
      · next hc => rw [hc, ih h, List.cons_append]
      · cases h

section
variable {negative : Bool} {significand : Nat} {v : Json}

theorem isDigits_takeWhile (h : cs.takeWhile isDigit ≠ []) : IsDigits (cs.takeWhile isDigit) := by
  refine ⟨h, fun d hd => ?_⟩
  simpa [isDigit] using List.mem_takeWhile_imp hd

theorem floating_rest {exponent : Int}
    (h : floating negative significand exponent cs = .ok (v, rest)) : cs = rest := by
  unfold floating at h
  split at h
  · cases h
    rfl
  · cases h

theorem exponentPart_split {letter : Char} (hletter : letter = 'e' ∨ letter = 'E') {shift : Int}
    (h : exponentPart negative significand shift cs = .ok (v, rest)) :
    ∃ exponent, letter :: cs = exponent ++ rest ∧ IsExponent exponent := by
  unfold exponentPart at h
  split at h
  next down body hbody =>
  obtain ⟨sign, rfl, hsign⟩ : ∃ sign, cs = sign ++ body ∧
      (sign = [] ∨ sign = ['+'] ∨ sign = ['-']) := by
    split at hbody
    · cases hbody
      exact ⟨['+'], rfl, by simp⟩
    · cases hbody
      exact ⟨['-'], rfl, by simp⟩
    · cases hbody
      exact ⟨[], rfl, by simp⟩
  cases body with
  | nil => cases h
  | cons c body =>
    dsimp only at h
    split at h
    · next hc =>
      have hrest : (c :: body).dropWhile isDigit = rest := by
        split at h
        · exact floating_rest h
        · split at h
          · cases h
          · cases h
            rfl
      refine ⟨letter :: (sign ++ (c :: body).takeWhile isDigit), ?_,
        .digits hletter hsign (isDigits_takeWhile (by simp [hc]))⟩
      rw [← hrest, List.cons_append, List.append_assoc, List.takeWhile_append_dropWhile]
    · cases h

theorem fractionPart_split {shift : Int}
    (h : fractionPart negative significand shift cs = .ok (v, rest)) :
    ∃ fraction exponent, '.' :: cs = fraction ++ exponent ++ rest ∧ IsFraction fraction ∧
      IsExponent exponent := by
  have hcs : cs.takeWhile isDigit ++ cs.dropWhile isDigit = cs := List.takeWhile_append_dropWhile
  have hdigits : cs.takeWhile isDigit ≠ [] → IsFraction ('.' :: cs.takeWhile isDigit) :=
    fun hne => .digits (isDigits_takeWhile hne)
  unfold fractionPart at h
  generalize cs.takeWhile isDigit = ds at h hcs hdigits
  generalize cs.dropWhile isDigit = r at h hcs
  subst hcs
  cases ds with
  | nil => cases r <;> cases h
  | cons d ds =>
    have hfraction := hdigits (List.cons_ne_nil d ds)
    dsimp only at h
    split at h
    · next c r =>
      split at h
      · next hletter =>
        obtain ⟨exponent, hr, hexponent⟩ := exponentPart_split hletter h
        exact ⟨_, exponent, by rw [List.append_assoc, ← hr]; rfl, hfraction, hexponent⟩
      · exact ⟨_, [], by simp [← floating_rest h], hfraction, .none⟩
    · exact ⟨_, [], by simp [← floating_rest h], hfraction, .none⟩

theorem afterWhole_split {unused : Nat}
    (h : afterWhole negative significand unused cs = .ok (v, rest)) :
    ∃ fraction exponent, cs = fraction ++ exponent ++ rest ∧ IsFraction fraction ∧
      IsExponent exponent := by
  unfold afterWhole at h
  split at h
  · exact fractionPart_split h
  · obtain ⟨exponent, hcs, hexponent⟩ := exponentPart_split (.inl rfl) h
    exact ⟨[], exponent, hcs, .none, hexponent⟩
  · obtain ⟨exponent, hcs, hexponent⟩ := exponentPart_split (.inr rfl) h
    exact ⟨[], exponent, hcs, .none, hexponent⟩
  · split at h
    · cases h
      exact ⟨[], [], rfl, .none, .none⟩
    · exact ⟨[], [], floating_rest h, .none, .none⟩

theorem number_split {sign : List Char} (hsign : sign = [] ∨ sign = ['-'])
    (h : number negative cs = .ok (v, rest)) :
    ∃ front, sign ++ cs = front ++ rest ∧ IsNumber front := by
  obtain ⟨whole, fraction, exponent, rfl, hwhole, hfraction, hexponent⟩ :
      ∃ whole fraction exponent, cs = whole ++ fraction ++ exponent ++ rest ∧ IsWhole whole ∧
        IsFraction fraction ∧ IsExponent exponent := by
    have hzero : IsWhole ['0'] := by simp [IsWhole, IsDigits]
    unfold number at h
    split at h
    · cases h
    · next r =>
      obtain ⟨fraction, exponent, hr, hfraction, hexponent⟩ :
          ∃ fraction exponent, r = fraction ++ exponent ++ rest ∧ IsFraction fraction ∧
            IsExponent exponent := by
        split at h
        · split at h
          · cases h
          · exact afterWhole_split h
        · exact afterWhole_split h
      exact ⟨['0'], fraction, exponent, by simp [hr], hzero, hfraction, hexponent⟩
    · next c cs hne =>
      split at h
      · next hc =>
        obtain ⟨fraction, exponent, hr, hfraction, hexponent⟩ := afterWhole_split h
        refine ⟨(c :: cs).takeWhile isDigit, fraction, exponent, ?_,
          ⟨isDigits_takeWhile (by simp [hc]), fun hhead => ?_⟩, hfraction, hexponent⟩
        · rw [List.append_assoc, List.append_assoc, ← List.append_assoc fraction, ← hr,
            List.takeWhile_append_dropWhile]
        · rw [List.takeWhile_cons_of_pos hc] at hhead
          cases hhead
          exact absurd rfl hne
      · cases h
  exact ⟨sign ++ whole ++ fraction ++ exponent, by simp, sign, whole, fraction, exponent, rfl,
    hsign, hwhole, hfraction, hexponent⟩

end

theorem hexDigit_of_value {c : Char} {n : Nat} (h : hexValue? c = some n) : IsHexDigit c := by
  unfold hexValue? at h
  split at h
  · next hc => exact .inl hc
  · split at h
    · next hc => exact .inr (.inl hc)
    · split at h
      · next hc => exact .inr (.inr hc)
      · cases h

theorem hexQuad_split {n : Nat} (h : hexQuad cs = .ok (n, rest)) :
    ∃ quad, cs = quad ++ rest ∧
      ∀ tail, IsQuoted tail → IsQuoted ('\\' :: 'u' :: (quad ++ tail)) := by
  unfold hexQuad at h
  split at h
  · cases h
  · split at h
    · next a b c d tail _ =>
      split at h
      · next ha hb hc hd =>
        cases h
        refine ⟨[a, b, c, d], rfl, fun tail => .unit ?_⟩
        simp [hexDigit_of_value ha, hexDigit_of_value hb, hexDigit_of_value hc,
          hexDigit_of_value hd]
      · cases h
    · cases h

theorem pairChar_split {c : Char} (h : pairChar c cs = .ok rest) : cs = c :: rest := by
  cases cs with
  | nil => cases h
  | cons d cs =>
    rw [pairChar] at h
    split at h
    · next hd =>
      cases h
      rw [hd]
    · cases h

theorem codePoint_split {c : Char} (h : codePoint cs = .ok (c, rest)) :
    ∃ front, cs = front ++ rest ∧
      ∀ tail, IsQuoted tail → IsQuoted ('\\' :: 'u' :: (front ++ tail)) := by
  obtain ⟨⟨high, cs₁⟩, hhigh, hchar⟩ := bind_eq_ok.mp h
  obtain ⟨quad, hcs, hquad⟩ := hexQuad_split hhigh
  dsimp only at hchar
  split at hchar
  · cases hchar
  · split at hchar
    · cases hchar
      exact ⟨quad, hcs, hquad⟩
    · -- the other half of the character is a unit of its own
      obtain ⟨cs₂, hslash, hpair⟩ := bind_eq_ok.mp hchar
      obtain ⟨cs₃, hletter, hunit⟩ := bind_eq_ok.mp hpair
      obtain ⟨⟨low, cs₄⟩, hlow, hend⟩ := bind_eq_ok.mp hunit
      obtain ⟨quad', hcs₃, hquad'⟩ := hexQuad_split hlow
      have hrest : cs₄ = rest := by
        dsimp only at hend
        split at hend
        · cases hend
        · exact (Prod.mk.inj (Except.ok.inj hend)).2
      refine ⟨quad ++ '\\' :: 'u' :: quad', ?_, fun tail htail => ?_⟩
      · rw [hcs, pairChar_split hslash, pairChar_split hletter, hcs₃, hrest]
        simp
      · simpa using hquad _ (hquad' tail htail)

theorem escape_split {c : Char} (h : escape cs = .ok (c, rest)) :
    ∃ front, cs = front ++ rest ∧
      ∀ tail, IsQuoted tail → IsQuoted ('\\' :: (front ++ tail)) := by
  unfold escape at h
  split at h
  · cases h
  · next cs =>
    obtain ⟨front, rfl, hfront⟩ := codePoint_split h
    exact ⟨'u' :: front, rfl, hfront⟩
  · next d cs _ =>
    split at h
    · next e he =>
      cases h
      refine ⟨[d], rfl, fun tail => .escape ?_⟩
      unfold letterEscape? at he
      split at he <;> simp_all
    · cases h

theorem stringBody_split {clock quoted : List Char} (h : stringBody clock cs = .ok (quoted, rest)) :
    ∃ front, cs = front ++ '"' :: rest ∧ IsQuoted front := by
  induction clock generalizing cs quoted with
  | nil => cases h
  | cons tick clock ih =>
    unfold stringBody at h
    split at h
    · cases h
    · cases h
    · cases h
      exact ⟨[], rfl, .nil⟩
    · next cs heq =>
      cases heq
      obtain ⟨⟨c, cs'⟩, hescape, hquoted⟩ := bind_eq_ok.mp h
      obtain ⟨⟨s, cs''⟩, hbody, hend⟩ := bind_eq_ok.mp hquoted
      cases hend
      obtain ⟨front, rfl, hfront⟩ := escape_split hescape
      obtain ⟨tail, rfl, htail⟩ := ih hbody
      exact ⟨'\\' :: (front ++ tail), by simp, hfront tail htail⟩
    · next c cs hquote hslash heq =>
      cases heq
      split at h
      · cases h
      · obtain ⟨⟨s, cs'⟩, hbody, hend⟩ := bind_eq_ok.mp h
        cases hend
        obtain ⟨tail, rfl, htail⟩ := ih hbody
        exact ⟨c :: tail, rfl, .plain (fun hc => hquote hc) (fun hc => hslash hc) (by omega) htail⟩

theorem string_split {name : String} (h : string cs = .ok (name, rest)) :
    ∃ front, '"' :: cs = front ++ rest ∧ IsString front := by
  obtain ⟨⟨quoted, cs'⟩, hbody, hend⟩ := bind_eq_ok.mp h
  cases hend
  obtain ⟨front, rfl, hfront⟩ := stringBody_split hbody
  exact ⟨'"' :: front ++ ['"'], by simp, front, rfl, hfront⟩

theorem scalar_split {v : Json} (h : scalar cs = .ok (v, rest)) :
    ∃ front, cs = front ++ rest ∧ IsText front := by
  unfold scalar at h
  split at h
  · cases h
  · obtain ⟨_, hword, hend⟩ := map_eq_ok.mp h
    cases hend
    exact ⟨"null".toList, congrArg _ (word_split hword), .word (by simp)⟩
  · obtain ⟨_, hword, hend⟩ := map_eq_ok.mp h
    cases hend
    exact ⟨"true".toList, congrArg _ (word_split hword), .word (by simp)⟩
  · obtain ⟨_, hword, hend⟩ := map_eq_ok.mp h
    cases hend
    exact ⟨"false".toList, congrArg _ (word_split hword), .word (by simp)⟩
  · obtain ⟨front, hcs, hfront⟩ := number_split (.inr rfl) h
    exact ⟨front, hcs, .number hfront⟩
  · obtain ⟨⟨name, _⟩, hname, hend⟩ := map_eq_ok.mp h
    cases hend
    obtain ⟨front, hcs, hfront⟩ := string_split hname
    exact ⟨front, hcs, .string hfront⟩
  · split at h
    · obtain ⟨front, hcs, hfront⟩ := number_split (.inl rfl) h
      exact ⟨front, hcs, .number hfront⟩
    · cases h

theorem atItem_split {first more : Bool} (h : atItem first cs = .ok (more, rest)) :
    ∃ blank, IsBlank blank ∧
      ((more = false ∧ ∃ r, rest = ']' :: r ∧ cs = blank ++ rest) ∨
        (more = true ∧ first = true ∧ cs = blank ++ rest) ∨
        (more = true ∧ first = false ∧
          ∃ blank', IsBlank blank' ∧ cs = blank ++ ',' :: (blank' ++ rest))) := by
  obtain ⟨blank, hcs, hblank⟩ := skipSpace_split cs
  refine ⟨blank, hblank, ?_⟩
  unfold atItem at h
  split at h
  · cases h
  · next r hr =>
    cases h
    exact .inl ⟨rfl, r, rfl, hr ▸ hcs⟩
  · next c r _ hr =>
    rw [hr] at hcs
    split at h
    · next hfirst =>
      cases h
      exact .inr (.inl ⟨rfl, hfirst, hcs⟩)
    · next hfirst =>
      split at h
      · next hc =>
        obtain ⟨blank', hr', hblank'⟩ := skipSpace_split r
        split at h
        · cases h
        · cases h
        · cases h
          refine .inr (.inr ⟨rfl, by simpa using hfirst, blank', hblank', ?_⟩)
          rw [hcs, hc, ← hr']
      · cases h

theorem atKey_split {first : Bool} {key : Option String} (h : atKey first cs = .ok (key, rest)) :
    ∃ blank, IsBlank blank ∧
      ((key = none ∧ ∃ r, rest = '}' :: r ∧ cs = blank ++ rest) ∨
        (key.isSome ∧ ∃ name, IsString name ∧
          ((first = true ∧ cs = blank ++ name ++ rest) ∨
            (first = false ∧
              ∃ blank', IsBlank blank' ∧ cs = blank ++ ',' :: (blank' ++ name ++ rest))))) := by
  obtain ⟨blank, hcs, hblank⟩ := skipSpace_split cs
  refine ⟨blank, hblank, ?_⟩
  unfold atKey at h
  split at h
  · cases h
  · next r hr =>
    cases h
    exact .inl ⟨rfl, r, rfl, hr ▸ hcs⟩
  · next c r _ hr =>
    rw [hr] at hcs
    split at h
    · next hfirst =>
      split at h
      · next hc =>
        obtain ⟨⟨key, _⟩, hkey, hend⟩ := map_eq_ok.mp h
        cases hend
        obtain ⟨name, hr, hname⟩ := string_split hkey
        exact .inr ⟨rfl, name, hname, .inl ⟨hfirst, by rw [hcs, hc, hr, List.append_assoc]⟩⟩
      · cases h
    · next hfirst =>
      split at h
      · next hc =>
        obtain ⟨blank', hr', hblank'⟩ := skipSpace_split r
        split at h
        · cases h
        · next r' hskip =>
          obtain ⟨⟨key, _⟩, hkey, hend⟩ := map_eq_ok.mp h
          cases hend
          obtain ⟨name, hr, hname⟩ := string_split hkey
          refine .inr ⟨rfl, name, hname, .inr ⟨by simpa using hfirst, blank', hblank', ?_⟩⟩
          rw [hcs, hc, hr', hskip, hr, List.append_assoc]
        · cases h
        · cases h
      · cases h

theorem colon_split (h : colon cs = .ok rest) :
    ∃ blank, cs = blank ++ ':' :: rest ∧ IsBlank blank := by
  obtain ⟨blank, hcs, hblank⟩ := skipSpace_split cs
  unfold colon at h
  split at h
  · cases h
  · next r hr =>
    cases h
    exact ⟨blank, hr ▸ hcs, hblank⟩
  · cases h

theorem isBlank_nil : IsBlank [] := nofun

section
variable {item : Reader Json} (hitem : ∀ {cs rest : List Char} {v : Json},
  item cs = .ok (v, rest) → ∃ front, cs = front ++ rest ∧ IsText front)
include hitem

theorem itemLoop_split {clock : List Char} {vs : List Json}
    (h : itemLoop item clock false cs = .ok (vs, rest)) :
    ∃ blank items r, IsBlank blank ∧ (∀ i ∈ items, IsText i) ∧ rest = ']' :: r ∧
      cs = blank ++ behindCommas items ++ rest := by
  induction clock generalizing cs vs with
  | nil => cases h
  | cons tick clock ih =>
    rcases itemLoop_eq_ok.mp h with ⟨hat, -⟩ | ⟨cs', v, cs'', vs', hat, hv, hloop, -⟩
    · obtain ⟨blank, hblank, ⟨-, r, hr, hcs⟩ | ⟨hmore, -⟩ | ⟨hmore, -⟩⟩ := atItem_split hat
      · exact ⟨blank, [], r, hblank, nofun, hr, by simpa [behindCommas] using hcs⟩
      · cases hmore
      · cases hmore
    · obtain ⟨blank, hblank, ⟨hmore, -⟩ | ⟨-, hfirst, -⟩ | ⟨-, -, blank', hblank', hcs⟩⟩ :=
        atItem_split hat
      · cases hmore
      · cases hfirst
      · obtain ⟨front, hfront, htext⟩ := hitem hv
        obtain ⟨blank'', items, r, hblank'', hitems, hr, hcs''⟩ := ih hloop
        -- the blanks around an item are its own, up to the commas
        refine ⟨blank, (blank' ++ front ++ blank'') :: items, r, hblank, ?_, hr, ?_⟩
        · exact List.forall_mem_cons.mpr ⟨.spaced hblank' htext hblank'', hitems⟩
        · rw [hcs, hfront, hcs'']
          simp [behindCommas]

theorem items_split {vs : List Json} (h : items item cs = .ok (vs, rest)) :
    ∃ body r, rest = ']' :: r ∧ cs = body ++ rest ∧ IsText ('[' :: body ++ [']']) := by
  cases cs with
  | nil => cases h
  | cons tick clock =>
    rcases itemLoop_eq_ok.mp h with ⟨hat, -⟩ | ⟨cs', v, cs'', vs', hat, hv, hloop, -⟩
    · obtain ⟨blank, hblank, ⟨-, r, hr, hcs⟩ | ⟨hmore, -⟩ | ⟨hmore, -⟩⟩ := atItem_split hat
      · exact ⟨blank, r, hr, hcs, .emptyArray hblank⟩
      · cases hmore
      · cases hmore
    · obtain ⟨blank, hblank, ⟨hmore, -⟩ | ⟨-, -, hcs⟩ | ⟨-, hfirst, -⟩⟩ := atItem_split hat
      · cases hmore
      · obtain ⟨front, hfront, htext⟩ := hitem hv
        obtain ⟨blank', items, r, hblank', hitems, hr, hcs''⟩ := itemLoop_split hitem hloop
        refine ⟨blank ++ front ++ blank' ++ behindCommas items, r, hr, ?_, .array ?_⟩
        · rw [hcs, hfront, hcs'']
          simp
        · exact List.forall_mem_cons.mpr ⟨.spaced hblank htext hblank', hitems⟩
      · cases hfirst

theorem memberLoop_split {clock : List Char} {ms : List (String × Json)}
    (h : memberLoop item clock false cs = .ok (ms, rest)) :
    ∃ (blank : List Char) (members : List (List Char × List Char)) (r : List Char),
      IsBlank blank ∧ (∀ m ∈ members, IsKey m.1) ∧ (∀ m ∈ members, IsText m.2) ∧
      rest = '}' :: r ∧ cs = blank ++ behindCommas (members.map memberText) ++ rest := by
  induction clock generalizing cs ms with
  | nil => cases h
  | cons tick clock ih =>
    rcases memberLoop_eq_ok.mp h with
      ⟨hat, -⟩ | ⟨key, cs₁, cs₂, v, cs₃, ns, hat, hcolon, hv, hloop, -⟩
    · obtain ⟨blank, hblank, ⟨-, r, hr, hcs⟩ | ⟨hkey, -⟩⟩ := atKey_split hat
      · exact ⟨blank, [], r, hblank, nofun, nofun, hr, by simpa [behindCommas] using hcs⟩
      · cases hkey
    · obtain ⟨blank, hblank, ⟨hkey, -⟩ |
          ⟨-, name, hname, ⟨hfirst, -⟩ | ⟨-, blank', hblank', hcs⟩⟩⟩ := atKey_split hat
      · cases hkey
      · cases hfirst
      · obtain ⟨blank'', hcs₁, hblank''⟩ := colon_split hcolon
        obtain ⟨front, hfront, htext⟩ := hitem hv
        obtain ⟨blank₃, members, r, hblank₃, hkeys, hvalues, hr, hcs₃⟩ := ih hloop
        refine ⟨blank, (blank' ++ name ++ blank'', front ++ blank₃) :: members, r, hblank, ?_, ?_,
          hr, ?_⟩
        · exact List.forall_mem_cons.mpr
            ⟨⟨blank', name, blank'', rfl, hblank', hname, hblank''⟩, hkeys⟩
        · exact List.forall_mem_cons.mpr ⟨.spaced isBlank_nil htext hblank₃, hvalues⟩
        · rw [hcs, hcs₁, hfront, hcs₃]
          simp [behindCommas, memberText]

theorem members_split {ms : List (String × Json)} (h : members item cs = .ok (ms, rest)) :
    ∃ body r, rest = '}' :: r ∧ cs = body ++ rest ∧ IsText ('{' :: body ++ ['}']) := by
  cases cs with
  | nil => cases h
  | cons tick clock =>
    rcases memberLoop_eq_ok.mp h with
      ⟨hat, -⟩ | ⟨key, cs₁, cs₂, v, cs₃, ns, hat, hcolon, hv, hloop, -⟩
    · obtain ⟨blank, hblank, ⟨-, r, hr, hcs⟩ | ⟨hkey, -⟩⟩ := atKey_split hat
      · exact ⟨blank, r, hr, hcs, .emptyObject hblank⟩
      · cases hkey
    · obtain ⟨blank, hblank, ⟨hkey, -⟩ | ⟨-, name, hname, ⟨-, hcs⟩ | ⟨hfirst, -⟩⟩⟩ :=
        atKey_split hat
      · cases hkey
      · obtain ⟨blank'', hcs₁, hblank''⟩ := colon_split hcolon
        obtain ⟨front, hfront, htext⟩ := hitem hv
        obtain ⟨blank₃, members, r, hblank₃, hkeys, hvalues, hr, hcs₃⟩ :=
          memberLoop_split hitem hloop
        refine ⟨memberText (blank ++ name ++ blank'', front ++ blank₃) ++
          behindCommas (members.map memberText), r, hr, ?_, .object ?_ ?_⟩
        · rw [hcs, hcs₁, hfront, hcs₃]
          simp [memberText]
        · exact List.forall_mem_cons.mpr
            ⟨⟨blank, name, blank'', rfl, hblank, hname, hblank''⟩, hkeys⟩
        · exact List.forall_mem_cons.mpr ⟨.spaced isBlank_nil htext hblank₃, hvalues⟩
      · cases hfirst

end

theorem valueWith_split {item : Option (Reader Json)}
    (hitem : ∀ read, item = some read → ∀ {cs rest : List Char} {v : Json},
      read cs = .ok (v, rest) → ∃ front, cs = front ++ rest ∧ IsText front) {v : Json}
    (h : valueWith item cs = .ok (v, rest)) : ∃ front, cs = front ++ rest ∧ IsText front := by
  obtain ⟨blank, hcs, hblank⟩ := skipSpace_split cs
  -- a value is read behind its blanks
  have hspaced {front : List Char} (hskip : skipSpace cs = front ++ rest) (htext : IsText front) :
      ∃ front, cs = front ++ rest ∧ IsText front := by
    refine ⟨blank ++ front ++ [], ?_, .spaced hblank htext isBlank_nil⟩
    rw [hcs, hskip]
    simp
  rw [valueWith_eq_valueBy] at h
  rcases valueBy_eq_ok.mp h with ⟨r, read, vs, r', hskip, hread, hvs, hend, -⟩ |
    ⟨r, read, ms, r', hskip, hread, hms, hend, -⟩ | ⟨-, -, hscalar⟩
  · obtain ⟨body, r'', rfl, hr, htext⟩ := items_split (hitem read hread) hvs
    obtain rfl : r'' = rest := (Prod.mk.inj hend).2
    exact hspaced (by rw [hskip, hr]; simp) htext
  · obtain ⟨body, r'', rfl, hr, htext⟩ := members_split (hitem read hread) hms
    obtain rfl : r'' = rest := (Prod.mk.inj hend).2
    exact hspaced (by rw [hskip, hr]; simp) htext
  · obtain ⟨front, hskip, htext⟩ := scalar_split hscalar
    exact hspaced hskip htext

theorem value_split (depth : Nat) {v : Json} (h : value depth cs = .ok (v, rest)) :
    ∃ front, cs = front ++ rest ∧ IsText front := by
  induction depth generalizing cs rest v with
  | zero =>
    apply valueWith_split _ h
    nofun
  | succ depth ih =>
    apply valueWith_split _ h
    rintro read ⟨rfl⟩
    exact ih

end

/-- The reader accepts valid texts only. -/
theorem valid_of_parse {text : String} {v : Json} (h : parse text = .ok v) : Valid text := by
  obtain ⟨rest, hv, hend⟩ := complete_eq_ok.mp h
  obtain ⟨front, htext, hfront⟩ := value_split deepest hv
  obtain ⟨blank, hrest, hblank⟩ := skipSpace_split rest
  have hskip : skipSpace rest = [] := by
    unfold atEnd at hend
    split at hend
    · assumption
    · cases hend
  rw [hskip, List.append_nil] at hrest
  rw [Valid, htext, hrest]
  exact .spaced isBlank_nil hfront hblank

end TreeJudge.Json

import TreeJudge.Options

/-!
# The words of a command line

What a word is told from its dashes: a name behind two of them, with the value behind its
equals sign, or letters behind a single one. All else is a value, a dash alone as well.
-/

set_option autoImplicit false

namespace TreeJudge.Options

inductive Given where
  | setting (setting : Setting) (value : String)
  | verbose
deriving Repr, DecidableEq

def Setting.name : Setting → String
  | .url => "url"
  | .config => "config"

def Setting.letter : Setting → Char
  | .url => 'u'
  | .config => 'c'

/-- The word can stand alone for a value: it is a dash or does not begin with one. -/
def IsValue (v : String) : Prop := v = "-" ∨ v.toList.head? ≠ some '-'

/-- A word behind a single dash: a number of flags and then other characters. -/
def cluster (k : Nat) (behind : List Char) : String :=
  String.ofList ('-' :: (List.replicate k 'v' ++ behind))

theorem Word.of_cases (arg : String) :
    (arg = "--" ∧ Word.of arg = .separator) ∨
      (∃ cs, arg.toList = '-' :: '-' :: cs ∧
        Word.of arg = .name (splitName cs).1 (splitName cs).2) ∨
      (∃ c cs, c ≠ '-' ∧ arg.toList = '-' :: c :: cs ∧ Word.of arg = .letters (c :: cs)) ∨
      IsValue arg ∧ Word.of arg = .value arg := by
  unfold Word.of
  split
  · next hlist => exact .inl ⟨String.toList_inj.mp hlist, rfl⟩
  · next cs hsep hlist => exact .inr (.inl ⟨cs, hlist, rfl⟩)
  · next c cs hsep hname hlist =>
    refine .inr (.inr (.inl ⟨c, cs, ?_, hlist, rfl⟩))
    rintro rfl
    exact hname rfl
  · next hsep hname hletters =>
    refine .inr (.inr (.inr ⟨?_, rfl⟩))
    by_cases hhead : arg.toList.head? = some '-'
    · obtain ⟨cs, hlist⟩ := List.head?_eq_some_iff.mp hhead
      cases cs with
      | nil => exact .inl (String.toList_inj.mp hlist)
      | cons c cs => exact absurd hlist (hletters c cs)
    · exact .inr hhead

theorem Word.of_value {v : String} (h : IsValue v) : Word.of v = .value v := by
  rcases h with rfl | h
  · rfl
  · rcases of_cases v with ⟨rfl, -⟩ | ⟨cs, hlist, -⟩ | ⟨c, cs, -, hlist, -⟩ | ⟨-, hv⟩
    · exact absurd rfl h
    · exact absurd (congrArg List.head? hlist) h
    · exact absurd (congrArg List.head? hlist) h
    · exact hv

theorem Word.of_letters {c : Char} (hc : c ≠ '-') (cs : List Char) :
    Word.of (String.ofList ('-' :: c :: cs)) = .letters (c :: cs) := by
  have hlist : (String.ofList ('-' :: c :: cs)).toList = '-' :: c :: cs := String.toList_ofList
  rcases of_cases (String.ofList ('-' :: c :: cs)) with
    ⟨heq, -⟩ | ⟨ds, heq, -⟩ | ⟨d, ds, -, heq, hw⟩ | ⟨heq | hhead, -⟩
  · rw [heq] at hlist
    cases hlist
    exact absurd rfl hc
  · cases hlist.symm.trans heq
    exact absurd rfl hc
  · cases hlist.symm.trans heq
    exact hw
  · rw [heq] at hlist
    cases hlist
  · rw [hlist] at hhead
    exact absurd rfl hhead

theorem Word.of_flags (k : Nat) :
    Word.of (cluster (k + 1) []) = .letters (List.replicate (k + 1) 'v' ++ []) :=
  of_letters (by decide) _

theorem Word.of_cluster (k : Nat) (s : Setting) (behind : List Char) :
    Word.of (cluster k (s.letter :: behind)) =
      .letters (List.replicate k 'v' ++ s.letter :: behind) := by
  cases k with
  | zero => cases s <;> exact of_letters (by decide) _
  | succ k => exact of_letters (by decide) _

theorem Word.of_dashes {arg : String} {cs : List Char} (h : arg.toList = '-' :: '-' :: cs)
    (hne : cs ≠ []) : Word.of arg = .name (splitName cs).1 (splitName cs).2 := by
  rcases of_cases arg with ⟨rfl, -⟩ | ⟨ds, heq, hw⟩ | ⟨c, ds, hc, heq, hw⟩ | ⟨hv, -⟩
  · cases h
    exact absurd rfl hne
  · rw [h] at heq
    cases heq
    exact hw
  · rw [h] at heq
    cases heq
    exact absurd rfl hc
  · rcases hv with rfl | hhead
    · cases h
    · rw [h] at hhead
      exact absurd rfl hhead

theorem splitName_eq (cs : List Char) :
    cs = (splitName cs).1.toList ++ ((splitName cs).2.elim [] fun v => '=' :: v.toList) := by
  have happend : cs.takeWhile (· != '=') ++ cs.dropWhile (· != '=') = cs :=
    List.takeWhile_append_dropWhile
  have hhead := List.head?_dropWhile_not (· != '=') cs
  rw [splitName]
  cases hdrop : cs.dropWhile (· != '=') with
  | nil => simpa [hdrop] using happend.symm
  | cons c v =>
    rw [hdrop] at hhead happend
    have hc : c = '=' := by simpa using hhead
    rw [hc] at happend
    simpa using happend.symm

theorem splitName_attached {name : List Char} (h : '=' ∉ name) (v : List Char) :
    splitName (name ++ '=' :: v) = (String.ofList name, some (String.ofList v)) := by
  have hother : ∀ c ∈ name, (c != '=') = true := by
    intro c hc
    simpa using ne_of_mem_of_not_mem hc h
  rw [splitName, List.takeWhile_append_of_pos hother, List.dropWhile_append_of_pos hother]
  simp

theorem Word.of_name (s : Setting) : Word.of ("--" ++ s.name) = .name s.name none := by
  cases s <;> decide +kernel

theorem Word.of_attached (s : Setting) (v : String) :
    Word.of ("--" ++ s.name ++ "=" ++ v) = .name s.name (some v) := by
  have hlist : ("--" ++ s.name ++ "=" ++ v).toList =
      '-' :: '-' :: (s.name.toList ++ '=' :: v.toList) := by
    simp
  have hsplit : splitName (s.name.toList ++ '=' :: v.toList) = (s.name, some v) := by
    have hequals : '=' ∉ s.name.toList := by
      cases s <;> decide
    rw [splitName_attached hequals, String.ofList_toList, String.ofList_toList]
  rw [of_dashes hlist (by simp), hsplit]

theorem Word.eq_of_name {arg name : String} {value : Option String}
    (h : Word.of arg = .name name value) :
    (value = none ∧ arg = "--" ++ name) ∨ ∃ v, value = some v ∧ arg = "--" ++ name ++ "=" ++ v := by
  rcases of_cases arg with ⟨-, hw⟩ | ⟨cs, hlist, hw⟩ | ⟨c, cs, -, -, hw⟩ | ⟨-, hw⟩
  · cases h.symm.trans hw
  · obtain ⟨rfl, rfl⟩ := Word.name.inj (h.symm.trans hw)
    have hparts := splitName_eq cs
    cases hvalue : (splitName cs).2 with
    | none =>
      refine .inl ⟨rfl, String.toList_inj.mp ?_⟩
      rw [hvalue] at hparts
      simpa [hlist] using hparts
    | some v =>
      refine .inr ⟨v, rfl, String.toList_inj.mp ?_⟩
      rw [hvalue] at hparts
      simpa [hlist] using hparts
  · cases h.symm.trans hw
  · cases h.symm.trans hw

end TreeJudge.Options

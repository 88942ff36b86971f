import TreeJudge.Proofs.Options.Levels

/-!
# How options are spelled

Options are spelled in phrases: a word that begins with a dash, and the word behind it where
that is its value. A name behind two dashes is one option; behind a single dash any number
of flags may stand before a setting, which takes the rest of the word, with an equals sign
or without, or else the next word. What can be read is exactly what is spelled in phrases,
and reading it gives a level the options of the phrases in order.
-/

set_option autoImplicit false

namespace TreeJudge.Options
open Shape (bind_eq_ok)

inductive Phrase : List String → List Given → Prop
  | flag : Phrase ["--verbose"] [.verbose]
  | long (s : Setting) {v : String} (hv : IsValue v) : Phrase ["--" ++ s.name, v] [.setting s v]
  | longAttached (s : Setting) (v : String) :
      Phrase ["--" ++ s.name ++ "=" ++ v] [.setting s v]
  | flags (k : Nat) : Phrase [cluster (k + 1) []] (List.replicate (k + 1) .verbose)
  | short (k : Nat) (s : Setting) {v : String} (hv : IsValue v) :
      Phrase [cluster k [s.letter], v] (List.replicate k .verbose ++ [.setting s v])
  | shortAttached (k : Nat) (s : Setting) {c : Char} (hc : c ≠ '=') (cs : List Char) :
      Phrase [cluster k (s.letter :: c :: cs)]
        (List.replicate k .verbose ++ [.setting s (String.ofList (c :: cs))])
  | shortEquals (k : Nat) (s : Setting) (v : String) :
      Phrase [cluster k (s.letter :: '=' :: v.toList)]
        (List.replicate k .verbose ++ [.setting s v])

inductive Spells : List String → List Given → Prop
  | nil : Spells [] []
  | cons {ws rest : List String} {gs hs : List Given} (phrase : Phrase ws gs)
      (others : Spells rest hs) : Spells (ws ++ rest) (gs ++ hs)

theorem Phrase.ne_nil {ws : List String} {gs : List Given} (h : Phrase ws gs) : ws ≠ [] := by
  cases h <;> exact List.cons_ne_nil _ _

section
variable {top : Bool} {l m : Level} {arg : String} {args rest ws : List String}
variable {s : Setting} {v : String} {gs : List Given}

theorem setting_eq_give (hl : l.pending = none) :
    l.setting s (some v) = l.give (.setting s v) := by
  rw [Level.setting, Level.settle_of_pending hl]
  rfl

theorem setting_eq_wait (hl : l.pending = none) :
    l.setting s none = .ok { l with pending := some (s, none) } := by
  rw [Level.setting, Level.settle_of_pending hl]
  rfl

theorem raise_eq_give (hl : l.pending = none) : l.raise = l.give .verbose := by
  rw [Level.raise, Level.settle_of_pending hl]
  rfl

theorem named_setting (value : Option String) :
    named top l s.name value = l.setting s value := by
  cases s <;> rfl

theorem letters_setting (cs : List Char) :
    letters top l (s.letter :: cs) = l.setting s (letters.attached cs) := by
  cases s <;> rfl

theorem attached_of_ne {c : Char} (hc : c ≠ '=') (cs : List Char) :
    letters.attached (c :: cs) = some (String.ofList (c :: cs)) := by
  rw [letters.attached]
  · intro h
    cases h
  · intro ds h
    cases h
    exact hc rfl

theorem letters_flags (hl : l.pending = none) (k : Nat) (cs : List Char) :
    letters top l (List.replicate k 'v' ++ cs) =
      l.giveAll (List.replicate k .verbose) >>= fun l => letters top l cs := by
  induction k generalizing l with
  | zero => rfl
  | succ k ih =>
    change (l.raise >>= fun l => letters top l (List.replicate k 'v' ++ cs)) =
      (l.give .verbose >>= fun l => l.giveAll (List.replicate k .verbose)) >>= _
    rw [raise_eq_give hl]
    cases hgive : l.give .verbose with
    | error r => rfl
    | ok m => exact ih (Level.give_pending hl hgive)

theorem reads_attached (pre : List Given) (hl : l.pending = none)
    (h : readLevel top l (arg :: args) =
      (l.giveAll pre >>= fun l => l.setting s (some v)) >>= fun l => readLevel top l args) :
    Reads top l (arg :: args) m rest ↔
      ∃ k, l.giveAll (pre ++ [.setting s v]) = .ok k ∧ Reads top k args m rest := by
  have hact : (l.giveAll pre >>= fun l => l.setting s (some v)) =
      l.giveAll (pre ++ [.setting s v]) := by
    rw [Level.giveAll_append]
    cases hgive : l.giveAll pre with
    | error r => rfl
    | ok k =>
      have hk := Level.giveAll_pending hl hgive
      exact (setting_eq_give hk).trans Level.giveAll_single.symm
  rw [reads_of_act h, hact]

theorem reads_apart (pre : List Given) (hl : l.pending = none) (hv : IsValue v)
    (h : readLevel top l (arg :: v :: args) =
      (l.giveAll pre >>= fun l => l.setting s none) >>= fun l => readLevel top l (v :: args)) :
    Reads top l (arg :: v :: args) m rest ↔
      ∃ k, l.giveAll (pre ++ [.setting s v]) = .ok k ∧ Reads top k args m rest := by
  rw [reads_of_act h, Level.giveAll_append]
  cases hgive : l.giveAll pre with
  | error r => simp [bind, Except.bind]
  | ok k =>
    have hk := Level.giveAll_pending hl hgive
    change (∃ k', k.setting s none = .ok k' ∧ Reads top k' (v :: args) m rest) ↔
      ∃ k', k.giveAll [.setting s v] = .ok k' ∧ Reads top k' args m rest
    rw [setting_eq_wait hk, Level.giveAll_single, ← reads_value hk hv]
    simp

theorem reads_phrase (hl : l.pending = none) (h : Phrase ws gs) :
    Reads top l (ws ++ args) m rest ↔
      ∃ k, l.giveAll gs = .ok k ∧ Reads top k args m rest := by
  cases h with
  | flag =>
    have hword : Word.of "--verbose" = .name "verbose" none := by
      decide +kernel
    have hact : named top l "verbose" none = l.giveAll [.verbose] := by
      rw [Level.giveAll_single]
      exact raise_eq_give hl
    rw [List.singleton_append, reads_of_act (readLevel_name hword), hact]
  | long s hv =>
    apply reads_apart [] hl hv
    rw [readLevel_name (Word.of_name s), named_setting]
    rfl
  | longAttached s v =>
    apply reads_attached [] hl
    rw [readLevel_name (Word.of_attached s v), named_setting]
    rfl
  | flags k =>
    have hact : letters top l (List.replicate (k + 1) 'v' ++ []) =
        l.giveAll (List.replicate (k + 1) .verbose) := by
      rw [letters_flags hl]
      cases l.giveAll (List.replicate (k + 1) .verbose) <;> rfl
    rw [List.singleton_append, reads_of_act (readLevel_letters (Word.of_flags k)), hact]
  | short k s hv =>
    apply reads_apart _ hl hv
    rw [readLevel_letters (Word.of_cluster k s []), letters_flags hl]
    simp only [letters_setting, letters.attached]
  | shortAttached k s hc cs =>
    apply reads_attached _ hl
    rw [readLevel_letters (Word.of_cluster k s _), letters_flags hl]
    simp only [letters_setting, attached_of_ne hc]
  | shortEquals k s v =>
    apply reads_attached _ hl
    rw [readLevel_letters (Word.of_cluster k s _), letters_flags hl]
    simp only [letters_setting, letters.attached, String.ofList_toList]

theorem reads_spelled (hl : l.pending = none) (h : Spells ws gs) :
    Reads top l (ws ++ args) m rest ↔
      ∃ k, l.giveAll gs = .ok k ∧ Reads top k args m rest := by
  induction h generalizing l with
  | nil => simp
  | @cons us vs gs hs phrase others ih =>
    rw [List.append_assoc, reads_phrase hl phrase, Level.giveAll_append]
    simp only [bind_eq_ok]
    constructor
    · rintro ⟨j, hj, hread⟩
      obtain ⟨k, hk, hread⟩ := (ih (Level.giveAll_pending hl hj)).mp hread
      exact ⟨k, ⟨j, hj, hk⟩, hread⟩
    · rintro ⟨k, ⟨j, hj, hk⟩, hread⟩
      exact ⟨j, hj, (ih (Level.giveAll_pending hl hj)).mpr ⟨k, hk, hread⟩⟩

/-- The place ends here, with the words or with a subcommand. -/
def Stops (top : Bool) (rest : List String) : Prop :=
  rest = [] ∨ top = true ∧ ∃ sub behind, rest = sub :: behind ∧ isSubcommand sub

theorem isValue_of_isSubcommand (h : isSubcommand arg) : IsValue arg := by
  simp only [isSubcommand, Bool.or_eq_true, beq_iff_eq] at h
  rcases h with (rfl | rfl) | rfl
  · exact .inr (by decide)
  · exact .inr (by decide)
  · exact .inr (by decide)

theorem reads_of_stops (hl : l.pending = none) (h : Stops top args) :
    Reads top l args m rest ↔ m = l ∧ rest = args := by
  have hread : readLevel top l args = .ok (l, args) := by
    rcases h with rfl | ⟨rfl, sub, behind, rfl, hsub⟩
    · rfl
    · have hword := Word.of_value (isValue_of_isSubcommand hsub)
      rw [readLevel_value (Level.waiting?_of_pending hl) hword, if_pos ⟨rfl, hsub⟩]
  rw [reads_of_end hread, Level.settle_of_pending hl, Except.ok.injEq, eq_comm]

theorem waiting?_of_setting {k : Level} (h : l.setting s none = .ok k) : k.waiting? = some s := by
  obtain ⟨j, -, hk⟩ := bind_eq_ok.mp h
  cases hk
  rfl

theorem ask_ne_ok {wish : Refusal} {k : Level} : l.ask wish ≠ .ok k := by
  intro h
  obtain ⟨_, -, herror⟩ := bind_eq_ok.mp h
  cases herror

theorem named_eq_ok {name : String} {value : Option String} {k : Level}
    (h : named top l name value = .ok k) :
    (∃ s : Setting, name = s.name ∧ l.setting s value = .ok k) ∨
      name = "verbose" ∧ value = none := by
  simp only [named] at h
  split_ifs at h with hurl hconfig hverbose hhelp hversion
  · exact .inl ⟨.url, hurl, h⟩
  · exact .inl ⟨.config, hconfig, h⟩
  · cases value with
    | none => exact .inr ⟨hverbose, rfl⟩
    | some v => cases h
  · cases value with
    | none => exact absurd h ask_ne_ok
    | some v => cases h
  · cases value with
    | none => exact absurd h ask_ne_ok
    | some v => cases h

theorem letters_eq_ok {cs : List Char} {k : Level} (h : letters top l cs = .ok k) :
    (∃ n, cs = List.replicate n 'v') ∨
      ∃ (n : Nat) (s : Setting) (behind : List Char),
        cs = List.replicate n 'v' ++ s.letter :: behind ∧ (behind = [] → k.waiting? = some s) := by
  -- every letter before that of a setting is a flag, so the induction goes on behind flags only
  induction cs generalizing l with
  | nil => exact .inl ⟨0, rfl⟩
  | cons c cs ih =>
    unfold letters at h
    split at h
    · next heq => cases heq
    · next heq =>
      cases heq
      obtain ⟨m, -, hm⟩ := bind_eq_ok.mp h
      rcases ih hm with ⟨n, rfl⟩ | ⟨n, s, behind, rfl, hwait⟩
      · exact .inl ⟨n + 1, rfl⟩
      · exact .inr ⟨n + 1, s, behind, rfl, hwait⟩
    · exact absurd h ask_ne_ok
    · split at h
      · exact absurd h ask_ne_ok
      · cases h
    · next heq =>
      cases heq
      refine .inr ⟨0, .url, cs, rfl, ?_⟩
      rintro rfl
      exact waiting?_of_setting h
    · next heq =>
      cases heq
      refine .inr ⟨0, .config, cs, rfl, ?_⟩
      rintro rfl
      exact waiting?_of_setting h
    · cases h

theorem exists_phrase (hl : l.pending = none) (hbare : "--" ∉ args) (hgoes : ¬ Stops top args)
    (h : Reads top l args m rest) :
    ∃ ws gs behind, args = ws ++ behind ∧ Phrase ws gs := by
  obtain ⟨arg, args, rfl⟩ := List.exists_cons_of_ne_nil fun hnil => hgoes (.inl hnil)
  rcases Word.of_cases arg with ⟨rfl, -⟩ | ⟨cs, -, hw⟩ | ⟨c, cs, -, hlist, hw⟩ | ⟨-, hw⟩
  · exact absurd List.mem_cons_self hbare
  · -- behind two dashes: a value is attached to its setting, or is the next word
    obtain ⟨k, hk, hread⟩ := (reads_of_act (readLevel_name hw)).mp h
    have harg := Word.eq_of_name hw
    generalize (splitName cs).1 = name at hk harg
    generalize (splitName cs).2 = value at hk harg
    rcases named_eq_ok hk with ⟨s, rfl, hset⟩ | ⟨rfl, rfl⟩
    · rcases harg with ⟨rfl, rfl⟩ | ⟨v, rfl, rfl⟩
      · obtain ⟨v, behind, rfl, hv⟩ := value_of_reads (waiting?_of_setting hset) hread
        exact ⟨_, _, behind, rfl, .long s hv⟩
      · exact ⟨_, _, args, rfl, .longAttached s v⟩
    · rcases harg with ⟨-, rfl⟩ | ⟨v, hv, -⟩
      · exact ⟨_, _, args, rfl, .flag⟩
      · cases hv
  · -- behind one dash: flags, and what is behind the letter of a setting is its value
    obtain ⟨k, hk, hread⟩ := (reads_of_act (readLevel_letters hw)).mp h
    have harg : arg = String.ofList ('-' :: c :: cs) := by
      rw [← hlist, String.ofList_toList]
    rw [harg]
    rcases letters_eq_ok hk with ⟨n, hn⟩ | ⟨n, s, behind, hn, hwait⟩
    · rw [hn]
      cases n with
      | zero => cases hn
      | succ n =>
        have hphrase := Phrase.flags n
        rw [cluster, List.append_nil] at hphrase
        exact ⟨_, _, args, rfl, hphrase⟩
    · rw [hn]
      cases behind with
      | nil =>
        obtain ⟨v, behind, rfl, hv⟩ := value_of_reads (hwait rfl) hread
        exact ⟨_, _, behind, rfl, .short n s hv⟩
      | cons d ds =>
        by_cases hd : d = '='
        · rw [hd]
          have hphrase := Phrase.shortEquals n s (String.ofList ds)
          rw [String.toList_ofList] at hphrase
          exact ⟨_, _, args, rfl, hphrase⟩
        · exact ⟨_, _, args, rfl, .shortAttached n s hd ds⟩
  · have hsub : ¬ (top = true ∧ isSubcommand arg) := by
      rintro ⟨htop, hsub⟩
      exact hgoes (.inr ⟨htop, arg, args, rfl, hsub⟩)
    rw [Reads, readLevel_value (Level.waiting?_of_pending hl) hw, if_neg hsub] at h
    obtain ⟨_, herror, -⟩ := h
    cases herror

/-- The words that are read spell the options of the place, up to its end. -/
theorem spells_of_reads (hl : l.pending = none) (hbare : "--" ∉ args)
    (h : Reads top l args m rest) :
    ∃ ws gs, args = ws ++ rest ∧ Spells ws gs ∧ Stops top rest := by
  induction hn : args.length using Nat.strongRecOn generalizing l args with
  | ind n ih =>
    by_cases hstops : Stops top args
    · obtain ⟨-, rfl⟩ := (reads_of_stops hl hstops).mp h
      exact ⟨[], [], rfl, .nil, hstops⟩
    · obtain ⟨ws, gs, behind, rfl, hphrase⟩ := exists_phrase hl hbare hstops h
      obtain ⟨k, hk, hread⟩ := (reads_phrase hl hphrase).mp h
      -- a phrase has at least one word, so fewer are left behind it
      have hshorter : behind.length < n := by
        have hpos := List.length_pos_iff.mpr hphrase.ne_nil
        rw [List.length_append] at hn
        omega
      have hbare' : "--" ∉ behind := fun hmem => hbare (List.mem_append_right ws hmem)
      obtain ⟨vs, hs, rfl, hspells, hrest⟩ :=
        ih behind.length hshorter (Level.giveAll_pending hl hk) hbare' hread rfl
      exact ⟨ws ++ vs, gs ++ hs, (List.append_assoc ws vs rest).symm, .cons hphrase hspells, hrest⟩

end

end TreeJudge.Options

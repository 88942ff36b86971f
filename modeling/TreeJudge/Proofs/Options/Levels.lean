import TreeJudge.Proofs.Shape.Kept
import TreeJudge.Proofs.Options.Words
import Mathlib.Tactic.SplitIfs

/-!
# What a place holds

One setting is held back while a place is read, until the next option or the end of the
place is reached. For a reading that succeeds this makes no difference: what is held back may
be stored at once.
-/

set_option autoImplicit false

namespace TreeJudge.Options
open Shape (bind_eq_ok)

namespace Level
variable {l m : Level} {g : Given} {gs hs : List Given} {s : Setting} {v : String}

def give (l : Level) : Given → Except Refusal Level
  | .setting s v => l.store s v
  | .verbose => if l.verbose then .error .argumentConflict else .ok { l with verbose := true }

def giveAll (l : Level) (gs : List Given) : Except Refusal Level := gs.foldlM give l

@[simp] theorem giveAll_nil : l.giveAll [] = .ok l := rfl

theorem giveAll_cons : l.giveAll (g :: gs) = (do let m ← l.give g; m.giveAll gs) := rfl

theorem giveAll_append : l.giveAll (gs ++ hs) = (do let m ← l.giveAll gs; m.giveAll hs) :=
  List.foldlM_append

theorem giveAll_single : l.giveAll [g] = l.give g := by
  rw [giveAll_cons]
  cases l.give g <;> rfl

theorem waiting?_of_pending (h : l.pending = none) : l.waiting? = none := by
  rw [waiting?, h]

theorem settle_of_pending (h : l.pending = none) : l.settle = .ok l := by
  rw [settle, h]

theorem settle_held (h : l.pending = none) :
    { l with pending := some (s, some v) }.settle = l.give (.setting s v) := by
  cases l
  cases h
  rfl

theorem settle_waiting (h : l.waiting? = some s) : l.settle = .error .invalidValue := by
  rw [waiting?] at h
  rw [settle]
  split at h
  · next heq => rw [heq]
  · cases h

theorem store_pending (h : l.pending = none) (hstore : l.store s v = .ok m) :
    m.pending = none := by
  cases s
  all_goals
    rw [store] at hstore
    split_ifs at hstore
    cases hstore
    exact h

theorem give_pending (h : l.pending = none) (hgive : l.give g = .ok m) : m.pending = none := by
  cases g with
  | setting s v => exact store_pending h hgive
  | verbose =>
    rw [give] at hgive
    split_ifs at hgive
    cases hgive
    exact h

theorem giveAll_pending (h : l.pending = none) (hgive : l.giveAll gs = .ok m) :
    m.pending = none := by
  induction gs generalizing l with
  | nil =>
    cases hgive
    exact h
  | cons g gs ih =>
    obtain ⟨k, hk, hrest⟩ := bind_eq_ok.mp hgive
    exact ih (give_pending h hk) hrest

theorem settle_pending (h : l.settle = .ok m) : m.pending = none := by
  rw [settle] at h
  split at h
  · next hnone =>
    cases h
    exact hnone
  · cases h
  · exact store_pending rfl h

end Level

def Settles (act : Level → Except Refusal Level) : Prop :=
  ∀ l l', act l = .ok l' ↔ ∃ m, l.settle = .ok m ∧ act m = .ok l'

theorem settles_settle (f : Level → Except Refusal Level) : Settles (fun l => l.settle >>= f) := by
  intro l l'
  rw [bind_eq_ok]
  apply exists_congr
  intro m
  apply and_congr_right
  intro hm
  change f m = .ok l' ↔ (m.settle >>= f) = .ok l'
  rw [Level.settle_of_pending (Level.settle_pending hm)]
  rfl

theorem settles_error (r : Refusal) : Settles (fun _ => .error r) := by
  intro l l'
  simp

theorem Settles.bind {act : Level → Except Refusal Level} (h : Settles act)
    (f : Level → Except Refusal Level) : Settles (fun l => act l >>= f) := by
  intro l l'
  simp only [bind_eq_ok, h l]
  constructor
  · rintro ⟨k, ⟨m, hm, hact⟩, hf⟩
    exact ⟨m, hm, k, hact, hf⟩
  · rintro ⟨m, hm, k, hact, hf⟩
    exact ⟨k, ⟨m, hm, hact⟩, hf⟩

theorem raise_settles : Settles Level.raise :=
  settles_settle fun l => l.give .verbose

theorem ask_settles (wish : Refusal) : Settles (Level.ask · wish) :=
  settles_settle fun _ => .error wish

theorem setting_settles (s : Setting) (value : Option String) :
    Settles (Level.setting · s value) := by
  cases value with
  | none => exact settles_settle fun l => .ok { l with pending := some (s, none) }
  | some v => exact settles_settle fun l => l.store s v

theorem Settles.ite {p : Prop} [Decidable p] {act other : Level → Except Refusal Level}
    (hact : Settles act) (hother : Settles other) :
    Settles (fun l => if p then act l else other l) := by
  by_cases hp : p
  · simpa only [if_pos hp] using hact
  · simpa only [if_neg hp] using hother

theorem named_settles (top : Bool) (name : String) (value : Option String) :
    Settles (named top · name value) := by
  cases value with
  | none =>
    apply Settles.ite (setting_settles .url none)
    apply Settles.ite (setting_settles .config none)
    apply Settles.ite raise_settles
    apply Settles.ite (ask_settles .displayHelp)
    exact Settles.ite (ask_settles .displayVersion) (settles_error .unknownArgument)
  | some v =>
    have hmany := settles_error .tooManyValues
    apply Settles.ite (setting_settles .url (some v))
    apply Settles.ite (setting_settles .config (some v))
    exact Settles.ite hmany (Settles.ite hmany (Settles.ite hmany (settles_error .unknownArgument)))

theorem letters_settles (top : Bool) (c : Char) (cs : List Char) :
    Settles (letters top · (c :: cs)) := by
  unfold letters
  split
  · next heq => cases heq
  · next heq => exact raise_settles.bind _
  · exact ask_settles .displayHelp
  · exact Settles.ite (ask_settles .displayVersion) (settles_error .unknownArgument)
  · exact setting_settles .url _
  · exact setting_settles .config _
  · exact settles_error .unknownArgument

/-- Read from a level to the end of its place: what it holds there, and the words that are
left. -/
def Reads (top : Bool) (l : Level) (args : List String) (m : Level) (rest : List String) : Prop :=
  ∃ l', readLevel top l args = .ok (l', rest) ∧ l'.settle = .ok m

section
variable {top : Bool} {l m : Level} {arg : String} {args rest : List String} {s : Setting}

theorem reads_of_end (h : readLevel top l args = .ok (l, rest)) {rest' : List String} :
    Reads top l args m rest' ↔ l.settle = .ok m ∧ rest' = rest := by
  rw [Reads, h]
  constructor
  · rintro ⟨l', hl, hm⟩
    cases hl
    exact ⟨hm, rfl⟩
  · rintro ⟨hm, rfl⟩
    exact ⟨l, rfl, hm⟩

theorem reads_of_act {act : Except Refusal Level}
    (h : readLevel top l (arg :: args) = act >>= fun l => readLevel top l args) :
    Reads top l (arg :: args) m rest ↔ ∃ k, act = .ok k ∧ Reads top k args m rest := by
  simp only [Reads, h, bind_eq_ok]
  constructor
  · rintro ⟨l', ⟨k, hact, hread⟩, hm⟩
    exact ⟨k, hact, l', hread, hm⟩
  · rintro ⟨k, hact, l', hread, hm⟩
    exact ⟨l', ⟨k, hact, hread⟩, hm⟩

theorem not_reads_of_error {r : Refusal} (h : readLevel top l args = .error r) :
    ¬ Reads top l args m rest := by
  rintro ⟨l', hread, -⟩
  cases h.symm.trans hread

theorem readLevel_name {name : String} {value : Option String}
    (h : Word.of arg = .name name value) :
    readLevel top l (arg :: args) =
      named top l name value >>= fun l => readLevel top l args := by
  rw [readLevel.eq_def]
  simp only [h]

theorem readLevel_letters {cs : List Char} (h : Word.of arg = .letters cs) :
    readLevel top l (arg :: args) = letters top l cs >>= fun l => readLevel top l args := by
  rw [readLevel.eq_def]
  simp only [h]

theorem readLevel_separator (h : Word.of arg = .separator) :
    readLevel top l [arg] = .ok (l, []) := by
  rw [readLevel.eq_def]
  simp only [h]

theorem readLevel_separated (h : Word.of arg = .separator) (next : String) :
    readLevel top l (arg :: next :: args) = .error (stray top true next) := by
  rw [readLevel.eq_def]
  simp only [h]

theorem readLevel_value {v : String} (hl : l.waiting? = none) (h : Word.of arg = .value v) :
    readLevel top l (arg :: args) =
      if top ∧ isSubcommand v then .ok (l, arg :: args) else .error (stray top false v) := by
  rw [readLevel.eq_def]
  simp only [hl, h]

theorem readLevel_taken {v : String} (hl : l.waiting? = some s) (h : Word.of arg = .value v) :
    readLevel top l (arg :: args) = readLevel top { l with pending := some (s, some v) } args := by
  rw [readLevel.eq_def]
  simp only [hl, h]

theorem reads_settled_of_end {left : List String}
    (h : ∀ k : Level, k.waiting? = none → readLevel top k args = .ok (k, left))
    (hl : l.waiting? = none) :
    Reads top l args m rest ↔ ∃ k, l.settle = .ok k ∧ Reads top k args m rest := by
  have hread {k : Level} (hk : l.settle = .ok k) :
      Reads top k args m rest ↔ m = k ∧ rest = left := by
    have hpending := Level.settle_pending hk
    rw [reads_of_end (h k (Level.waiting?_of_pending hpending)),
      Level.settle_of_pending hpending, Except.ok.injEq, eq_comm]
  rw [reads_of_end (h l hl)]
  constructor
  · rintro ⟨hm, hrest⟩
    exact ⟨m, hm, (hread hm).mpr ⟨rfl, hrest⟩⟩
  · rintro ⟨k, hk, h⟩
    obtain ⟨rfl, hrest⟩ := (hread hk).mp h
    exact ⟨hk, hrest⟩

theorem reads_settled_of_act {act : Level → Except Refusal Level} (hact : Settles act)
    (h : ∀ k, readLevel top k (arg :: args) = act k >>= fun l => readLevel top l args) :
    Reads top l (arg :: args) m rest ↔
      ∃ k, l.settle = .ok k ∧ Reads top k (arg :: args) m rest := by
  simp only [reads_of_act (h _), hact l]
  constructor
  · rintro ⟨j, ⟨k, hk, hj⟩, hread⟩
    exact ⟨k, hk, j, hj, hread⟩
  · rintro ⟨k, hk, j, hj, hread⟩
    exact ⟨j, ⟨k, hk, hj⟩, hread⟩

theorem reads_settled_of_error {r : Refusal}
    (h : ∀ k : Level, k.waiting? = none → readLevel top k args = .error r)
    (hl : l.waiting? = none) :
    Reads top l args m rest ↔ ∃ k, l.settle = .ok k ∧ Reads top k args m rest := by
  constructor
  · intro hread
    exact absurd hread (not_reads_of_error (h l hl))
  · rintro ⟨k, hk, hread⟩
    have hwaiting := Level.waiting?_of_pending (Level.settle_pending hk)
    exact absurd hread (not_reads_of_error (h k hwaiting))

theorem reads_settled (hl : l.waiting? = none) :
    Reads top l args m rest ↔ ∃ k, l.settle = .ok k ∧ Reads top k args m rest := by
  cases args with
  | nil => exact reads_settled_of_end (fun _ _ => rfl) hl
  | cons arg args =>
    -- the first word ends the reading, is a mistake, or acts on the level
    rcases Word.of_cases arg with ⟨-, hw⟩ | ⟨cs, -, hw⟩ | ⟨c, cs, -, -, hw⟩ | ⟨-, hw⟩
    · cases args with
      | nil => exact reads_settled_of_end (fun _ _ => readLevel_separator hw) hl
      | cons next args =>
        exact reads_settled_of_error (fun _ _ => readLevel_separated hw next) hl
    · exact reads_settled_of_act (named_settles top _ _) fun _ => readLevel_name hw
    · exact reads_settled_of_act (letters_settles top c cs) fun _ => readLevel_letters hw
    · by_cases hsub : top ∧ isSubcommand arg
      · have hend (k : Level) (hk : k.waiting? = none) :
            readLevel top k (arg :: args) = .ok (k, arg :: args) := by
          rw [readLevel_value hk hw, if_pos hsub]
        exact reads_settled_of_end hend hl
      · have herror (k : Level) (hk : k.waiting? = none) :
            readLevel top k (arg :: args) = .error (stray top false arg) := by
          rw [readLevel_value hk hw, if_neg hsub]
        exact reads_settled_of_error herror hl

theorem reads_value (hl : l.pending = none) {v : String} (hv : IsValue v) :
    Reads top { l with pending := some (s, none) } (v :: args) m rest ↔
      ∃ k, l.give (.setting s v) = .ok k ∧ Reads top k args m rest := by
  rw [← Level.settle_held hl, ← reads_settled rfl, Reads,
    readLevel_taken rfl (Word.of_value hv), Reads]

theorem value_of_reads (hl : l.waiting? = some s) (h : Reads top l args m rest) :
    ∃ v behind, args = v :: behind ∧ IsValue v := by
  have hunsettled {act : Level → Except Refusal Level} (hact : Settles act) {k : Level} :
      act l ≠ .ok k := by
    intro hk
    obtain ⟨j, hj, -⟩ := (hact l k).mp hk
    cases (Level.settle_waiting hl).symm.trans hj
  cases args with
  | nil =>
    obtain ⟨hm, -⟩ := (reads_of_end rfl).mp h
    cases (Level.settle_waiting hl).symm.trans hm
  | cons arg args =>
    rcases Word.of_cases arg with ⟨-, hw⟩ | ⟨cs, -, hw⟩ | ⟨c, cs, -, -, hw⟩ | ⟨hv, -⟩
    · cases args with
      | nil =>
        obtain ⟨hm, -⟩ := (reads_of_end (readLevel_separator hw)).mp h
        cases (Level.settle_waiting hl).symm.trans hm
      | cons next args => exact absurd h (not_reads_of_error (readLevel_separated hw next))
    · obtain ⟨k, hk, -⟩ := (reads_of_act (readLevel_name hw)).mp h
      exact absurd hk (hunsettled (named_settles top _ _))
    · obtain ⟨k, hk, -⟩ := (reads_of_act (readLevel_letters hw)).mp h
      exact absurd hk (hunsettled (letters_settles top c cs))
    · exact ⟨arg, args, rfl, hv⟩

end

end TreeJudge.Options

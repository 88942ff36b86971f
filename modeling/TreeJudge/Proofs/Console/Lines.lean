import Mathlib.Data.List.DropRight
import TreeJudge.App
import TreeJudge.Proofs.Connection.Delivery

/-!
# Lines of the operator

A line is a command when it is one of thirteen words, whatever blanks stand around it and
in letters of either case; both are forgotten before the word is looked up. Lines are taken
in order up to the first that quits: those that are commands are obeyed, and each of those
that are neither commands nor blank is answered with the help.
-/

set_option autoImplicit false

namespace TreeJudge

namespace Text
variable {before cs after : List Char}

theorem trimEnd_append (h : ∀ c ∈ after, isBlank c = true) :
    trimEnd (cs ++ after) = trimEnd cs := by
  have hreverse : ∀ c ∈ after.reverse, isBlank c = true := by simpa using h
  rw [trimEnd, trimEnd, List.reverse_append, List.dropWhile_append_of_pos hreverse]

theorem trim_padded (hbefore : ∀ c ∈ before, isBlank c = true)
    (hafter : ∀ c ∈ after, isBlank c = true) : trim (before ++ cs ++ after) = trim cs := by
  rw [trim, trim, trimStart, trimStart, List.append_assoc,
    List.dropWhile_append_of_pos hbefore, List.dropWhile_append]
  split
  · next hempty =>
    have hnone : after.dropWhile isBlank = [] := List.dropWhile_eq_nil_iff.mpr hafter
    rw [hnone, List.isEmpty_iff.mp hempty]
  · exact trimEnd_append hafter

theorem exists_padding (cs : List Char) :
    ∃ before after, cs = before ++ trim cs ++ after ∧ (∀ c ∈ before, isBlank c = true) ∧
      ∀ c ∈ after, isBlank c = true := by
  refine ⟨cs.takeWhile isBlank, (trimStart cs).rtakeWhile isBlank, ?_, ?_, ?_⟩
  · have hend : trim cs ++ (trimStart cs).rtakeWhile isBlank = trimStart cs :=
      List.rdropWhile_append_rtakeWhile
    rw [List.append_assoc, hend]
    exact List.takeWhile_append_dropWhile.symm
  · exact fun c => List.mem_takeWhile_imp
  · exact fun c => List.mem_rtakeWhile_imp

theorem isCapital_iff (c : Char) : ('A' ≤ c ∧ c ≤ 'Z') ↔ 65 ≤ c.toNat ∧ c.toNat ≤ 90 := by
  simp only [Char.le_def, UInt32.le_iff_toNat_le]
  rfl

theorem toNat_lowerAscii (c : Char) :
    (lowerAscii c).toNat = if 65 ≤ c.toNat ∧ c.toNat ≤ 90 then c.toNat + 32 else c.toNat := by
  simp only [lowerAscii, isCapital_iff]
  split
  · next h =>
    have hvalid : (c.toNat + 32).isValidChar := .inl (by omega)
    have hchar : Char.ofNat (c.toNat + 32) = Char.ofNatAux (c.toNat + 32) hvalid := dif_pos hvalid
    rw [hchar]
    rfl
  · rfl

theorem lowerAscii_eq_toLower (c : Char) : lowerAscii c = c.toLower := by
  apply Char.toNat_inj.mp
  have hcapital : (c.val ≥ 'A'.val ∧ c.val ≤ 'Z'.val) ↔ 65 ≤ c.toNat ∧ c.toNat ≤ 90 :=
    isCapital_iff c
  rw [toNat_lowerAscii]
  by_cases h : 65 ≤ c.toNat ∧ c.toNat ≤ 90
  · have hlower : c.toLower = ⟨c.val + ('a'.val - 'A'.val), _⟩ := dif_pos (hcapital.mpr h)
    rw [if_pos h, hlower]
    change c.toNat + 32 = (c.toNat + 32) % 4294967296
    omega
  · have hlower : c.toLower = c := dif_neg (mt hcapital.mp h)
    rw [if_neg h, hlower]

theorem isBlank_lowerAscii (c : Char) : isBlank (lowerAscii c) = isBlank c := by
  simp only [isBlank, toNat_lowerAscii]
  split
  · next h =>
    rw [Bool.eq_iff_iff]
    simp only [Bool.or_eq_true, Bool.and_eq_true, decide_eq_true_eq, beq_iff_eq]
    omega
  · rfl

theorem map_lowerAscii_trim (cs : List Char) :
    (trim cs).map lowerAscii = trim (cs.map lowerAscii) := by
  have hblank : isBlank ∘ lowerAscii = isBlank := funext isBlank_lowerAscii
  rw [trim, trim, trimEnd, trimEnd, trimStart, trimStart, List.dropWhile_map, hblank,
    ← List.map_reverse, List.dropWhile_map, hblank, ← List.map_reverse]

end Text

namespace Command
open Text

/-- Blanks, the letters of the word in either case, and blanks. -/
def Spells (line word : String) : Prop :=
  ∃ before body after, line.toList = before ++ body ++ after ∧
    (∀ c ∈ before, isBlank c = true) ∧ (∀ c ∈ after, isBlank c = true) ∧
    body.map Char.toLower = word.toList

def names : Command → List String
  | .feedback .yes => ["y", "yes"]
  | .feedback .no => ["n", "no"]
  | .view .info => ["i", "info"]
  | .view .tree => ["t", "tree"]
  | .view .status => ["s", "status"]
  | .quit => ["q", "quit", "exit"]

theorem mem_words_iff (w : String) (c : Command) : (w, c) ∈ words ↔ w ∈ c.names := by
  cases c with
  | feedback a => cases a <;> simp [words, names]
  | view v => cases v <;> simp [words, names]
  | quit => simp [words, names]

theorem words_trimmed : ∀ w ∈ words, trim w.1.toList = w.1.toList := by decide

theorem words_nonempty : ∀ w ∈ words, w.1.toList ≠ [] := by decide

theorem words_ascii : ∀ w ∈ words, w.1.toList.all (·.toNat < 128) = true := by decide

theorem words_distinct : ∀ w ∈ words, ∀ w' ∈ words, w.1 = w'.1 → w = w' := by decide

theorem word_eq (line : String) : word line = trim (line.toList.map lowerAscii) :=
  map_lowerAscii_trim line.toList

theorem word_eq_iff {w : String × Command} (hw : w ∈ words) (line : String) :
    w.1.toList = word line ↔ Spells line w.1 := by
  have hlower : Char.toLower = lowerAscii := (funext lowerAscii_eq_toLower).symm
  constructor
  · intro h
    obtain ⟨before, after, hline, hbefore, hafter⟩ := exists_padding line.toList
    exact ⟨before, trim line.toList, after, hline, hbefore, hafter, by rw [hlower, h, word]⟩
  · rintro ⟨before, body, after, hline, hbefore, hafter, hbody⟩
    rw [word, hline, trim_padded hbefore hafter, map_lowerAscii_trim, ← hlower, hbody,
      words_trimmed w hw]

theorem parse?_eq_some_iff_word (line : String) (c : Command) :
    parse? line = some c ↔ ∃ w, (w, c) ∈ words ∧ w.toList = word line := by
  simp only [parse?, Option.map_eq_some_iff]
  constructor
  · rintro ⟨w, hfind, rfl⟩
    exact ⟨w.1, List.mem_of_find?_eq_some hfind, by simpa using List.find?_some hfind⟩
  · rintro ⟨w, hw, hword⟩
    have hsome : (words.find? fun w => w.1.toList == word line).isSome :=
      List.find?_isSome.mpr ⟨(w, c), hw, by simpa using hword⟩
    obtain ⟨w', hfind⟩ := Option.isSome_iff_exists.mp hsome
    have hword' : w'.1.toList = word line := by simpa using List.find?_some hfind
    have hsame := words_distinct w' (List.mem_of_find?_eq_some hfind) (w, c) hw
      (String.toList_inj.mp (hword'.trans hword.symm))
    exact ⟨w', hfind, by rw [hsame]⟩

theorem parse?_eq_some_iff (line : String) (c : Command) :
    parse? line = some c ↔ ∃ w, (w, c) ∈ words ∧ Spells line w := by
  rw [parse?_eq_some_iff_word]
  exact exists_congr fun w => and_congr_right fun hw => word_eq_iff hw line

theorem parse?_congr {line line' : String} (h : word line = word line') :
    parse? line = parse? line' := by
  rw [parse?, parse?, h]

theorem parse?_padded {line line' : String} {before cs after : List Char}
    (hline : line'.toList = before ++ cs ++ after) (hbefore : ∀ c ∈ before, isBlank c = true)
    (hafter : ∀ c ∈ after, isBlank c = true)
    (hcase : cs.map Char.toLower = line.toList.map Char.toLower) :
    parse? line' = parse? line := by
  rw [← funext lowerAscii_eq_toLower] at hcase
  apply parse?_congr
  rw [word, hline, trim_padded hbefore hafter, map_lowerAscii_trim, hcase, word_eq]

theorem parse?_of_not_ascii {line : String} {c : Char} (hc : c ∈ trim line.toList)
    (hascii : 128 ≤ c.toNat) : parse? line = none := by
  apply Option.eq_none_iff_forall_ne_some.mpr
  intro command h
  obtain ⟨w, hw, hword⟩ := (parse?_eq_some_iff_word line command).mp h
  have hlower : (lowerAscii c).toNat = c.toNat := by
    rw [toNat_lowerAscii, if_neg (by omega)]
  have hmem : lowerAscii c ∈ w.toList := hword ▸ List.mem_map_of_mem hc
  have hsmall := List.all_eq_true.mp (words_ascii _ hw) _ hmem
  rw [decide_eq_true_eq, hlower] at hsmall
  omega

theorem parse?_of_blank {line : String} (h : trim line.toList = []) : parse? line = none := by
  apply Option.eq_none_iff_forall_ne_some.mpr
  intro command hcommand
  obtain ⟨w, hw, hword⟩ := (parse?_eq_some_iff_word line command).mp hcommand
  rw [word, h] at hword
  exact words_nonempty _ hw hword

end Command

def beforeQuit (lines : List String) : List String :=
  lines.takeWhile fun l => Command.parse? l ≠ some .quit

/-- The line is neither blank nor a command. -/
def isPuzzling (line : String) : Bool :=
  Text.trim line.toList ≠ [] && Command.parse? line = none

theorem Entry.ofLine_of_some {line : String} {c : Command} (h : Command.parse? line = some c) :
    ofLine line = .command c := by
  have hblank : (Text.trim line.toList).isEmpty ≠ true := by
    intro hempty
    rw [Command.parse?_of_blank (List.isEmpty_iff.mp hempty)] at h
    cases h
  rw [ofLine, if_neg hblank, h]

theorem Entry.ofLine_of_none {line : String} (h : Command.parse? line = none) :
    ofLine line = if isPuzzling line then .unknown else .blank := by
  rw [ofLine, h]
  by_cases hblank : Text.trim line.toList = []
  · simp [isPuzzling, hblank]
  · simp [isPuzzling, hblank, h]

section
variable {l : String} (ls : List String)

theorem beforeQuit_quit (h : Command.parse? l = some .quit) : beforeQuit (l :: ls) = [] :=
  List.takeWhile_cons_of_neg (by simp [h])

theorem beforeQuit_cons (h : Command.parse? l ≠ some .quit) :
    beforeQuit (l :: ls) = l :: beforeQuit ls :=
  List.takeWhile_cons_of_pos (by simp [h])

theorem Entry.untilQuit_cons {e : Entry} (h : e ≠ .command .quit) (es : List Entry) :
    untilQuit (e :: es) = e :: untilQuit es := by
  rw [untilQuit]
  exact h

theorem readLines_quit (h : Command.parse? l = some .quit) :
    readLines (l :: ls) = ([.quit], 0) := by
  rw [readLines, List.map_cons, Entry.ofLine_of_some h]
  rfl

theorem readLines_cons (h : Command.parse? l ≠ some .quit) :
    readLines (l :: ls) =
      ((Command.parse? l).toList ++ (readLines ls).1,
        (readLines ls).2 + if isPuzzling l then 1 else 0) := by
  cases hparse : Command.parse? l with
  | none =>
    rw [readLines, List.map_cons, Entry.ofLine_of_none hparse]
    cases hpuzzling : isPuzzling l with
    | true => simp [readLines, Entry.untilQuit_cons]
    | false => simp [readLines, Entry.untilQuit_cons]
  | some c =>
    have hc : c ≠ .quit := fun hc => h (hc ▸ hparse)
    rw [readLines, List.map_cons, Entry.ofLine_of_some hparse, Entry.untilQuit_cons (by simp [hc])]
    simp [readLines, isPuzzling, hparse]

end

theorem commands_readLines (lines : List String) :
    (readLines lines).1 =
      (lines.take ((beforeQuit lines).length + 1)).filterMap Command.parse? := by
  induction lines with
  | nil => rfl
  | cons l ls ih =>
    by_cases h : Command.parse? l = some .quit
    · rw [readLines_quit ls h, beforeQuit_quit ls h]
      simp [h]
    · rw [readLines_cons ls h, beforeQuit_cons ls h, List.length_cons, List.take_succ_cons,
        List.filterMap_cons, ih]
      cases Command.parse? l <;> rfl

theorem helps_readLines (lines : List String) :
    (readLines lines).2 = (beforeQuit lines).countP isPuzzling := by
  induction lines with
  | nil => rfl
  | cons l ls ih =>
    by_cases h : Command.parse? l = some .quit
    · rw [readLines_quit ls h, beforeQuit_quit ls h]
      rfl
    · rw [readLines_cons ls h, beforeQuit_cons ls h, List.countP_cons, ih]

namespace App
variable (r : Relay)

theorem transcript_quit {l : String} (h : Command.parse? l = some .quit) (acts : List Act) :
    transcript r (.line l :: acts) = ([], r) := by
  rw [transcript, Entry.ofLine_of_some h]

theorem transcript_command {l : String} {c : Command} (h : Command.parse? l = some c)
    (hc : c ≠ .quit) (acts : List Act) :
    transcript r (.line l :: acts) =
      let next := r.turn (.command c)
      (Piece.writeAll false (shown r next) :: (transcript next acts).1,
        (transcript next acts).2) := by
  rw [transcript, Entry.ofLine_of_some h]
  cases c with
  | quit => exact absurd rfl hc
  | _ => rfl

theorem transcript_other {l : String} (h : Command.parse? l = none) (acts : List Act) :
    transcript r (.line l :: acts) =
      ((if isPuzzling l then Command.help ++ "\n" else "") :: (transcript r acts).1,
        (transcript r acts).2) := by
  rw [transcript, Entry.ofLine_of_none h]
  cases isPuzzling l <;> rfl

theorem relay_transcript (lines : List String) :
    (transcript r (lines.map .line)).2 = r.run ((readLines lines).1.map .command) := by
  induction lines generalizing r with
  | nil => rfl
  | cons l ls ih =>
    rw [List.map_cons]
    cases hparse : Command.parse? l with
    | none =>
      rw [transcript_other r hparse, readLines_cons ls (by simp [hparse]), hparse]
      exact ih r
    | some c =>
      by_cases hc : c = .quit
      · subst hc
        rw [transcript_quit r hparse, readLines_quit ls hparse]
        rfl
      · have hgoes : Turn.goesOn (.command c) = true := by
          cases c with
          | quit => exact absurd rfl hc
          | _ => rfl
        rw [transcript_command r hparse hc, readLines_cons ls (by simp [hparse, hc]), hparse,
          Option.toList_some, List.singleton_append, List.map_cons, Relay.run_cons,
          if_pos hgoes]
        exact ih (r.turn (.command c))

theorem texts_transcript (lines : List String) :
    List.Forall₂
      (fun l text => Command.parse? l = none →
        text = if isPuzzling l then Command.help ++ "\n" else "")
      (beforeQuit lines) (transcript r (lines.map .line)).1 := by
  induction lines generalizing r with
  | nil => exact .nil
  | cons l ls ih =>
    rw [List.map_cons]
    cases hparse : Command.parse? l with
    | none =>
      rw [transcript_other r hparse, beforeQuit_cons ls (by simp [hparse])]
      exact .cons (fun _ => rfl) (ih r)
    | some c =>
      by_cases hc : c = .quit
      · subst hc
        rw [transcript_quit r hparse, beforeQuit_quit ls hparse]
        exact .nil
      · rw [transcript_command r hparse hc, beforeQuit_cons ls (by simp [hparse, hc])]
        exact .cons (fun hnone => by simp [hparse] at hnone) (ih _)

end App

/-- Of all lines those up to the first that quits are heeded: the commands among them are
obeyed in order, and each of them that is neither blank nor a command is answered with the
help once, in a run as well. A line is a command when it spells one of thirteen words;
blanks around it and the case of its letters do not count, but any other character does. -/
theorem lines_up_to_quit_are_heeded (lines : List String) (r : Relay) :
    (readLines lines).1 =
        (lines.take ((beforeQuit lines).length + 1)).filterMap Command.parse? ∧
      (readLines lines).2 = (beforeQuit lines).countP isPuzzling ∧
      (App.transcript r (lines.map .line)).2 = r.run ((readLines lines).1.map .command) ∧
      List.Forall₂
        (fun l text => Command.parse? l = none →
          text = if isPuzzling l then Command.help ++ "\n" else "")
        (beforeQuit lines) (App.transcript r (lines.map .line)).1 ∧
      (∀ line c, Command.parse? line = some c ↔
        ∃ w, (w, c) ∈ Command.words ∧ Command.Spells line w) ∧
      Command.words.map (·.1) =
        ["y", "yes", "n", "no", "i", "info", "t", "tree", "s", "status", "q", "quit", "exit"] ∧
      (∀ line c, Command.parse? line = some c ↔ ∃ w ∈ c.names, Command.Spells line w) ∧
      (∀ (line line' : String) (before cs after : List Char),
        line'.toList = before ++ cs ++ after → (∀ c ∈ before, Text.isBlank c = true) →
        (∀ c ∈ after, Text.isBlank c = true) →
        cs.map Char.toLower = line.toList.map Char.toLower →
        Command.parse? line' = Command.parse? line) ∧
      ∀ line : String, ∀ c ∈ Text.trim line.toList, 128 ≤ c.toNat →
        Command.parse? line = none := by
  refine ⟨commands_readLines lines, helps_readLines lines, App.relay_transcript r lines,
    App.texts_transcript r lines, Command.parse?_eq_some_iff, rfl, ?_, ?_, ?_⟩
  · intro line c
    simp only [Command.parse?_eq_some_iff, Command.mem_words_iff]
  · intro line line' before cs after hline hbefore hafter hcase
    exact Command.parse?_padded hline hbefore hafter hcase
  · intro line c hc hascii
    exact Command.parse?_of_not_ascii hc hascii

def strangeLines : List String := ["  YES ", "maybe", " ", "\u017Ftatus", "\u2003Quit\t", "no"]

theorem strange_lines_are_heeded :
    (readLines strangeLines).1 = [.feedback .yes, .quit] ∧ (readLines strangeLines).2 = 2 ∧
      Command.parse? "\u2003Quit\t" = Command.parse? "quit" ∧
      Command.parse? "\u2003Quit\t" = some .quit ∧
      Command.parse? "\u017Ftatus" = none := by
  obtain ⟨hcommands, hhelps, -, -, -, -, -, hpadded, hascii⟩ :=
    lines_up_to_quit_are_heeded strangeLines (.start (.fresh "sess_0" .standard))
  have hquit : Command.parse? "\u2003Quit\t" = Command.parse? "quit" :=
    hpadded "quit" "\u2003Quit\t" ['\u2003'] ['Q', 'u', 'i', 't'] ['\t'] (by decide)
      (by simp [Text.isBlank]) (by simp [Text.isBlank]) (by decide)
  exact ⟨hcommands.trans (by decide), hhelps.trans (by decide), hquit,
    hquit.trans (by decide), hascii "\u017Ftatus" '\u017F' (by decide) (by decide)⟩

end TreeJudge

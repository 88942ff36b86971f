import TreeJudge.App
import TreeJudge.Proofs.Options.Sides
import Mathlib.Logic.Relation

/-!
# Which option counts

A setting behind the subcommand counts before one in front of it, and that before the
environment and the configuration. On which side an option stands that is given once, and in
which order the options of a side stand, does not count.
-/

set_option autoImplicit false

namespace TreeJudge

namespace App
variable {o : Options} {path : Option String} {files : String → Config.File} {c c' : Config}
variable {url : String}

def loaded (path : Option String) (files : String → Config.File) : Except Failure Config :=
  path.elim (.ok .standard) fun p => Config.load p (files p)

theorem start_of_loaded (h : loaded path files = .ok c) : start o path files = task o c := by
  cases path with
  | none =>
    cases h
    rfl
  | some p =>
    have hload : Config.load p (files p) = .ok c := h
    rw [start, hload]
    rfl

theorem task_eq_judge :
    task o c = .ok (.judge url c') ↔
      o.subcommand ≠ some .config ∧ (o.verbose = true ∨ levelFault? c.level = none) ∧
        url = o.url.getD c.url ∧ c' = c := by
  have hlevel : (if o.verbose then none else levelFault? c.level) = none ↔
      o.verbose = true ∨ levelFault? c.level = none := by
    cases o.verbose <;> simp
  have hjudge : (Except.ok (Task.judge (o.url.getD c.url) c) : Except Failure Task) =
      .ok (.judge url c') ↔ url = o.url.getD c.url ∧ c' = c := by
    rw [Except.ok.injEq, Task.judge.injEq, eq_comm, eq_comm (a := c)]
  rw [← hlevel, task]
  cases if o.verbose then none else levelFault? c.level with
  | some why => simp
  | none =>
    cases hsub : o.subcommand with
    | none => simpa using hjudge
    | some sub =>
      cases sub with
      | connect => simpa using hjudge
      | config => simp

end App

namespace Options

/-- The options change their places: on their sides, or one that is given once goes to the
other side. -/
inductive Moves : List Given × List Given → List Given × List Given → Prop
  | reordered {outer inner outer' inner' : List Given} (houter : outer.Perm outer')
      (hinner : inner.Perm inner') : Moves (outer, inner) (outer', inner')
  | inwards (g : Given) {outer inner : List Given}
      (once : g.setting? ∉ (outer ++ inner).map Given.setting?) :
      Moves (g :: outer, inner) (outer, g :: inner)
  | outwards (g : Given) {outer inner : List Given}
      (once : g.setting? ∉ (outer ++ inner).map Given.setting?) :
      Moves (outer, g :: inner) (g :: outer, inner)

section
variable {s : Setting} {v : String} {g : Given} {gs hs outer inner : List Given}
variable {sides sides' : List Given × List Given}

theorem value?_eq_some_iff (h : (gs.map Given.setting?).Nodup) :
    value? s gs = some v ↔ .setting s v ∈ gs := by
  induction gs with
  | nil => simp
  | cons g gs ih =>
    rw [List.map_cons, List.nodup_cons] at h
    rw [value?_cons, List.mem_cons, ← ih h.2, eq_comm (a := Given.setting s v),
      ← Given.value?_eq_some_iff]
    cases hg : g.value? s with
    | none => simp
    | some w =>
      rw [Given.value?_eq_some_iff] at hg
      have hnone : value? s gs = none := by
        rw [value?_eq_none_iff]
        rw [hg] at h
        exact h.1
      simp [hnone]

theorem value?_perm (h : (gs.map Given.setting?).Nodup) (hperm : gs.Perm hs) :
    value? s gs = value? s hs := by
  apply Option.ext
  intro v
  rw [value?_eq_some_iff h, value?_eq_some_iff ((hperm.map _).nodup_iff.mp h), hperm.mem_iff]

theorem ofGiven_perm (h : Proper gs) (hperm : gs.Perm hs) :
    Level.ofGiven gs = Level.ofGiven hs := by
  simp only [Level.ofGiven, value?_perm h.distinct hperm, hperm.mem_iff]

theorem value?_moved (once : g.setting? ∉ (outer ++ inner).map Given.setting?) :
    (value? s inner).or (value? s (g :: outer)) = (value? s (g :: inner)).or (value? s outer) := by
  rw [value?_cons, value?_cons]
  cases hg : g.value? s with
  | none => rfl
  | some v =>
    rw [Given.value?_eq_some_iff] at hg
    have hnone : value? s inner = none := by
      rw [value?_eq_none_iff]
      intro hmem
      rw [hg, List.map_append] at once
      exact once (List.mem_append_right _ hmem)
    simp [hnone]

theorem merge_ofGiven (sub : Option Subcommand) (environment : Option String) :
    merge sub (.ofGiven outer) (.ofGiven inner) environment =
      ⟨sub, ((value? .url inner).or (value? .url outer)).or environment,
        (value? .config inner).or (value? .config outer), decide (.verbose ∈ outer ++ inner)⟩ := by
  have hurl : (value? .url inner <|> value? .url outer <|> environment) =
      ((value? .url inner).or (value? .url outer)).or environment := by
    cases value? .url inner <;> cases value? .url outer <;> rfl
  have hconfig : (value? .config inner <|> value? .config outer) =
      (value? .config inner).or (value? .config outer) := by
    cases value? .config inner <;> rfl
  have hverbose : (decide (.verbose ∈ inner) || decide (.verbose ∈ outer)) =
      decide (Given.verbose ∈ outer ++ inner) := by
    simp [Bool.or_comm]
  rw [merge, Level.ofGiven, Level.ofGiven, hurl, hconfig, hverbose]

theorem merge_moved (sub : Option Subcommand) (environment : Option String)
    (once : g.setting? ∉ (outer ++ inner).map Given.setting?) :
    merge sub (.ofGiven (g :: outer)) (.ofGiven inner) environment =
      merge sub (.ofGiven outer) (.ofGiven (g :: inner)) environment := by
  have hmem : .verbose ∈ g :: outer ++ inner ↔ Given.verbose ∈ outer ++ g :: inner :=
    List.perm_middle.symm.mem_iff
  rw [merge_ofGiven, merge_ofGiven, value?_moved once, value?_moved once, decide_eq_decide.mpr hmem]

theorem Moves.proper (h : Moves sides sides') (hproper : Proper sides.1 ∧ Proper sides.2) :
    Proper sides'.1 ∧ Proper sides'.2 := by
  cases h with
  | reordered houter hinner => exact ⟨hproper.1.perm houter, hproper.2.perm hinner⟩
  | inwards g once =>
    rw [List.map_append, List.mem_append, not_or] at once
    obtain ⟨houter, -, hg⟩ := proper_cons.mp hproper.1
    exact ⟨houter, proper_cons.mpr ⟨hproper.2, once.2, hg⟩⟩
  | outwards g once =>
    rw [List.map_append, List.mem_append, not_or] at once
    obtain ⟨hinner, -, hg⟩ := proper_cons.mp hproper.2
    exact ⟨proper_cons.mpr ⟨hproper.1, once.1, hg⟩, hinner⟩

theorem Moves.merge (h : Moves sides sides') (hproper : Proper sides.1 ∧ Proper sides.2)
    (sub : Option Subcommand) (environment : Option String) :
    merge sub (.ofGiven sides'.1) (.ofGiven sides'.2) environment =
      merge sub (.ofGiven sides.1) (.ofGiven sides.2) environment := by
  cases h with
  | reordered houter hinner =>
    dsimp only at hproper
    rw [ofGiven_perm hproper.1 houter, ofGiven_perm hproper.2 hinner]
  | inwards g once => exact (merge_moved sub environment once).symm
  | outwards g once => exact merge_moved sub environment once

theorem moved_proper (h : Relation.ReflTransGen Moves sides sides')
    (hproper : Proper sides.1 ∧ Proper sides.2) : Proper sides'.1 ∧ Proper sides'.2 := by
  induction h with
  | refl => exact hproper
  | tail _ hlast ih => exact hlast.proper ih

theorem moved_merge (h : Relation.ReflTransGen Moves sides sides')
    (hproper : Proper sides.1 ∧ Proper sides.2) (sub : Option Subcommand)
    (environment : Option String) :
    merge sub (.ofGiven sides'.1) (.ofGiven sides'.2) environment =
      merge sub (.ofGiven sides.1) (.ofGiven sides.2) environment := by
  induction h with
  | refl => rfl
  | tail hfirst hlast ih =>
    exact (hlast.merge (moved_proper hfirst hproper) sub environment).trans ih

end

section
variable {args args' : List String} {sub : Option Subcommand} {environment : Option String}
variable {outer inner outer' inner' : List Given} {o : Options}

theorem parse_moved (h : Written args sub outer inner) (hparse : parse args environment = .ok o)
    (hmoves : Relation.ReflTransGen Moves (outer, inner) (outer', inner'))
    (h' : Written args' sub outer' inner') : parse args' environment = .ok o := by
  obtain ⟨houter, hinner, ho⟩ := (parse_written h).mp hparse
  obtain ⟨houter', hinner'⟩ := moved_proper hmoves ⟨houter, hinner⟩
  have hmerge := moved_merge hmoves ⟨houter, hinner⟩ sub environment
  exact (parse_written h').mpr ⟨houter', hinner', ho.trans hmerge.symm⟩

theorem configPath?_written (ho : o = merge sub (.ofGiven outer) (.ofGiven inner) environment)
    (standard : Option String) :
    App.configPath? o standard =
      (value? .config inner <|> value? .config outer <|> standard) := by
  rw [ho]
  cases hvalue : value? .config inner with
  | none => simp [App.configPath?, merge, Level.ofGiven, hvalue]
  | some v => simp [App.configPath?, merge, Level.ofGiven, hvalue]

/-- On a command line that is read without a separator, the address behind the subcommand
counts before the one in front of it, that before the environment, and the environment before
the configuration, which is found in the same order; the flag counts on either side. Where an
option that is given once stands, and in which order those of a side stand, changes nothing. -/
theorem options_count_by_side (hbare : "--" ∉ args) (hparse : parse args environment = .ok o) :
    (∃ outer inner, Written args o.subcommand outer inner) ∧
      ∀ sub outer inner, Written args sub outer inner →
        sub = o.subcommand ∧
        (o.verbose = true ↔ .verbose ∈ outer ∨ .verbose ∈ inner) ∧
        (∀ (standard : Option String) (files : String → Config.File) (c : Config),
          App.loaded (value? .config inner <|> value? .config outer <|> standard) files = .ok c →
          ∀ url c', App.start o (App.configPath? o standard) files = .ok (.judge url c') ↔
            sub ≠ some .config ∧ (o.verbose = true ∨ App.levelFault? c.level = none) ∧
              url = (value? .url inner <|> value? .url outer <|> environment).getD c.url ∧
              c' = c) ∧
        ∀ args' outer' inner', Relation.ReflTransGen Moves (outer, inner) (outer', inner') →
          Written args' sub outer' inner' → parse args' environment = .ok o := by
  have hparts {sub : Option Subcommand} {outer inner : List Given}
      (h : Written args sub outer inner) :
      o = merge sub (.ofGiven outer) (.ofGiven inner) environment :=
    ((parse_written h).mp hparse).2.2
  constructor
  · obtain ⟨sub, outer, inner, h⟩ := exists_written hbare hparse
    have hsub : o.subcommand = sub := congrArg subcommand (hparts h)
    rw [hsub]
    exact ⟨outer, inner, h⟩
  · intro sub outer inner h
    have hsub : o.subcommand = sub := congrArg subcommand (hparts h)
    have hurl : o.url = (value? .url inner <|> value? .url outer <|> environment) :=
      congrArg url (hparts h)
    have hverbose : o.verbose = true ↔ .verbose ∈ outer ∨ .verbose ∈ inner := by
      rw [hparts h, merge_ofGiven, decide_eq_true_iff, List.mem_append]
    refine ⟨hsub.symm, hverbose, ?_, fun _ _ _ hmoves h' => parse_moved h hparse hmoves h'⟩
    intro standard files c hload url c'
    rw [configPath?_written (hparts h), App.start_of_loaded hload, App.task_eq_judge, hsub, hurl]

def mixed : List String := ["-vc", "config", "connect", "--url", "ws://b/"]

def mixedOptions : Options := ⟨some .connect, some "ws://b/", some "config", true⟩

theorem mixed_written :
    Written mixed (some .connect) [.verbose, .setting .config "config"]
      [.setting .url "ws://b/"] := by
  have hconfig : IsValue "config" := .inr (by decide)
  have hurl : IsValue "ws://b/" := .inr (by decide)
  have hfront : Spells ["-vc", "config"] [.verbose, .setting .config "config"] :=
    .cons (.short 1 .config hconfig) .nil
  have hbehind : Spells ["--url", "ws://b/"] [.setting .url "ws://b/"] :=
    .cons (.long .url hurl) .nil
  exact .around .connect hfront hbehind

def rearranged : List String := ["--url=ws://b/", "connect", "-c=config", "--verbose"]

theorem rearranged_written :
    Written rearranged (some .connect) [.setting .url "ws://b/"]
      [.setting .config "config", .verbose] := by
  have hfront : Spells ["--url=ws://b/"] [.setting .url "ws://b/"] :=
    .cons (.longAttached .url "ws://b/") .nil
  have hbehind : Spells ["-c=config", "--verbose"] [.setting .config "config", .verbose] :=
    .cons (.shortEquals 0 .config "config") (.cons .flag .nil)
  exact .around .connect hfront hbehind

theorem mixed_rearranged :
    "--" ∉ mixed ∧ parse mixed (some "ws://env/") = .ok mixedOptions ∧
      parse rearranged (some "ws://env/") = .ok mixedOptions ∧
      App.start mixedOptions (App.configPath? mixedOptions none) (fun _ => .absent) =
        .ok (.judge "ws://b/" .standard) := by
  have hbare : "--" ∉ mixed := by decide
  have hparse : parse mixed (some "ws://env/") = .ok mixedOptions := by
    have hrun : (parse mixed (some "ws://env/")).toOption = some mixedOptions := by
      decide +kernel
    cases hresult : parse mixed (some "ws://env/") with
    | error r =>
      rw [hresult] at hrun
      cases hrun
    | ok o =>
      rw [hresult] at hrun
      exact congrArg Except.ok (Option.some.inj hrun)
  have hmoves : Relation.ReflTransGen Moves
      ([.verbose, .setting .config "config"], [.setting .url "ws://b/"])
      ([.setting .url "ws://b/"], [.setting .config "config", .verbose]) := by
    apply Relation.ReflTransGen.head (.inwards .verbose (by decide))
    apply Relation.ReflTransGen.head (.reordered (.refl _) (.swap _ _ _))
    apply Relation.ReflTransGen.head (.inwards (.setting .config "config") (by decide))
    apply Relation.ReflTransGen.head (.reordered (.refl _) (.swap _ _ _))
    exact .single (.outwards (.setting .url "ws://b/") (by decide))
  obtain ⟨-, hsides⟩ := options_count_by_side hbare hparse
  obtain ⟨-, -, hstart, hmoved⟩ := hsides _ _ _ mixed_written
  refine ⟨hbare, hparse, hmoved _ _ _ hmoves rearranged_written, ?_⟩
  exact (hstart none (fun _ => .absent) .standard rfl _ _).mpr
    ⟨by decide, .inl rfl, rfl, rfl⟩

end

end Options
end TreeJudge

import TreeJudge.Proofs.Options.Phrases
import Mathlib.Data.List.Induction

/-!
# The two sides of a subcommand

A command line that is read has options spelled in front of its subcommand and behind it.
Each side gives no option twice and no empty path, and what it holds can be looked up in its
list of options. The parsed options are the two sides put together.
-/

set_option autoImplicit false

namespace TreeJudge
open Shape (bind_eq_ok)

def Subcommand.name : Subcommand → String
  | .connect => "connect"
  | .config => "config"

namespace Options

def Given.setting? : Given → Option Setting
  | .setting s _ => some s
  | .verbose => none

def Given.value? (s : Setting) : Given → Option String
  | .setting t v => if t = s then some v else none
  | .verbose => none

def value? (s : Setting) (gs : List Given) : Option String := gs.findSome? (Given.value? s)

structure Proper (gs : List Given) : Prop where
  distinct : (gs.map Given.setting?).Nodup
  path : .setting .config "" ∉ gs

/-- The words spell the options in front of a subcommand, if there is one, and behind it. -/
inductive Written : List String → Option Subcommand → List Given → List Given → Prop
  | alone {ws : List String} {gs : List Given} (front : Spells ws gs) : Written ws none gs []
  | around (sub : Subcommand) {ws vs : List String} {gs hs : List Given} (front : Spells ws gs)
      (behind : Spells vs hs) : Written (ws ++ sub.name :: vs) (some sub) gs hs

section
variable {s : Setting} {v : String} {g : Given} {gs hs : List Given}

@[simp] theorem value?_nil : value? s [] = none := rfl

theorem value?_cons : value? s (g :: gs) = (g.value? s).or (value? s gs) := by
  rw [value?, List.findSome?_cons]
  cases g.value? s <;> rfl

theorem value?_concat : value? s (gs ++ [g]) = (value? s gs).or (g.value? s) := by
  rw [value?, List.findSome?_append, List.findSome?_singleton]
  rfl

theorem Given.value?_eq_some_iff : g.value? s = some v ↔ g = .setting s v := by
  cases g with
  | setting t w => simp [value?]
  | verbose => simp [value?]

theorem value?_eq_none_iff : value? s gs = none ↔ some s ∉ gs.map Given.setting? := by
  induction gs with
  | nil => simp
  | cons g gs ih =>
    rw [value?_cons, Option.or_eq_none_iff, ih, List.map_cons, List.mem_cons, not_or]
    apply and_congr_left
    intro
    cases g with
    | setting t w => simp [Given.value?, Given.setting?, eq_comm]
    | verbose => simp [Given.value?, Given.setting?]

theorem none_mem_settings : none ∈ gs.map Given.setting? ↔ .verbose ∈ gs := by
  rw [List.mem_map]
  constructor
  · rintro ⟨g, hg, hnone⟩
    cases g with
    | setting t w => cases hnone
    | verbose => exact hg
  · intro h
    exact ⟨.verbose, h, rfl⟩

theorem proper_cons :
    Proper (g :: gs) ↔
      Proper gs ∧ g.setting? ∉ gs.map Given.setting? ∧ g ≠ .setting .config "" := by
  constructor
  · rintro ⟨hdistinct, hpath⟩
    rw [List.map_cons, List.nodup_cons] at hdistinct
    rw [List.mem_cons, not_or] at hpath
    exact ⟨⟨hdistinct.2, hpath.2⟩, hdistinct.1, Ne.symm hpath.1⟩
  · rintro ⟨⟨hdistinct, hpath⟩, hnew, hg⟩
    constructor
    · rw [List.map_cons, List.nodup_cons]
      exact ⟨hnew, hdistinct⟩
    · rw [List.mem_cons, not_or]
      exact ⟨Ne.symm hg, hpath⟩

theorem Proper.perm (h : Proper gs) (hperm : gs.Perm hs) : Proper hs :=
  ⟨(hperm.map _).nodup_iff.mp h.distinct, fun hmem => h.path (hperm.mem_iff.mpr hmem)⟩

theorem proper_concat :
    Proper (gs ++ [g]) ↔
      Proper gs ∧ g.setting? ∉ gs.map Given.setting? ∧ g ≠ .setting .config "" := by
  have hperm : (gs ++ [g]).Perm (g :: gs) := List.perm_append_singleton g gs
  rw [← proper_cons]
  exact ⟨fun h => h.perm hperm, fun h => h.perm hperm.symm⟩

def Level.ofGiven (gs : List Given) : Level :=
  ⟨value? .url gs, value? .config gs, decide (.verbose ∈ gs), none⟩

theorem store_ofGiven {m : Level} :
    (Level.ofGiven gs).store s v = .ok m ↔
      value? s gs = none ∧ Given.setting s v ≠ .setting .config "" ∧
        m = Level.ofGiven (gs ++ [.setting s v]) := by
  cases s with
  | url =>
    cases hold : value? .url gs with
    | none => simp [Level.store, Level.ofGiven, value?_concat, Given.value?, hold, eq_comm]
    | some w => simp [Level.store, Level.ofGiven, hold]
  | config =>
    cases hold : value? .config gs with
    | none =>
      by_cases hv : v = ""
      · simp [Level.store, Level.ofGiven, hold, hv]
      · simp [Level.store, Level.ofGiven, value?_concat, Given.value?, hold, hv, eq_comm]
    | some w => simp [Level.store, Level.ofGiven, hold]

theorem give_ofGiven {m : Level} :
    (Level.ofGiven gs).give g = .ok m ↔
      g.setting? ∉ gs.map Given.setting? ∧ g ≠ .setting .config "" ∧
        m = Level.ofGiven (gs ++ [g]) := by
  cases g with
  | setting s v => rw [Level.give, store_ofGiven, value?_eq_none_iff, Given.setting?]
  | verbose =>
    have hafter : Level.ofGiven (gs ++ [.verbose]) = { Level.ofGiven gs with verbose := true } := by
      simp [Level.ofGiven, value?_concat, Given.value?]
    rw [hafter, Level.give, Given.setting?, none_mem_settings]
    by_cases hmem : .verbose ∈ gs
    · simp [Level.ofGiven, hmem]
    · simp [Level.ofGiven, hmem, eq_comm]

theorem giveAll_empty {m : Level} :
    Level.empty.giveAll gs = .ok m ↔ Proper gs ∧ m = Level.ofGiven gs := by
  induction gs using List.reverseRecOn generalizing m with
  | nil =>
    constructor
    · rintro ⟨⟩
      exact ⟨⟨List.nodup_nil, List.not_mem_nil⟩, rfl⟩
    · rintro ⟨-, rfl⟩
      rfl
  | append_singleton gs g ih =>
    rw [Level.giveAll_append, bind_eq_ok]
    simp only [ih, Level.giveAll_single, proper_concat]
    constructor
    · rintro ⟨l, ⟨hproper, rfl⟩, hgive⟩
      obtain ⟨hnew, hpath, hm⟩ := give_ofGiven.mp hgive
      exact ⟨⟨hproper, hnew, hpath⟩, hm⟩
    · rintro ⟨⟨hproper, hnew, hpath⟩, hm⟩
      exact ⟨_, ⟨hproper, rfl⟩, give_ofGiven.mpr ⟨hnew, hpath, hm⟩⟩

end

section
variable {args : List String} {sub : Option Subcommand} {outer inner : List Given}
variable {environment : Option String} {o : Options}

theorem reads_place {top : Bool} {ws rest left : List String} {gs : List Given} {m : Level}
    (h : Spells ws gs) (hstops : Stops top rest) :
    Reads top .empty (ws ++ rest) m left ↔ Proper gs ∧ m = .ofGiven gs ∧ left = rest := by
  rw [reads_spelled rfl h]
  constructor
  · rintro ⟨k, hk, hread⟩
    obtain ⟨rfl, hleft⟩ := (reads_of_stops (Level.giveAll_pending rfl hk) hstops).mp hread
    obtain ⟨hproper, hm⟩ := giveAll_empty.mp hk
    exact ⟨hproper, hm, hleft⟩
  · rintro ⟨hproper, rfl, hleft⟩
    have hk := giveAll_empty.mpr ⟨hproper, rfl⟩
    exact ⟨_, hk, (reads_of_stops (Level.giveAll_pending rfl hk) hstops).mpr ⟨rfl, hleft⟩⟩

theorem reads_all {top : Bool} {ws left : List String} {gs : List Given} {m : Level}
    (h : Spells ws gs) : Reads top .empty ws m left ↔ Proper gs ∧ m = .ofGiven gs ∧ left = [] := by
  have hplace : Reads top .empty (ws ++ []) m left ↔ _ := reads_place h (.inl rfl)
  rwa [List.append_nil] at hplace

theorem behind_eq_ok {sub : Subcommand} {l : Level} {rest : List String} :
    behind sub l environment rest = .ok o ↔
      ∃ m n left, l.settle = .ok m ∧ Reads false .empty rest n left ∧
        o = merge (some sub) m n environment := by
  constructor
  · intro h
    obtain ⟨⟨n', left⟩, hread, h⟩ := bind_eq_ok.mp h
    obtain ⟨n, hn, h⟩ := bind_eq_ok.mp h
    obtain ⟨m, hm, h⟩ := bind_eq_ok.mp h
    cases h
    exact ⟨m, n, left, hm, ⟨n', hread, hn⟩, rfl⟩
  · rintro ⟨m, n, left, hm, ⟨n', hread, hn⟩, rfl⟩
    rw [behind, hread]
    apply bind_eq_ok.mpr
    exact ⟨_, rfl, bind_eq_ok.mpr ⟨n, hn, bind_eq_ok.mpr ⟨m, hm, rfl⟩⟩⟩

theorem parse_of_end {l : Level} (h : readLevel true .empty args = .ok (l, [])) :
    parse args environment = l.settle >>= fun m => .ok (merge none m .empty environment) := by
  rw [parse, h]
  rfl

theorem parse_of_subcommand {sub : Subcommand} {l : Level} {rest : List String}
    (h : readLevel true .empty args = .ok (l, sub.name :: rest)) :
    parse args environment = behind sub l environment rest := by
  rw [parse, h]
  cases sub <;> rfl

theorem exists_subcommand {l : Level} {name : String} {rest : List String}
    (h : readLevel true .empty args = .ok (l, name :: rest))
    (hparse : parse args environment = .ok o) : ∃ sub : Subcommand, name = sub.name := by
  by_cases hconnect : name = "connect"
  · exact ⟨.connect, hconnect⟩
  · by_cases hconfig : name = "config"
    · exact ⟨.config, hconfig⟩
    · obtain ⟨left, hleft, hrest⟩ := bind_eq_ok.mp hparse
      cases h.symm.trans hleft
      simp only [if_neg hconnect, if_neg hconfig] at hrest
      cases hrest

theorem parse_eq_ok :
    parse args environment = .ok o ↔
      (∃ m, Reads true .empty args m [] ∧ o = merge none m .empty environment) ∨
        ∃ (sub : Subcommand) (rest left : List String) (m n : Level),
          Reads true .empty args m (sub.name :: rest) ∧ Reads false .empty rest n left ∧
            o = merge (some sub) m n environment := by
  constructor
  · intro h
    obtain ⟨⟨l, rest⟩, hread, -⟩ := bind_eq_ok.mp h
    cases rest with
    | nil =>
      rw [parse_of_end hread] at h
      obtain ⟨m, hm, h⟩ := bind_eq_ok.mp h
      cases h
      exact .inl ⟨m, ⟨l, hread, hm⟩, rfl⟩
    | cons name rest =>
      obtain ⟨sub, rfl⟩ := exists_subcommand hread h
      rw [parse_of_subcommand hread, behind_eq_ok] at h
      obtain ⟨m, n, left, hm, hinner, ho⟩ := h
      exact .inr ⟨sub, rest, left, m, n, ⟨l, hread, hm⟩, hinner, ho⟩
  · rintro (⟨m, ⟨l, hread, hm⟩, rfl⟩ | ⟨sub, rest, left, m, n, ⟨l, hread, hm⟩, hinner, rfl⟩)
    · rw [parse_of_end hread, hm]
      rfl
    · rw [parse_of_subcommand hread, behind_eq_ok]
      exact ⟨m, n, left, hm, hinner, rfl⟩

theorem isSubcommand_name (sub : Subcommand) : isSubcommand sub.name := by
  cases sub <;> decide

theorem name_inj {sub sub' : Subcommand} (h : sub.name = sub'.name) : sub = sub' := by
  cases sub with
  | connect =>
    cases sub' with
    | connect => rfl
    | config => exact absurd h (by decide)
  | config =>
    cases sub' with
    | connect => exact absurd h (by decide)
    | config => rfl

theorem parse_written (h : Written args sub outer inner) :
    parse args environment = .ok o ↔ Proper outer ∧ Proper inner ∧
      o = merge sub (.ofGiven outer) (.ofGiven inner) environment := by
  rw [parse_eq_ok]
  cases h with
  | alone front =>
    constructor
    · rintro (⟨m, hread, ho⟩ | ⟨_, _, _, _, _, hread, -, -⟩)
      · obtain ⟨hproper, rfl, -⟩ := (reads_all front).mp hread
        exact ⟨hproper, ⟨List.nodup_nil, List.not_mem_nil⟩, ho⟩
      · obtain ⟨-, -, hleft⟩ := (reads_all front).mp hread
        cases hleft
    · rintro ⟨hproper, -, ho⟩
      exact .inl ⟨_, (reads_all front).mpr ⟨hproper, rfl, rfl⟩, ho⟩
  | @around sub ws vs gs hs front behind =>
    have hstops : Stops true (sub.name :: vs) :=
      .inr ⟨rfl, sub.name, vs, rfl, isSubcommand_name sub⟩
    constructor
    · rintro (⟨_, hread, -⟩ | ⟨sub', rest, left, m, n, hread, hinner, ho⟩)
      · obtain ⟨-, -, hleft⟩ := (reads_place front hstops).mp hread
        cases hleft
      · obtain ⟨hproper, rfl, hleft⟩ := (reads_place front hstops).mp hread
        obtain ⟨hname, rfl⟩ := List.cons.inj hleft
        obtain ⟨hproper', rfl, -⟩ := (reads_all behind).mp hinner
        rw [name_inj hname] at ho
        exact ⟨hproper, hproper', ho⟩
    · rintro ⟨hproper, hproper', ho⟩
      have hread := (reads_place front hstops).mpr ⟨hproper, rfl, rfl⟩
      have hinner : Reads false .empty vs _ [] := (reads_all behind).mpr ⟨hproper', rfl, rfl⟩
      exact .inr ⟨sub, vs, [], _, _, hread, hinner, ho⟩

theorem exists_written (hbare : "--" ∉ args) (h : parse args environment = .ok o) :
    ∃ sub outer inner, Written args sub outer inner := by
  rcases parse_eq_ok.mp h with ⟨m, hread, -⟩ | ⟨sub, rest, left, m, n, hread, hinner, -⟩
  · obtain ⟨ws, gs, rfl, hspells, -⟩ := spells_of_reads rfl hbare hread
    rw [List.append_nil]
    exact ⟨none, gs, [], .alone hspells⟩
  · obtain ⟨ws, gs, rfl, hspells, -⟩ := spells_of_reads rfl hbare hread
    have hbare' : "--" ∉ rest := fun hmem =>
      hbare (List.mem_append_right ws (List.mem_cons_of_mem _ hmem))
    obtain ⟨vs, hs, hrest, hspells', hend⟩ := spells_of_reads rfl hbare' hinner
    rcases hend with rfl | ⟨hfalse, -⟩
    · rw [List.append_nil] at hrest
      rw [hrest]
      exact ⟨some sub, gs, hs, .around sub hspells hspells'⟩
    · cases hfalse

end

end Options
end TreeJudge

import Mathlib.Data.List.Induction
import TreeJudge.Console.Display
import TreeJudge.Proofs.Session.Coherence

/-!
# The picture on the console is current

The console shows each published snapshot beside the one before it and draws the tree
only when something differs that a drawing can show. What it leaves undrawn would look
the same, so the last drawing is always that of the last snapshot, which is that of the
session as it is.
-/

set_option autoImplicit false

namespace TreeJudge
namespace Session

def published (s : Session) (es : List Event) : List Snapshot :=
  (s.run es).filterMap (·.published)

theorem run_append (s : Session) (es fs : List Event) :
    s.run (es ++ fs) = s.run es ++ (s.after es).run fs := by
  induction es generalizing s with
  | nil => rfl
  | cons e es ih => rw [List.cons_append, run, ih, run, after_cons, List.cons_append]

theorem published_concat (s : Session) (es : List Event) (e : Event) :
    s.published (es ++ [e]) = s.published es ++ ((s.after es).step e).published.toList := by
  rw [published, run_append, List.filterMap_append, published]
  cases h : ((s.after es).step e).published <;> simp [run, h]

theorem view_after (id : String) (options : SessionOptions) (es : List Event) :
    ((fresh id options).after es).view =
      ((fresh id options).published es).getLast?.getD (fresh id options).view := by
  have hbegun : (fresh id options).snapshot = (fresh id options).view := rfl
  rw [← snapshot_eq_view_after hbegun, snapshot_after, hbegun, published]

end Session

theorem Render.tree_congr {s s' : Snapshot} (htree : s.tree = s'.tree) (hfocus : s.focus = s'.focus)
    (hflagged : s.flagged = s'.flagged) (hconfirmed : s.confirmed = s'.confirmed) :
    Render.tree s = Render.tree s' := by
  have hline : Render.line s = Render.line s' := by
    funext l
    simp only [Render.line, Snapshot.verdict?, hfocus, hflagged, hconfirmed]
  rw [Render.tree, Render.tree, htree, hline]

namespace Console

theorem showAll_append (previous : Option Snapshot) (ss ts : List Snapshot) :
    showAll previous (ss ++ ts) = showAll previous ss ++ showAll (ss.getLast?.or previous) ts := by
  induction ss generalizing previous with
  | nil => rfl
  | cons s ss ih =>
    rw [List.cons_append, showAll, ih, showAll, List.cons_append, List.getLast?_cons]
    cases ss.getLast? <;> rfl

theorem length_showAll (previous : Option Snapshot) (ss : List Snapshot) :
    (showAll previous ss).length = ss.length := by
  induction ss generalizing previous with
  | nil => rfl
  | cons s ss ih => rw [showAll, List.length_cons, ih, List.length_cons]

theorem shown_at (before rest : List Snapshot) (shot : Snapshot) :
    (showAll none (before ++ shot :: rest))[before.length]? =
      some (changes before.getLast? shot) := by
  have hlength := length_showAll none before
  rw [showAll_append, Option.or_none, List.getElem?_append_right (Nat.le_of_eq hlength), hlength,
    Nat.sub_self]
  rfl

theorem viewChanged_iff (p current : Snapshot) :
    viewChanged (some p) current = true ↔ p.tree ≠ current.tree ∨ p.focus ≠ current.focus ∨
      p.flagged ≠ current.flagged ∨ p.confirmed ≠ current.confirmed := by
  simp [viewChanged, or_assoc]

/-- The tree that a snapshot makes the console draw, if it does. -/
def drawn (previous : Option Snapshot) (current : Snapshot) : Option (List Piece) :=
  if viewChanged previous current && current.tree.isSome then some (Render.tree current) else none

theorem treePart_eq (previous : Option Snapshot) (current : Snapshot) :
    treePart previous current = (drawn previous current).getD [] := by
  unfold treePart drawn
  split <;> rfl

def drawings (previous : Option Snapshot) : List Snapshot → List (List Piece)
  | [] => []
  | s :: ss => (drawn previous s).toList ++ drawings (some s) ss

theorem drawings_concat (previous : Option Snapshot) (ss : List Snapshot) (s : Snapshot) :
    drawings previous (ss ++ [s]) =
      drawings previous ss ++ (drawn (ss.getLast?.or previous) s).toList := by
  induction ss generalizing previous with
  | nil => simp [drawings]
  | cons s' ss ih =>
    rw [List.cons_append, drawings, ih, drawings, List.append_assoc, List.getLast?_cons]
    cases ss.getLast? <;> rfl

/-- When a snapshot has a tree and nothing is drawn for it, the one before it looked the
same. -/
theorem tree_eq_of_not_drawn {previous : Option Snapshot} {current : Snapshot}
    (h : drawn previous current = none) (htree : current.tree.isSome) :
    ∃ p, previous = some p ∧ p.tree.isSome ∧ Render.tree p = Render.tree current := by
  cases previous with
  | none => simp [drawn, viewChanged, htree] at h
  | some p =>
    have hsame : ¬ viewChanged (some p) current = true := by simpa [drawn, htree] using h
    rw [viewChanged_iff] at hsame
    simp only [not_or, not_not] at hsame
    obtain ⟨htree', hfocus, hflagged, hconfirmed⟩ := hsame
    exact ⟨p, rfl, htree' ▸ htree, Render.tree_congr htree' hfocus hflagged hconfirmed⟩

theorem last_drawing (ss : List Snapshot) :
    ∀ s, ss.getLast? = some s → s.tree.isSome →
      (drawings none ss).getLast? = some (Render.tree s) := by
  induction ss using List.reverseRecOn with
  | nil => intro s hs; cases hs
  | append_singleton ss last ih =>
    intro s hs htree
    obtain rfl : last = s := by simpa using hs
    rw [drawings_concat, Option.or_none]
    cases hdrawn : drawn ss.getLast? last with
    | some picture =>
      have hpicture : picture = Render.tree last := by
        unfold drawn at hdrawn
        split at hdrawn <;> cases hdrawn
        rfl
      simp [hpicture]
    | none =>
      -- what was drawn last still looks right
      obtain ⟨p, hp, hptree, hsame⟩ := tree_eq_of_not_drawn hdrawn htree
      rw [Option.toList_none, List.append_nil, ih p hp hptree, hsame]

/-- Show the snapshots of a run as they are published, each beside the one before it. From
when there is a tree, the tree that was drawn last is at every point that of the session as
it is, and so also that of each snapshot when it was shown. A snapshot that is not the first
has a tree drawn only when it differs from the one before it in its tree, its focus, its
flag or its confirmations. -/
theorem picture_is_current (id : String) (options : SessionOptions) (es : List Event) :
    let begun := Session.fresh id options
    let s := begun.after es
    let shots := begun.published es
    (s.state.tree.isSome → (drawings none shots).getLast? = some (Render.tree s.view)) ∧
      ∀ before shot rest, shots = before ++ shot :: rest →
        (showAll none shots)[before.length]? =
            some ((drawn before.getLast? shot).getD [] ++ outputPart before.getLast? shot ++
              faultPart before.getLast? shot) ∧
          (shot.tree.isSome →
            (drawings none (before ++ [shot])).getLast? = some (Render.tree shot)) ∧
          ∀ p, before.getLast? = some p → drawn (some p) shot ≠ none →
            p.tree ≠ shot.tree ∨ p.focus ≠ shot.focus ∨ p.flagged ≠ shot.flagged ∨
              p.confirmed ≠ shot.confirmed := by
  intro begun s shots
  constructor
  · intro htree
    have hview : s.view = shots.getLast?.getD begun.view := Session.view_after id options es
    have hseen : s.view.tree.isSome := by simpa [Session.view, Snapshot.of] using htree
    cases hlast : shots.getLast? with
    | none =>
      rw [hlast] at hview
      rw [hview] at hseen
      cases hseen
    | some shot =>
      rw [hlast] at hview
      rw [hview] at hseen ⊢
      exact last_drawing shots shot hlast hseen
  · intro before shot rest hshots
    refine ⟨?_, ?_, ?_⟩
    · rw [hshots, shown_at, changes, treePart_eq]
    · exact last_drawing (before ++ [shot]) shot List.getLast?_concat
    · intro p _ hdrawn
      apply (viewChanged_iff p shot).mp
      by_contra hsame
      exact hdrawn (by simp [drawn, hsame])

def pictured : List Event :=
  [.opened,
    .frame ("\x7b\"type\":\"tree\",\"tree\":\x7b\"nodes\":[\x7b\"id\":1\x7d,\x7b\"id\":2\x7d]," ++
      "\"edges\":[\x7b\"from\":1,\"to\":2\x7d]\x7d\x7d"),
    .frame "\x7b\"type\":\"id\",\"id\":2\x7d",
    .frame "\x7b\"type\":\"cmd\",\"cmd\":\x7b\"output\":\"a\"\x7d\x7d", .judge .no]

theorem pictured_answer_is_drawn :
    let shots := (Session.fresh "sess_0" .standard).published pictured
    ∃ before p shot, shots = before ++ [shot] ∧ before.getLast? = some p ∧
      (drawings none before).length = 2 ∧ before.length = 4 ∧ shot.tree.isSome ∧
      drawn (some p) shot ≠ none ∧
      (p.tree ≠ shot.tree ∨ p.focus ≠ shot.focus ∨ p.flagged ≠ shot.flagged ∨
        p.confirmed ≠ shot.confirmed) ∧
      (drawings none (before ++ [shot])).getLast? = some (Render.tree shot) := by
  intro shots
  have hne : shots ≠ [] := by decide +kernel
  have hne' : shots.dropLast ≠ [] := by decide +kernel
  have hcounts : (drawings none shots.dropLast).length = 2 ∧ shots.dropLast.length = 4 := by
    decide +kernel
  have htree : (shots.getLast hne).tree.isSome := by decide +kernel +revert
  have hdrawn : drawn (some (shots.dropLast.getLast hne')) (shots.getLast hne) ≠ none := by
    decide +kernel +revert
  have hsplit : shots = shots.dropLast ++ [shots.getLast hne] :=
    (List.dropLast_concat_getLast hne).symm
  obtain ⟨-, hshown⟩ := picture_is_current "sess_0" .standard pictured
  obtain ⟨-, hcurrent, hdiffers⟩ := hshown _ _ [] hsplit
  have hlast := List.getLast?_eq_some_getLast hne'
  exact ⟨_, _, _, hsplit, hlast, hcounts.1, hcounts.2, htree, hdrawn, hdiffers _ hlast hdrawn,
    hcurrent htree⟩

end Console
end TreeJudge

import Mathlib.Data.Finset.Card
import Mathlib.Data.Finset.Dedup
import TreeJudge.Proofs.Session.Coherence
import TreeJudge.Proofs.Tree.Listing

/-!
# Verdicts as they are shown

A verdict is shown twice: as the color of a node in the snapshot and as a sign on
the line that is drawn of it. Both are computed from the flag and the confirmations
of the same snapshot, so they agree; and since a drawing has one line for each
identifier, the signs can be counted.
-/

set_option autoImplicit false

namespace TreeJudge

theorem Session.view_of_mem_published {s : Session} {es : List Event} {v : Snapshot}
    (h : v ∈ (s.run es).filterMap (·.published)) :
    ∃ t : Session, v = t.view ∧ t.options = s.options := by
  induction es generalizing s with
  | nil => cases h
  | cons e es ih =>
    rw [run, List.filterMap_cons] at h
    have hrest (h : v ∈ ((s.step e).session.run es).filterMap (·.published)) :
        ∃ t : Session, v = t.view ∧ t.options = s.options := by
      obtain ⟨t, hv, ht⟩ := ih h
      exact ⟨t, hv, ht.trans (s.options_step e)⟩
    cases hp : (s.step e).published with
    | none =>
      rw [hp] at h
      exact hrest h
    | some w =>
      rw [hp] at h
      rcases List.mem_cons.mp h with rfl | h
      · exact ⟨_, s.shows_step e v hp, s.options_step e⟩
      · exact hrest h

theorem Session.snapshot_mem_published (s : Session) (es : List Event) :
    (s.after es).snapshot ∈ s.snapshot :: (s.run es).filterMap (·.published) := by
  rw [snapshot_after]
  cases h : ((s.run es).filterMap (·.published)).getLast? with
  | none => exact List.mem_cons_self
  | some v => exact List.mem_cons_of_mem _ (List.mem_of_getLast? h)

theorem color_of_mem_annotate {t : ExecutionTree} {flagged : Option NodeId} {confirmed : IdSet}
    {p : Palette} {n : Node} (h : n ∈ (annotate t flagged confirmed p).nodes) :
    n.color =
      if flagged = some n.id then some (.solid p.rejected)
      else if n.id ∈ confirmed then some (.solid p.confirmed)
      else none := by
  obtain ⟨m, -, rfl⟩ := List.mem_map.mp h
  change (Verdict.of? flagged confirmed m.id).map (Verdict.color p) = _
  by_cases hf : flagged = some m.id
  · rw [(Verdict.of?_eq_rejected flagged confirmed m.id).mpr hf, if_pos hf]
    rfl
  · by_cases hc : m.id ∈ confirmed
    · rw [(Verdict.of?_eq_confirmed flagged confirmed m.id).mpr ⟨hf, hc⟩, if_neg hf, if_pos hc]
      rfl
    · rw [(Verdict.of?_eq_none flagged confirmed m.id).mpr ⟨hf, hc⟩, if_neg hf, if_neg hc]
      rfl

namespace Render
open Piece

def cross : Piece := colored .red "✗"

def check : Piece := colored .green "✓"

def pointer : Piece := colored .cyan "<-"

theorem caption_ne_check (n : Node) : caption n ≠ "✓" := by
  intro h
  have hlength := congrArg String.length h
  have hsign : "✓".length = 1 := rfl
  have hopen : " [".length = 2 := rfl
  rw [caption, String.length_append, String.length_append, String.length_append, hsign, hopen]
    at hlength
  omega

section
variable (s : Snapshot) (l : WalkLine)

theorem cross_mem_line : cross ∈ line s l ↔ s.flagged = some l.node.id := by
  rw [← Verdict.of?_eq_rejected s.flagged s.confirmed]
  cases hv : Verdict.of? s.flagged s.confirmed l.node.id with
  | none => simp [line, Snapshot.verdict?, hv, judged, arrow, cross, plain, colored]
  | some verdict =>
    cases verdict <;>
      simp [line, Snapshot.verdict?, hv, judged, arrow, cross, plain, colored, strongColored]

theorem check_mem_line :
    check ∈ line s l ↔ s.flagged ≠ some l.node.id ∧ l.node.id ∈ s.confirmed := by
  rw [← Verdict.of?_eq_confirmed]
  have hcaption := (caption_ne_check l.node).symm
  cases hv : Verdict.of? s.flagged s.confirmed l.node.id with
  | none => simp [line, Snapshot.verdict?, hv, judged, arrow, check, plain, colored]
  | some verdict =>
    cases verdict <;>
      simp [line, Snapshot.verdict?, hv, judged, arrow, check, plain, colored, strongColored]

theorem pointer_mem_line : pointer ∈ line s l ↔ s.focus = some l.node.id := by
  cases hv : Verdict.of? s.flagged s.confirmed l.node.id with
  | none => simp [line, Snapshot.verdict?, hv, judged, arrow, pointer, plain, colored]
  | some verdict =>
    cases verdict <;>
      simp [line, Snapshot.verdict?, hv, judged, arrow, pointer, plain, colored, strongColored]

end

section
variable (t : ExecutionTree)

/-- Lines are counted by their identifiers, of which each stands on one line. -/
theorem countP_lines (p : NodeId → Bool) :
    (Walk.of t).lines.countP (fun l => p l.node.id) = (t.ids.toFinset.filter (p ·)).card := by
  have hids : ((Walk.of t).lines.map (·.node.id)).toFinset = t.ids.toFinset := by
    ext id
    rw [List.mem_toFinset, List.mem_toFinset, Walk.mem_ids_of]
  have hnodup := (Walk.nodup_of t).filter p
  rw [← hids, ← List.toFinset_filter, List.toFinset_card_of_nodup hnodup,
    ← List.countP_eq_length_filter, List.countP_map]
  rfl

theorem countP_lines_named (target : Option NodeId) :
    (Walk.of t).lines.countP (fun l => target = some l.node.id) =
      if ∃ id ∈ t.ids, target = some id then 1 else 0 := by
  cases target with
  | none => simp
  | some id =>
    have hcount : (Walk.of t).lines.countP (fun l => some id = some l.node.id) =
        ((Walk.of t).lines.map (·.node.id)).count id := by
      rw [List.count, List.countP_map]
      apply List.countP_congr
      intro l _
      simp only [decide_eq_true_eq, Option.some.injEq, Function.comp_apply, beq_iff_eq]
      exact eq_comm
    simp only [hcount, (Walk.nodup_of t).count, Walk.mem_ids_of]
    simp

end

/-- In every published snapshot the color of a node is that of its verdict, whatever
colors have come in, and the line that is drawn of the node has the sign of the same
verdict. So one line has the cross when the flag is on a node of the tree, as many
have the check as there are other confirmed nodes, and one has the arrow when the
focus is a node of the tree. -/
theorem verdicts_are_shown (id : String) (options : SessionOptions) (es : List Event)
    (v : Snapshot)
    (hv : v ∈ (Session.fresh id options).snapshot ::
      ((Session.fresh id options).run es).filterMap (·.published))
    (t : ExecutionTree) (ht : v.tree = some t) :
    let lines := (Walk.of t).lines
    (∀ n ∈ t.nodes, n.color =
        if v.flagged = some n.id then some (.solid options.palette.rejected)
        else if n.id ∈ v.confirmed then some (.solid options.palette.confirmed)
        else none) ∧
      tree v = lines.flatMap (line v) ∧
      (∀ n ∈ t.nodes, lines.countP (·.node.id = n.id) = 1) ∧
      (∀ l ∈ lines,
        (cross ∈ line v l ↔ v.flagged = some l.node.id) ∧
        (check ∈ line v l ↔ v.flagged ≠ some l.node.id ∧ l.node.id ∈ v.confirmed) ∧
        (pointer ∈ line v l ↔ v.focus = some l.node.id) ∧
        writeAll false (line v l) =
          indent l.depth ++ l.node.label ++ " [" ++ l.node.id.shown ++ "]" ++
            (if v.flagged = some l.node.id then " ✗"
            else if l.node.id ∈ v.confirmed then " ✓"
            else "") ++
            (if v.focus = some l.node.id then "\t<-" else "") ++ "\n") ∧
      lines.countP (cross ∈ line v ·) =
        (if ∃ i ∈ t.ids, v.flagged = some i then 1 else 0) ∧
      lines.countP (check ∈ line v ·) =
        (t.ids.toFinset.filter fun i => v.flagged ≠ some i ∧ i ∈ v.confirmed).card ∧
      lines.countP (pointer ∈ line v ·) =
        (if ∃ i ∈ t.ids, v.focus = some i then 1 else 0) := by
  intro lines
  have hview : ∃ s : Session, v = s.view ∧ s.options = options := by
    rcases List.mem_cons.mp hv with rfl | hv
    · exact ⟨Session.fresh id options, rfl, rfl⟩
    · exact Session.view_of_mem_published hv
  refine ⟨?_, ?_, ?_, ?_, ?_, ?_, ?_⟩
  · obtain ⟨s, rfl, rfl⟩ := hview
    obtain ⟨stored, -, rfl⟩ := Option.map_eq_some_iff.mp ht
    exact fun n hn => color_of_mem_annotate hn
  · simp only [tree, ht, lines]
  · intro n hn
    have hid : n.id ∈ t.ids := List.mem_map.mpr ⟨n, hn, rfl⟩
    have hnamed := countP_lines_named t (some n.id)
    simpa [eq_comm, hid] using hnamed
  · intro l _
    exact ⟨cross_mem_line v l, check_mem_line v l, pointer_mem_line v l, writeAll_line v l⟩
  · simp only [cross_mem_line]
    exact countP_lines_named t v.flagged
  · simp only [check_mem_line]
    have hcount := countP_lines t fun i => v.flagged ≠ some i ∧ i ∈ v.confirmed
    simpa using hcount
  · simp only [pointer_mem_line]
    exact countP_lines_named t v.focus

def judgedCycle : List Event :=
  [.opened,
    .frame ("\x7b\"type\":\"tree\",\"tree\":\x7b\"nodes\":[\x7b\"id\":1\x7d,\x7b\"id\":2," ++
      "\"color\":\x7b\"background\":\"red\",\"border\":\"red\"\x7d\x7d,\x7b\"id\":1\x7d]," ++
      "\"edges\":[\x7b\"from\":1,\"to\":2\x7d,\x7b\"from\":2,\"to\":1\x7d]\x7d\x7d"),
    .frame "\x7b\"type\":\"id\",\"id\":2\x7d", .judge .yes,
    .frame "\x7b\"type\":\"id\",\"id\":1\x7d", .judge .yes, .judge .no]

def shownCycle : ExecutionTree where
  nodes := [⟨.number 1, "", "", some (.solid "#e74c3c")⟩,
    ⟨.number 2, "", "", some (.solid "#58d68d")⟩, ⟨.number 1, "", "", some (.solid "#e74c3c")⟩]
  edges := [⟨.number 1, .number 2⟩, ⟨.number 2, .number 1⟩]

theorem judged_cycle_is_shown :
    let v := ((Session.fresh "sess_0" .standard).after judgedCycle).snapshot
    v.tree = some shownCycle ∧
      v ∈ (Session.fresh "sess_0" .standard).snapshot ::
        ((Session.fresh "sess_0" .standard).run judgedCycle).filterMap (·.published) ∧
      (Walk.of shownCycle).lines.countP (cross ∈ line v ·) = 1 ∧
      (Walk.of shownCycle).lines.countP (check ∈ line v ·) = 1 ∧
      (Walk.of shownCycle).lines.countP (pointer ∈ line v ·) = 1 := by
  intro v
  obtain ⟨htree, hflagged, hfocus, hconfirmed⟩ : v.tree = some shownCycle ∧
      v.flagged = some (.number 1) ∧ v.focus = some (.number 1) ∧
      v.confirmed = .ofList [.number 1, .number 2] := by decide +kernel
  have hv := (Session.fresh "sess_0" .standard).snapshot_mem_published judgedCycle
  obtain ⟨-, -, -, -, hcross, hcheck, hpointer⟩ :=
    verdicts_are_shown "sess_0" .standard judgedCycle v hv shownCycle htree
  rw [hflagged] at hcross
  rw [hflagged, hconfirmed] at hcheck
  rw [hfocus] at hpointer
  exact ⟨htree, hv, hcross.trans (by decide), hcheck.trans (by decide), hpointer.trans (by decide)⟩

end Render
end TreeJudge

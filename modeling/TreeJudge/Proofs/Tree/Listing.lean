import TreeJudge.Proofs.Tree.Visits
import TreeJudge.Render.Panels

/-!
# Every node is drawn once

On every tree, with cycles, repeated identifiers and edges to nowhere, a drawing
has one line for each identifier of a node and no other line. The node on that
line is the one that the identifier names.
-/

set_option autoImplicit false

namespace TreeJudge

theorem ExecutionTree.node?_of_find?_roots {t : ExecutionTree} {id : NodeId} {n : Node}
    (h : t.roots.find? (·.id = id) = some n) : t.node? id = some n := by
  rw [roots, List.find?_filter] at h
  have hn : (!t.edges.any (·.target = n.id)) = true ∧ n.id = id := by
    simpa using List.find?_some h
  rw [hn.2] at hn
  have hsame : (fun m : Node => decide ((!t.edges.any (·.target = m.id)) = true ∧
      decide (m.id = id) = true)) = fun m : Node => decide (m.id = id) := by
    funext m
    by_cases hm : m.id = id
    · simp only [hm, hn.1, decide_true, and_self]
    · simp [hm]
  rw [hsame] at h
  exact h

namespace Walk
variable {t : ExecutionTree}

theorem Visits.nodup {depth : Nat} {ns : List Node} {seen : List NodeId} {w : Walk}
    (h : Visits t depth ns seen w) (hs : seen.Nodup) : w.seen.Nodup := by
  induction h with
  | done => exact hs
  | pass hn others ih => exact ih hs
  | enter hn below others ihb ih => exact ih (ihb (List.nodup_cons.mpr ⟨hn, hs⟩))

theorem Visits.listed {depth : Nat} {ns : List Node} {seen : List NodeId} {w : Walk}
    (h : Visits t depth ns seen w) : ∀ n ∈ ns, n.id ∈ w.seen := by
  induction h with
  | done => simp
  | pass hn others ih =>
    intro m hm
    rcases List.mem_cons.mp hm with rfl | hm
    · exact others.seen_subset hn
    · exact ih m hm
  | enter hn below others ihb ih =>
    intro m hm
    rcases List.mem_cons.mp hm with rfl | hm
    · exact others.seen_subset (below.seen_subset List.mem_cons_self)
    · exact ih m hm

/-- Of the nodes with an identifier that is not yet listed, the first is the one
that the identifier names. -/
def Leads (t : ExecutionTree) (ns : List Node) (seen : List NodeId) : Prop :=
  ∀ id ∉ seen, ∀ n, ns.find? (·.id = id) = some n → t.node? id = some n

theorem leads_below (id : NodeId) (seen : List NodeId) : Leads t (t.below id) seen := by
  intro i _ n hn
  have hid : n.id = i := by simpa using List.find?_some hn
  rw [← hid]
  exact ExecutionTree.node?_of_mem_below (List.mem_of_find?_eq_some hn)

theorem leads_all (seen : List NodeId) : Leads t (t.roots ++ t.nodes) seen := by
  intro i _ n hn
  rw [List.find?_append] at hn
  cases hr : t.roots.find? (·.id = i) with
  | none =>
    rw [hr] at hn
    exact hn
  | some m =>
    rw [hr] at hn
    cases hn
    exact ExecutionTree.node?_of_find?_roots hr

theorem Leads.tail {n : Node} {ns : List Node} {seen seen' : List NodeId}
    (h : Leads t (n :: ns) seen) (hn : n.id ∈ seen') (hsub : seen ⊆ seen') :
    Leads t ns seen' := by
  intro i hi m hm
  have hne : n.id ≠ i := fun he => hi (he ▸ hn)
  apply h i (fun hs => hi (hsub hs)) m
  simpa [List.find?_cons, hne] using hm

theorem Visits.names {depth : Nat} {ns : List Node} {seen : List NodeId} {w : Walk}
    (h : Visits t depth ns seen w) (hl : Leads t ns seen) :
    ∀ l ∈ w.lines, t.node? l.node.id = some l.node := by
  induction h with
  | done => simp
  | pass hn others ih => exact ih (hl.tail hn (List.Subset.refl _))
  | @enter depth n ns seen b w hn below others ihb ih =>
    intro l hmem
    rcases List.mem_cons.mp hmem with rfl | hmem
    · exact hl n.id hn n (by simp)
    · rcases List.mem_append.mp hmem with hb | hw
      · exact ihb (leads_below _ _) l hb
      · have hsub := below.seen_subset
        have hrest : Leads t ns b.seen :=
          hl.tail (hsub List.mem_cons_self) fun i hi => hsub (List.mem_cons_of_mem n.id hi)
        exact ih hrest l hw

theorem seen_of (t : ExecutionTree) :
    (Walk.of t).seen = ((Walk.of t).lines.map (·.node.id)).reverse := by
  rw [(visits_of t).seen_eq, List.append_nil]

theorem names_of (t : ExecutionTree) :
    ∀ l ∈ (Walk.of t).lines, t.node? l.node.id = some l.node :=
  (visits_of t).names (leads_all [])

theorem nodup_of (t : ExecutionTree) : ((Walk.of t).lines.map (·.node.id)).Nodup := by
  have h := (visits_of t).nodup List.nodup_nil
  rw [seen_of] at h
  exact (List.reverse_perm _).nodup h

theorem mem_ids_of (t : ExecutionTree) (id : NodeId) :
    id ∈ (Walk.of t).lines.map (·.node.id) ↔ id ∈ t.ids := by
  constructor
  · intro h
    obtain ⟨l, hl, rfl⟩ := List.mem_map.mp h
    exact List.mem_map.mpr ⟨l.node, ExecutionTree.mem_of_node? (names_of t l hl), rfl⟩
  · intro h
    obtain ⟨n, hn, rfl⟩ := List.mem_map.mp h
    have hs := (visits_of t).listed n (List.mem_append_right _ hn)
    rw [seen_of] at hs
    exact List.mem_reverse.mp hs

end Walk

theorem Piece.writeAll_flatMap {α : Type} (colors : Bool) (piece : α → List Piece)
    (as : List α) :
    Piece.writeAll colors (as.flatMap piece) =
      String.join (as.map fun a => Piece.writeAll colors (piece a)) := by
  induction as with
  | nil => rfl
  | cons a as ih =>
    rw [List.flatMap_cons, List.map_cons, String.join_cons, ← ih]
    simp only [Piece.writeAll, List.map_append, String.join_append]

namespace Render
open Piece

def lineText (s : Snapshot) (l : WalkLine) : String :=
  String.join (List.replicate l.depth "│   ") ++ l.node.label ++ " [" ++ l.node.id.shown ++ "]" ++
    (if s.flagged = some l.node.id then " ✗"
    else if l.node.id ∈ s.confirmed then " ✓"
    else "") ++
    (if s.focus = some l.node.id then "\t<-" else "") ++ "\n"

section
variable (s : Snapshot)

theorem writeAll_judged (n : Node) :
    writeAll false (judged (s.verdict? n.id) n) =
      caption n ++
        (if s.flagged = some n.id then " ✗" else if n.id ∈ s.confirmed then " ✓" else "") := by
  by_cases hf : s.flagged = some n.id
  · have hv : s.verdict? n.id = some .rejected := (Verdict.of?_eq_rejected _ _ _).mpr hf
    simp [writeAll, write_uncolored, hv, hf, judged, strongColored, colored, plain]
  · by_cases hc : n.id ∈ s.confirmed
    · have hv : s.verdict? n.id = some .confirmed := (Verdict.of?_eq_confirmed _ _ _).mpr ⟨hf, hc⟩
      simp [writeAll, write_uncolored, hv, hf, hc, judged, colored, plain]
    · have hv : s.verdict? n.id = none := (Verdict.of?_eq_none _ _ _).mpr ⟨hf, hc⟩
      simp [writeAll, write_uncolored, hv, hf, hc, judged, plain]

theorem writeAll_arrow (here : Prop) [Decidable here] :
    writeAll false (arrow here) = if here then "\t<-" else "" := by
  by_cases h : here
  · simp only [h, arrow]
    rfl
  · simp only [h, arrow]
    rfl

theorem writeAll_line (l : WalkLine) : writeAll false (line s l) = lineText s l := by
  have hjudged := writeAll_judged s l.node
  have harrow := writeAll_arrow (s.focus = some l.node.id)
  simp only [writeAll] at hjudged harrow
  simp only [writeAll, line, List.map_append, String.join_append, hjudged, harrow]
  simp [lineText, indent, guide, write_uncolored, plain, caption, String.append_assoc]

end

theorem writeAll_tree {s : Snapshot} {t : ExecutionTree} (h : s.tree = some t) (colors : Bool) :
    writeAll colors (tree s) =
      String.join ((Walk.of t).lines.map fun l => writeAll colors (line s l)) := by
  have htree : tree s = (Walk.of t).lines.flatMap (line s) := by simp only [tree, h]
  rw [htree, writeAll_flatMap]

theorem text_of_tree {s : Snapshot} {t : ExecutionTree} (h : s.tree = some t) :
    writeAll false (tree s) = String.join ((Walk.of t).lines.map (lineText s)) := by
  simp only [writeAll_tree h, writeAll_line]

/-- A drawing is one line for each identifier of the tree and none besides, and each
line shows the node that its identifier names, which is also the node that the
details are of. The walk behind it is what the unbounded recursion comes to, and
that recursion comes to nothing else. -/
theorem tree_draws_each_node_once (s : Snapshot) (t : ExecutionTree) (h : s.tree = some t)
    (colors : Bool) :
    let lines := (Walk.of t).lines
    (∀ w, Walk.Visits t 0 (t.roots ++ t.nodes) [] w ↔ w = Walk.of t) ∧
      Piece.writeAll colors (tree s) =
        String.join (lines.map fun l => Piece.writeAll colors (line s l)) ∧
      Piece.writeAll false (tree s) = String.join (lines.map (lineText s)) ∧
      (∀ id, (lines.map (·.node.id)).count id = if id ∈ t.ids then 1 else 0) ∧
      ∀ l ∈ lines, Piece.writeAll false (line s l) = lineText s l ∧
        t.node? l.node.id = some l.node ∧
        t.details? l.node.id = some ⟨l.node.id, l.node.label, Title.fields l.node.title⟩ := by
  intro lines
  refine ⟨?_, writeAll_tree h colors, text_of_tree h, ?_, ?_⟩
  · intro w
    constructor
    · intro hw
      exact hw.unique (Walk.visits_of t)
    · rintro rfl
      exact Walk.visits_of t
  · intro id
    simp only [(Walk.nodup_of t).count, Walk.mem_ids_of, lines]
  · intro l hl
    have hn := Walk.names_of t l hl
    exact ⟨writeAll_line s l, hn, by rw [ExecutionTree.details?, hn]; rfl⟩

def tangle : ExecutionTree where
  nodes := [⟨.number 1, "f", "", none⟩, ⟨.number 2, "g", "", none⟩, ⟨.number 1, "h", "", none⟩,
    ⟨.text "x", "k", "", none⟩]
  edges := [⟨.number 1, .number 2⟩, ⟨.number 2, .number 1⟩, ⟨.number 9, .text "x"⟩,
    ⟨.text "x", .text "x"⟩, ⟨.text "x", .number 9⟩]

def tangled : Snapshot where
  sessionId := ""
  tree := some tangle
  focus := none
  flagged := none
  confirmed := .empty
  fault := none
  output := none
  channel := .opened

theorem tangle_drawn_once :
    let drawn : Snapshot := { tangled with
      focus := some (.number 2), flagged := some (.text "x"), confirmed := .ofList [.number 2] }
    drawn.tree = some tangle ∧
      Piece.writeAll false (tree drawn) = "f [1]\n│   g [2] ✓\t<-\nk [x] ✗\n" ∧
      ((Walk.of tangle).lines.map (·.node.id)).count (.number 1) = 1 ∧
      ((Walk.of tangle).lines.map (·.node.id)).count (.number 9) = 0 := by
  intro drawn
  obtain ⟨-, -, htext, hcount, -⟩ := tree_draws_each_node_once drawn tangle rfl true
  exact ⟨rfl, htext.trans (by decide +kernel), hcount (.number 1), hcount (.number 9)⟩

end Render
end TreeJudge

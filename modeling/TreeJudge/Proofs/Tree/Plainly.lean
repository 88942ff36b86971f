import TreeJudge.Proofs.Tree.Margin

/-!
# Forests need no guard

A walk passes over what it has listed. In a forest there is never anything to pass over:
the parts below two children of one node, and below two roots, have nothing in common.
So the drawing of a forest is the plain recursion over children, which keeps no account
of what it has drawn and ends because no way leads back.
-/

set_option autoImplicit false

namespace TreeJudge
namespace ExecutionTree
variable {t : ExecutionTree}

/-- Distinct identifiers, edges between nodes only, no two of them to one node, and no
way back. -/
structure IsForest (t : ExecutionTree) : Prop where
  ids_nodup : t.ids.Nodup
  no_dangling : t.dangling = []
  targets_nodup : (t.edges.map (·.target)).Nodup
  acyclic : t.Acyclic

theorem Acyclic.wellFounded_below (h : t.Acyclic) :
    WellFounded fun m n : Node => m ∈ t.below n.id := by
  have : IsStrictOrder NodeId (fun b a => Relation.TransGen t.Joins a b) :=
    { irrefl := h, trans := fun _ _ _ hba hcb => hcb.trans hba }
  have hwf : Set.WellFoundedOn {a | a ∈ t.ids} fun b a => Relation.TransGen t.Joins a b :=
    (List.finite_toSet t.ids).wellFoundedOn
  have hacc : ∀ a ∈ t.ids, ∀ n : Node, n.id = a → Acc (fun m n : Node => m ∈ t.below n.id) n := by
    intro a ha
    refine hwf.induction (P := fun a => ∀ n : Node, n.id = a → Acc _ n) ha ?_
    rintro _ hb ih n rfl
    refine ⟨n, fun m hm => ?_⟩
    have hmem : m.id ∈ t.ids := mem_ids (mem_nodes_of_mem_below hm)
    exact ih m.id hmem (.single ⟨edge_of_mem_below hm, hb, hmem⟩) m rfl
  refine ⟨fun n => ⟨n, fun m hm => ?_⟩⟩
  exact hacc m.id (mem_ids (mem_nodes_of_mem_below hm)) m rfl

def Apart (t : ExecutionTree) (a b : Node) : Prop := ∀ id, t.Reaches a.id id → ¬ t.Reaches b.id id

namespace IsForest
variable (h : t.IsForest)
include h

theorem joins_of_edge {e : Edge} (he : e ∈ t.edges) : t.Joins e.source e.target := by
  have hin := List.filter_eq_nil_iff.mp h.no_dangling e he
  simp only [Bool.not_eq_true', Bool.not_eq_false, Bool.and_eq_true, List.contains_iff_mem] at hin
  exact ⟨he, hin⟩

theorem parent_unique {p q x : NodeId} (hp : t.Joins p x) (hq : t.Joins q x) : p = q :=
  congrArg Edge.source (List.inj_on_of_nodup_map h.targets_nodup hp.1 hq.1 rfl)

theorem reaches_or_reaches {a b x : NodeId} (ha : t.Reaches a x) (hb : t.Reaches b x) :
    t.Reaches a b ∨ t.Reaches b a := by
  have hunique : Relator.RightUnique (Function.swap t.Joins) := fun _ _ _ => h.parent_unique
  have hup := Relation.ReflTransGen.total_of_right_unique hunique
    (Relation.reflTransGen_swap.mpr ha) (Relation.reflTransGen_swap.mpr hb)
  exact hup.symm.imp Relation.reflTransGen_swap.mp Relation.reflTransGen_swap.mp

theorem not_reaches_sibling {p a b : NodeId} (ha : t.Joins p a) (hb : t.Joins p b)
    (hab : a ≠ b) : ¬ t.Reaches a b := by
  intro hreach
  rcases Relation.ReflTransGen.cases_tail hreach with heq | ⟨q, haq, hqb⟩
  · exact hab heq.symm
  · rw [h.parent_unique hqb hb] at haq
    exact h.acyclic p (.head' ha haq)

theorem nodes_nodup : t.nodes.Nodup := List.Nodup.of_map _ h.ids_nodup

theorem below_apart {n : Node} (hn : n ∈ t.nodes) : (t.below n.id).Pairwise t.Apart := by
  have hchildren : (t.children n.id).Nodup :=
    h.targets_nodup.sublist (List.filter_sublist.map _)
  have hnodup : (t.below n.id).Nodup := by
    refine hchildren.filterMap fun a b m ha hb => ?_
    rw [← id_of_node? ha, id_of_node? hb]
  refine hnodup.pairwise_of_forall_ne fun a ha b hb hab id hreach hreach' => ?_
  have hne : a.id ≠ b.id := fun hid => hab <| Option.some.inj <| by
    rw [← node?_of_mem_below ha, hid, node?_of_mem_below hb]
  have hja := joins_of_mem_below hn ha
  have hjb := joins_of_mem_below hn hb
  rcases h.reaches_or_reaches hreach hreach' with hr | hr
  · exact h.not_reaches_sibling hja hjb hne hr
  · exact h.not_reaches_sibling hjb hja hne.symm hr

theorem roots_apart : t.roots.Pairwise t.Apart := by
  have hnodup : t.roots.Nodup := h.nodes_nodup.filter _
  refine hnodup.pairwise_of_forall_ne fun a ha b hb hab id hreach hreach' => hab ?_
  have hid : a.id = b.id := by
    rcases h.reaches_or_reaches hreach hreach' with hr | hr
    · exact eq_of_reaches_root hb hr
    · exact (eq_of_reaches_root ha hr).symm
  exact List.inj_on_of_nodup_map h.ids_nodup (List.mem_filter.mp ha).1 (List.mem_filter.mp hb).1
    hid

theorem exists_root {x : NodeId} (hx : x ∈ t.ids) : ∃ r ∈ t.roots, t.Reaches r.id x := by
  obtain ⟨a, ha, htop, hreach⟩ := h.acyclic.exists_top hx
  rcases root_or_stray ha htop with ⟨r, hr, rfl⟩ | ⟨-, ⟨e, he, rfl⟩, -⟩
  · exact ⟨r, hr, hreach⟩
  · exact absurd (h.joins_of_edge he) (htop e.source)

end IsForest
end ExecutionTree

namespace Walk
open ExecutionTree
variable {t : ExecutionTree}

theorem Visits.split {depth : Nat} {ms ns : List Node} {seen : List NodeId} {w : Walk}
    (h : Visits t depth (ms ++ ns) seen w) :
    ∃ u v, Visits t depth ms seen u ∧ Visits t depth ns u.seen v ∧
      w.lines = u.lines ++ v.lines := by
  induction ms generalizing seen w with
  | nil => exact ⟨⟨[], seen⟩, w, .done, h, rfl⟩
  | cons m ms ih =>
    cases h with
    | pass hm others =>
      obtain ⟨u, v, hu, hv, hlines⟩ := ih others
      exact ⟨u, v, .pass hm hu, hv, hlines⟩
    | enter hm below others =>
      obtain ⟨u, v, hu, hv, hlines⟩ := ih others
      exact ⟨_, v, .enter hm below hu, hv, by simp [hlines]⟩

theorem Visits.lines_eq_nil {depth : Nat} {ns : List Node} {seen : List NodeId} {w : Walk}
    (h : Visits t depth ns seen w) (hns : ∀ n ∈ ns, n.id ∈ seen) : w.lines = [] := by
  induction h with
  | done => rfl
  | pass _ others ih => exact ih fun m hm => hns m (List.mem_cons_of_mem _ hm)
  | enter hn _ _ _ _ => exact absurd (hns _ List.mem_cons_self) hn

/-- What a walk from the start has listed is closed under edges. -/
theorem Visits.mem_seen_of_reaches {depth : Nat} {ns : List Node} {w : Walk}
    (h : Visits t depth ns [] w) {n : Node} (hn : n ∈ ns) {id : NodeId}
    (hreach : t.Reaches n.id id) : id ∈ w.seen := by
  induction hreach with
  | refl => exact h.listed n hn
  | tail _ hjoin ih => exact h.finished _ ih List.not_mem_nil _ hjoin

theorem visits_roots (h : t.IsForest) : ∃ u, Visits t 0 t.roots [] u ∧
    (Walk.of t).lines = u.lines := by
  obtain ⟨u, v, hu, hv, hlines⟩ := (visits_of t).split
  have hseen : ∀ n ∈ t.nodes, n.id ∈ u.seen := by
    intro n hn
    obtain ⟨r, hr, hreach⟩ := h.exists_root (mem_ids hn)
    exact hu.mem_seen_of_reaches hr hreach
  exact ⟨u, hu, by rw [hlines, hv.lines_eq_nil hseen, List.append_nil]⟩

end Walk

namespace Render
open ExecutionTree
variable {t : ExecutionTree}

/-- A node behind its lead, and behind the lead and one more guide each child in the order
of the edges, with no account of what has been drawn. -/
def sketch (h : t.Acyclic) (draw : Node → String) (lead : String) (n : Node) : String :=
  lead ++ draw n ++
    String.join ((t.below n.id).attach.map fun m => sketch h draw (lead ++ guide) m.1)
termination_by h.wellFounded_below.wrap n
decreasing_by exact m.2

theorem sketch_eq (h : t.Acyclic) (draw : Node → String) (lead : String) (n : Node) :
    sketch h draw lead n =
      lead ++ draw n ++ String.join ((t.below n.id).map (sketch h draw (lead ++ guide))) := by
  rw [sketch, List.attach_map_val (f := sketch h draw (lead ++ guide))]

theorem indent_succ (depth : Nat) : indent (depth + 1) = indent depth ++ guide := by
  simp [indent, List.replicate_succ']

theorem visits_eq_sketch (h : t.IsForest) (draw : Node → String) {depth : Nat}
    {ns : List Node} {seen : List NodeId} {w : Walk} (hw : Walk.Visits t depth ns seen w)
    (hns : ∀ n ∈ ns, n ∈ t.nodes) (hapart : ns.Pairwise t.Apart)
    (hfresh : ∀ n ∈ ns, ∀ id, t.Reaches n.id id → id ∉ seen) :
    String.join (w.lines.map fun l => indent l.depth ++ draw l.node) =
      String.join (ns.map (sketch h.acyclic draw (indent depth))) := by
  induction hw with
  | done => rfl
  | pass hn others ih => exact absurd hn (hfresh _ List.mem_cons_self _ .refl)
  | @enter depth n ns seen b w hn below others ihb ih =>
    obtain ⟨hnode, hnodes⟩ := List.forall_mem_cons.mp hns
    obtain ⟨hn_apart, hns_apart⟩ := List.pairwise_cons.mp hapart
    obtain ⟨hn_fresh, hns_fresh⟩ := List.forall_mem_cons.mp hfresh
    -- nothing below `n` has been listed, as nothing leads back to `n`
    have hbelow := ihb (fun _ => mem_nodes_of_mem_below) (h.below_apart hnode) <| by
      intro m hm id hreach hmem
      have hjoin := joins_of_mem_below hnode hm
      rcases List.mem_cons.mp hmem with rfl | hseen
      · exact h.acyclic _ (.head' hjoin hreach)
      · exact hn_fresh id (.head hjoin hreach) hseen
    -- what was listed below `n` is not reached from the nodes after it
    have hothers := ih hnodes hns_apart <| by
      intro m hm id hreach hmem
      rw [below.seen_eq, List.mem_append, List.mem_reverse, List.mem_map, List.mem_cons] at hmem
      rcases hmem with ⟨l, hl, rfl⟩ | rfl | hseen
      · obtain ⟨c, hc, hcl⟩ := below.reached (fun _ => mem_nodes_of_mem_below) l hl
        exact hn_apart m hm _ (.head (joins_of_mem_below hnode hc) hcl) hreach
      · exact hn_apart m hm _ .refl hreach
      · exact hns_fresh m hm id hreach hseen
    rw [indent_succ] at hbelow
    simp only [List.map_cons, List.map_append, String.join_cons, String.join_append, hbelow,
      hothers, sketch_eq h.acyclic draw (indent depth) n, String.append_assoc]

/-- The drawing of a forest is what the plain recursion draws of its roots, in the order of
the nodes. -/
theorem forest_drawn_plainly (s : Snapshot) (t : ExecutionTree) (hs : s.tree = some t)
    (h : t.IsForest) (colors : Bool) :
    Piece.writeAll colors (tree s) =
      String.join (t.roots.map
        (sketch h.acyclic (fun n => Piece.writeAll colors (line s ⟨0, n⟩)) "")) := by
  obtain ⟨u, hu, hlines⟩ := Walk.visits_roots h
  have hrow : (fun l => Piece.writeAll colors (line s l)) =
      fun l => indent l.depth ++ Piece.writeAll colors (line s ⟨0, l.node⟩) :=
    funext fun l => line_eq_prefix colors s l
  have hmargin : indent 0 = "" := rfl
  have hsketch := visits_eq_sketch h (fun n => Piece.writeAll colors (line s ⟨0, n⟩)) hu
    (fun n hn => (List.mem_filter.mp hn).1) h.roots_apart fun _ _ _ _ => List.not_mem_nil
  rw [hmargin] at hsketch
  rw [writeAll_tree hs, hlines, hrow, hsketch]

def grove : ExecutionTree where
  nodes := [⟨.number 3, "g", "", none⟩, ⟨.text "1", "lone", "", none⟩,
    ⟨.number 1, "main", "", none⟩, ⟨.number 2, "f", "", none⟩, ⟨.number 4, "h", "", none⟩]
  edges := [⟨.number 1, .number 4⟩, ⟨.number 2, .number 3⟩, ⟨.number 1, .number 2⟩]

theorem grove_drawn_plainly :
    let drawn : Snapshot := { tangled with tree := some grove, flagged := some (.number 3) }
    drawn.tree = some grove ∧ ∃ h : grove.IsForest,
      Piece.writeAll false (tree drawn) = String.join (grove.roots.map
        (sketch h.acyclic (fun n => Piece.writeAll false (line drawn ⟨0, n⟩)) "")) ∧
      Piece.writeAll false (tree drawn) =
        "lone [1]\nmain [1]\n│   h [4]\n│   f [2]\n│   │   g [3] ✗\n" := by
  intro drawn
  have hforest : grove.IsForest := by
    refine ⟨by decide, by decide, by decide, ?_⟩
    exact acyclic_of_rank
      (fun id => if id = .number 1 then 0 else if id = .number 2 then 1 else 2) (by decide)
  exact ⟨rfl, hforest, forest_drawn_plainly drawn grove rfl hforest false, by decide +kernel⟩

end Render
end TreeJudge

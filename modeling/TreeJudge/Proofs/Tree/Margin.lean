import Mathlib.Order.WellFoundedSet
import TreeJudge.Proofs.Tree.Forest

/-!
# Which nodes stand at the margin

A node stands at the margin when nothing whose turn comes before it leads to it. In
a tree without cycles all nodes that have parents are led to by a node that has none.
That node is a root, unless an unknown node leads to it: then it is a stray, which is
only come to in the order of the nodes, and a node below it may have come before. So
below strays, and nowhere else, a child can stand at the margin.
-/

set_option autoImplicit false

namespace TreeJudge
namespace ExecutionTree
variable {t : ExecutionTree}

def Acyclic (t : ExecutionTree) : Prop := ∀ a, ¬ Relation.TransGen t.Joins a a

/-- Edges lead to the node, but none of them from a node that exists. -/
def Stray (t : ExecutionTree) (id : NodeId) : Prop :=
  id ∈ t.ids ∧ (∃ e ∈ t.edges, e.target = id) ∧ ∀ p, ¬ t.Joins p id

theorem acyclic_of_rank (rank : NodeId → Nat)
    (h : ∀ e ∈ t.edges, e.source ∈ t.ids → e.target ∈ t.ids → rank e.source < rank e.target) :
    t.Acyclic := by
  have hlt : ∀ a b, Relation.TransGen t.Joins a b → rank a < rank b := by
    intro a b hab
    induction hab with
    | single hjoin => exact h _ hjoin.1 hjoin.2.1 hjoin.2.2
    | tail _ hjoin ih => exact Nat.lt_trans ih (h _ hjoin.1 hjoin.2.1 hjoin.2.2)
  exact fun a ha => Nat.lt_irrefl _ (hlt a a ha)

theorem Acyclic.exists_top (h : t.Acyclic) {x : NodeId} (hx : x ∈ t.ids) :
    ∃ a ∈ t.ids, (∀ p, ¬ t.Joins p a) ∧ t.Reaches a x := by
  have : IsStrictOrder NodeId (Relation.TransGen t.Joins) :=
    { irrefl := h, trans := fun _ _ _ => Relation.TransGen.trans }
  have hwf : Set.WellFoundedOn {a | a ∈ t.ids} (Relation.TransGen t.Joins) :=
    (List.finite_toSet t.ids).wellFoundedOn
  -- up from `x`, as there are only so many nodes and none leads to itself
  refine hwf.induction (P := fun x => ∃ a ∈ t.ids, (∀ p, ¬ t.Joins p a) ∧ t.Reaches a x) hx ?_
  intro y hy ih
  by_cases hp : ∃ p, t.Joins p y
  · obtain ⟨p, hp⟩ := hp
    obtain ⟨a, ha, htop, hreach⟩ := ih p hp.2.1 (.single hp)
    exact ⟨a, ha, htop, hreach.tail hp⟩
  · exact ⟨y, hy, not_exists.mp hp, .refl⟩

theorem root_or_stray {a : NodeId} (ha : a ∈ t.ids) (h : ∀ p, ¬ t.Joins p a) :
    (∃ r ∈ t.roots, r.id = a) ∨ t.Stray a := by
  obtain ⟨n, hn, rfl⟩ := List.mem_map.mp ha
  by_cases he : ∃ e ∈ t.edges, e.target = n.id
  · exact .inr ⟨ha, he, h⟩
  · have hroot : n ∈ t.roots := List.mem_filter.mpr ⟨hn, by simpa using he⟩
    exact .inl ⟨n, hroot, rfl⟩

theorem not_root_of_joins {p : NodeId} {n : Node} (h : t.Joins p n.id) : n ∉ t.roots := by
  intro hn
  have hnone := (List.mem_filter.mp hn).2
  simp only [Bool.not_eq_true', List.any_eq_false, decide_eq_true_eq] at hnone
  exact hnone _ h.1 rfl

end ExecutionTree

namespace Walk
open ExecutionTree
variable {t : ExecutionTree}

theorem Picks.mem_iff {earlier ids picked : List NodeId} (h : Picks t earlier ids picked)
    (x : NodeId) :
    x ∈ picked ↔ x ∈ ids ∧ ¬ ∃ y ∈ earlier ++ ids.takeWhile (· ≠ x), t.Reaches y x := by
  induction h with
  | done => simp
  | @skip earlier ids picked id h others ih =>
    obtain ⟨r, hr, hreach⟩ := h
    rw [ih]
    by_cases hx : id = x
    · subst hx
      have hled (ys : List NodeId) : ∃ y ∈ earlier ++ ys, t.Reaches y id :=
        ⟨r, List.mem_append_left ys hr, hreach⟩
      exact iff_of_false (fun hp => hp.2 (hled _)) (fun hp => hp.2 (hled _))
    · -- what is passed over leads nowhere that what came earlier does not
      have hskip : (∃ y ∈ earlier ++ id :: ids.takeWhile (· ≠ x), t.Reaches y x) ↔
          ∃ y ∈ earlier ++ ids.takeWhile (· ≠ x), t.Reaches y x := by
        constructor
        · rintro ⟨y, hy, hyx⟩
          rcases List.mem_append.mp hy with hy | hy
          · exact ⟨y, List.mem_append_left _ hy, hyx⟩
          · rcases List.mem_cons.mp hy with rfl | hy
            · exact ⟨r, List.mem_append_left _ hr, hreach.trans hyx⟩
            · exact ⟨y, List.mem_append_right _ hy, hyx⟩
        · rintro ⟨y, hy, hyx⟩
          have hbehind := (List.mem_append.mp hy).imp_right (List.mem_cons_of_mem id)
          exact ⟨y, List.mem_append.mpr hbehind, hyx⟩
      rw [List.takeWhile_cons_of_pos (by simpa using hx), hskip, List.mem_cons,
        or_iff_right (Ne.symm hx)]
  | @pick earlier ids picked id h others ih =>
    by_cases hx : id = x
    · subst hx
      simpa using h
    · rw [List.takeWhile_cons_of_pos (by simpa using hx), List.mem_cons, List.mem_cons,
        or_iff_right (Ne.symm hx), or_iff_right (Ne.symm hx), ih, List.append_assoc]
      rfl

theorem mem_tops_iff {l : WalkLine} (h : l ∈ (Walk.of t).lines) :
    l.node.id ∈ tops (Walk.of t).lines ↔ l.depth = 0 := by
  constructor
  · intro htop
    obtain ⟨m, hm, hid⟩ := List.mem_map.mp htop
    obtain ⟨hmem, hdepth⟩ := List.mem_filter.mp hm
    -- no other line is about the same node
    rw [← List.inj_on_of_nodup_map (nodup_of t) hmem h hid]
    simpa using hdepth
  · exact fun hdepth => List.mem_map_of_mem (List.mem_filter.mpr ⟨h, by simpa using hdepth⟩)

/-- A line stands at the margin when nothing whose turn comes before leads to its node.
The roots have their turn first, and then all nodes in order. -/
theorem depth_eq_zero_iff {l : WalkLine} (h : l ∈ (Walk.of t).lines) :
    l.depth = 0 ↔
      ¬ ∃ y ∈ (t.roots.map (·.id) ++ t.ids).takeWhile (· ≠ l.node.id), t.Reaches y l.node.id := by
  have hns : ∀ n ∈ t.roots ++ t.nodes, n ∈ t.nodes := fun _ => mem_nodes_of_mem_start
  have hpicks := (visits_of t).picks hns (show Covers t [] [] by simp [Covers])
  have hid : l.node.id ∈ (t.roots ++ t.nodes).map (·.id) := by
    rw [List.map_append]
    exact List.mem_append_right _ ((mem_ids_of t _).mp (List.mem_map_of_mem h))
  rw [← mem_tops_iff h, hpicks.mem_iff, List.map_append, List.nil_append]
  exact and_iff_right (by rw [← List.map_append]; exact hid)

theorem depth_eq_zero_iff_of_joins {l : WalkLine} (h : l ∈ (Walk.of t).lines) {p : NodeId}
    (hp : t.Joins p l.node.id) :
    l.depth = 0 ↔ (∀ r ∈ t.roots, ¬ t.Reaches r.id l.node.id) ∧
      ∀ y ∈ t.ids.takeWhile (· ≠ l.node.id), ¬ t.Reaches y l.node.id := by
  have hroots : ∀ id ∈ t.roots.map (·.id), id ≠ l.node.id := by
    rintro id hid rfl
    obtain ⟨r, hr, hrid⟩ := List.mem_map.mp hid
    exact not_root_of_joins (hrid ▸ hp) hr
  rw [depth_eq_zero_iff h, List.takeWhile_append_of_pos (by simpa using hroots)]
  simp [or_imp, forall_and]

theorem joins_of_hangs {above rest : List WalkLine} {l : WalkLine}
    (h : (Walk.of t).lines = above ++ l :: rest) (hdepth : 0 < l.depth) :
    ∃ p, above.reverse.find? (·.depth + 1 = l.depth) = some p ∧ t.Joins p.node.id l.node.id := by
  obtain ⟨p, hp, hedge⟩ := (stands_of h).1.resolve_left (Nat.ne_of_gt hdepth)
  have hmem (m : WalkLine) (hm : m ∈ above ++ l :: rest) : m.node.id ∈ t.ids :=
    (mem_ids_of t _).mp (List.mem_map_of_mem (h ▸ hm))
  have habove : p ∈ above := List.mem_reverse.mp (List.mem_of_find?_eq_some hp)
  exact ⟨p, hp, hedge, hmem p (List.mem_append_left _ habove), hmem l (by simp)⟩

theorem stray_of_depth_eq_zero (hacyclic : t.Acyclic) {l : WalkLine} (h : l ∈ (Walk.of t).lines)
    {p : NodeId} (hp : t.Joins p l.node.id) (hdepth : l.depth = 0) :
    ∃ y, t.Stray y ∧ t.Reaches y l.node.id := by
  obtain ⟨a, ha, htop, hreach⟩ := hacyclic.exists_top hp.2.2
  rcases root_or_stray ha htop with ⟨r, hr, rfl⟩ | hstray
  · exact absurd hreach (((depth_eq_zero_iff_of_joins h hp).mp hdepth).1 r hr)
  · exact ⟨a, hstray, hreach⟩

end Walk

namespace Render

/-- In a drawing of a tree without cycles, a node that others lead to has one line. It
stands at the margin when no root leads to it and no node before it in the list of nodes
does, which is only so below a stray. Else it stands under one of its parents: the
nearest line above it that is one level higher. -/
theorem child_stands_under_parent (s : Snapshot) (t : ExecutionTree) (h : s.tree = some t)
    (hacyclic : t.Acyclic) (x : NodeId) (hx : ∃ p, t.Joins p x) :
    let lines := (Walk.of t).lines
    tree s = lines.flatMap (line s) ∧
      Piece.writeAll false (tree s) = String.join (lines.map (lineText s)) ∧
      ∃ above l rest, lines = above ++ l :: rest ∧ l.node.id = x ∧
        (∀ m ∈ above ++ rest, m.node.id ≠ x) ∧
        (0 < l.depth → ∃ p, above.reverse.find? (·.depth + 1 = l.depth) = some p ∧
          t.Joins p.node.id x) ∧
        (l.depth = 0 ↔ (∀ r ∈ t.roots, ¬ t.Reaches r.id x) ∧
          ∀ y ∈ t.ids.takeWhile (· ≠ x), ¬ t.Reaches y x) ∧
        ((∀ y, t.Stray y → ¬ t.Reaches y x) → 0 < l.depth) := by
  intro lines
  refine ⟨by simp only [tree, h, lines], text_of_tree h, ?_⟩
  obtain ⟨p, hp⟩ := hx
  obtain ⟨l, hl, rfl⟩ := List.mem_map.mp ((Walk.mem_ids_of t x).mpr hp.2.2)
  obtain ⟨above, rest, hlines⟩ := List.append_of_mem hl
  have hothers : ∀ m ∈ above ++ rest, m.node.id ≠ l.node.id := by
    have hnodup := Walk.nodup_of t
    rw [hlines, List.map_append, List.map_cons, List.nodup_middle, ← List.map_append] at hnodup
    intro m hm hid
    exact (List.nodup_cons.mp hnodup).1 (hid ▸ List.mem_map_of_mem hm)
  refine ⟨above, l, rest, hlines, rfl, hothers, Walk.joins_of_hangs hlines,
    Walk.depth_eq_zero_iff_of_joins hl hp, fun hnone => Nat.pos_of_ne_zero fun hdepth => ?_⟩
  obtain ⟨y, hstray, hreach⟩ := Walk.stray_of_depth_eq_zero hacyclic hl hp hdepth
  exact hnone y hstray hreach

def sheltered : ExecutionTree where
  nodes := [⟨.number 2, "g", "", none⟩, ⟨.number 4, "k", "", none⟩, ⟨.number 1, "f", "", none⟩]
  edges := [⟨.number 9, .number 2⟩, ⟨.number 1, .number 2⟩, ⟨.number 2, .number 8⟩,
    ⟨.number 9, .number 4⟩]

theorem sheltered_child_stands_under_parent :
    let drawn : Snapshot := { tangled with tree := some sheltered }
    drawn.tree = some sheltered ∧ sheltered.Acyclic ∧ sheltered.Joins (.number 1) (.number 2) ∧
      (∀ y, sheltered.Stray y → ¬ sheltered.Reaches y (.number 2)) ∧
      Piece.writeAll false (tree drawn) = "f [1]\n│   g [2]\nk [4]\n" ∧
      ∃ above l rest, (Walk.of sheltered).lines = above ++ l :: rest ∧ l.node.id = .number 2 ∧
        ∃ p, above.reverse.find? (·.depth + 1 = l.depth) = some p ∧
          sheltered.Joins p.node.id (.number 2) := by
  intro drawn
  have hacyclic : sheltered.Acyclic :=
    ExecutionTree.acyclic_of_rank (fun id => if id = .number 1 then 0 else 1) (by decide)
  have hjoins : sheltered.Joins (.number 1) (.number 2) := by
    refine ⟨?_, ?_, ?_⟩ <;> decide
  have hstray : ∀ y, sheltered.Stray y → ¬ sheltered.Reaches y (.number 2) := by
    have htarget : ∀ e ∈ sheltered.edges, e.target ∈ sheltered.ids →
        e.target = .number 2 ∨ e.target = .number 4 := by decide
    have hend : ∀ e ∈ sheltered.edges, e.source ≠ .number 4 := by decide
    rintro y ⟨hy, ⟨e, he, rfl⟩, hnone⟩ hreach
    rcases htarget e he hy with h2 | h4
    · exact hnone _ (h2 ▸ hjoins)
    · rw [h4] at hreach
      rcases Relation.ReflTransGen.cases_head hreach with heq | ⟨b, hjoin, -⟩
      · exact absurd heq (by decide)
      · exact hend _ hjoin.1 rfl
  obtain ⟨-, htext, above, l, rest, hlines, hid, -, hunder, -, hdeep⟩ :=
    child_stands_under_parent drawn sheltered rfl hacyclic (.number 2) ⟨.number 1, hjoins⟩
  exact ⟨rfl, hacyclic, hjoins, hstray, htext.trans (by decide +kernel), above, l, rest, hlines,
    hid, hunder (hdeep hstray)⟩

def strayed : ExecutionTree where
  nodes := [⟨.number 2, "g", "", none⟩, ⟨.number 1, "f", "", none⟩]
  edges := [⟨.number 9, .number 1⟩, ⟨.number 1, .number 2⟩]

/-- It is not so that every child stands under a parent. -/
theorem child_of_stray_stands_at_margin :
    let drawn : Snapshot := { tangled with tree := some strayed }
    Piece.writeAll false (tree drawn) = "g [2]\nf [1]\n" ∧
      strayed.Acyclic ∧ strayed.Joins (.number 1) (.number 2) ∧
      ¬ ∀ (s : Snapshot) (t : ExecutionTree), s.tree = some t → t.Acyclic →
        ∀ x, (∃ p, t.Joins p x) →
          ∃ above l rest,
            Piece.writeAll false (tree s) =
              String.join ((above ++ l :: rest).map (lineText s)) ∧
            (Walk.of t).lines = above ++ l :: rest ∧ l.node.id = x ∧ 0 < l.depth ∧
            ∃ p, above.reverse.find? (·.depth + 1 = l.depth) = some p ∧ t.Joins p.node.id x := by
  intro drawn
  have hacyclic : strayed.Acyclic :=
    ExecutionTree.acyclic_of_rank (fun id => if id = .number 1 then 0 else 1) (by decide)
  have hjoins : strayed.Joins (.number 1) (.number 2) := by
    refine ⟨?_, ?_, ?_⟩ <;> decide
  refine ⟨by decide +kernel, hacyclic, hjoins, fun hall => ?_⟩
  have hmargin : ∀ l ∈ (Walk.of strayed).lines, l.node.id = .number 2 → l.depth = 0 := by
    decide +kernel
  obtain ⟨above, l, rest, -, hlines, hid, hdepth, -⟩ :=
    hall drawn strayed rfl hacyclic (.number 2) ⟨_, hjoins⟩
  exact Nat.ne_of_gt hdepth (hmargin l (by simp [hlines]) hid)

end Render
end TreeJudge

import TreeJudge.Tree.Walk

/-!
# The walk without a bound

`Visits` is the walk as a recursion that no number of levels cuts off: to visit
nodes in turn is to pass over those that have been listed and to list each other
one before what is below it. The walk of a tree is the only outcome of that
recursion, so it ends on every tree, and theorems about walks are inductions on
`Visits`.
-/

set_option autoImplicit false

namespace TreeJudge

theorem ExecutionTree.id_of_node? {t : ExecutionTree} {id : NodeId} {n : Node}
    (h : t.node? id = some n) : n.id = id := by
  simpa using List.find?_some h

theorem ExecutionTree.mem_of_node? {t : ExecutionTree} {id : NodeId} {n : Node}
    (h : t.node? id = some n) : n ∈ t.nodes :=
  List.mem_of_find?_eq_some h

def ExecutionTree.below (t : ExecutionTree) (id : NodeId) : List Node :=
  (t.children id).filterMap t.node?

theorem ExecutionTree.node?_of_mem_below {t : ExecutionTree} {id : NodeId} {n : Node}
    (h : n ∈ t.below id) : t.node? n.id = some n := by
  obtain ⟨c, -, hc⟩ := List.mem_filterMap.mp h
  rw [id_of_node? hc]
  exact hc

theorem ExecutionTree.mem_nodes_of_mem_below {t : ExecutionTree} {id : NodeId} {n : Node}
    (h : n ∈ t.below id) : n ∈ t.nodes :=
  mem_of_node? (node?_of_mem_below h)

theorem ExecutionTree.edge_of_mem_below {t : ExecutionTree} {id : NodeId} {n : Node}
    (h : n ∈ t.below id) : (⟨id, n.id⟩ : Edge) ∈ t.edges := by
  obtain ⟨c, hc, hn⟩ := List.mem_filterMap.mp h
  rw [id_of_node? hn]
  exact (t.mem_children id c).mp hc

namespace Walk
variable {t : ExecutionTree}

inductive Visits (t : ExecutionTree) : Nat → List Node → List NodeId → Walk → Prop
  | done {depth : Nat} {seen : List NodeId} : Visits t depth [] seen ⟨[], seen⟩
  | pass {depth : Nat} {n : Node} {ns : List Node} {seen : List NodeId} {w : Walk}
      (hn : n.id ∈ seen) (others : Visits t depth ns seen w) : Visits t depth (n :: ns) seen w
  | enter {depth : Nat} {n : Node} {ns : List Node} {seen : List NodeId} {b w : Walk}
      (hn : n.id ∉ seen) (below : Visits t (depth + 1) (t.below n.id) (n.id :: seen) b)
      (others : Visits t depth ns b.seen w) :
      Visits t depth (n :: ns) seen ⟨⟨depth, n⟩ :: (b.lines ++ w.lines), w.seen⟩

theorem Visits.unique {depth : Nat} {ns : List Node} {seen : List NodeId} {v w : Walk}
    (hv : Visits t depth ns seen v) (hw : Visits t depth ns seen w) : v = w := by
  induction hv generalizing w with
  | done =>
    cases hw
    rfl
  | pass hn others ih =>
    cases hw with
    | pass _ others' => exact ih others'
    | enter hn' _ _ => exact absurd hn hn'
  | enter hn below others ihb ih =>
    cases hw with
    | pass hn' _ => exact absurd hn' hn
    | enter _ below' others' =>
      cases ihb below'
      cases ih others'
      rfl

theorem Visits.seen_eq {depth : Nat} {ns : List Node} {seen : List NodeId} {w : Walk}
    (h : Visits t depth ns seen w) :
    w.seen = (w.lines.map (·.node.id)).reverse ++ seen := by
  induction h with
  | done => rfl
  | pass hn others ih => exact ih
  | enter hn below others ihb ih => simp [ih, ihb]

theorem Visits.seen_subset {depth : Nat} {ns : List Node} {seen : List NodeId} {w : Walk}
    (h : Visits t depth ns seen w) : seen ⊆ w.seen := by
  rw [h.seen_eq]
  exact List.subset_append_right _ _

def fresh (t : ExecutionTree) (seen : List NodeId) : List Node :=
  t.nodes.filter (·.id ∉ seen)

theorem fresh_of_subset {seen seen' : List NodeId} (h : seen ⊆ seen') :
    fresh t seen' = (fresh t seen).filter (·.id ∉ seen') := by
  rw [fresh, fresh, List.filter_filter]
  apply List.filter_congr
  intro n _
  by_cases hn : n.id ∈ seen'
  · simp [hn]
  · have hs : n.id ∉ seen := fun hs => hn (h hs)
    simp [hn, hs]

theorem fresh_mono {seen seen' : List NodeId} (h : seen ⊆ seen') :
    (fresh t seen').length ≤ (fresh t seen).length := by
  rw [fresh_of_subset h]
  exact List.length_filter_le _ _

theorem fresh_lt {n : Node} {seen : List NodeId} (hn : n ∈ t.nodes) (hs : n.id ∉ seen) :
    (fresh t (n.id :: seen)).length < (fresh t seen).length := by
  rw [fresh_of_subset (List.subset_cons_self n.id seen)]
  apply List.length_filter_lt_length_iff_exists.mpr
  exact ⟨n, List.mem_filter.mpr ⟨hn, by simpa using hs⟩, by simp⟩

theorem visit_of_mem {levels depth : Nat} {n : Node} {seen : List NodeId} (h : n.id ∈ seen) :
    visit t (levels + 1) depth n seen = ⟨[], seen⟩ := by
  simp [visit, h]

theorem visit_of_not_mem {levels depth : Nat} {n : Node} {seen : List NodeId}
    (h : n.id ∉ seen) :
    visit t (levels + 1) depth n seen =
      let b := each (visit t levels (depth + 1)) (t.below n.id) (n.id :: seen)
      ⟨⟨depth, n⟩ :: b.lines, b.seen⟩ := by
  simp [visit, h, ExecutionTree.below]

/-- With more levels than nodes are left, no level is missed. -/
theorem visits_each (levels depth : Nat) (ns : List Node) (seen : List NodeId)
    (hns : ∀ n ∈ ns, n ∈ t.nodes) (hl : (fresh t seen).length < levels) :
    Visits t depth ns seen (each (visit t levels depth) ns seen) := by
  induction levels generalizing depth ns seen with
  | zero => omega
  | succ levels ihl =>
    induction ns generalizing seen with
    | nil => exact .done
    | cons n ns ihn =>
      have hrest : ∀ m ∈ ns, m ∈ t.nodes := fun m hm => hns m (List.mem_cons_of_mem n hm)
      by_cases hn : n.id ∈ seen
      · simp only [each, visit_of_mem hn, List.nil_append]
        exact .pass hn (ihn seen hrest hl)
      · -- going down takes one level, and takes `n` out of the nodes that are left
        have hlt := fresh_lt (hns n List.mem_cons_self) hn
        have hbelow := ihl (depth + 1) (t.below n.id) (n.id :: seen)
          (fun _ => ExecutionTree.mem_nodes_of_mem_below) (by omega)
        -- the nodes after `n` come at the same level, with no more nodes left than before
        have hmono := fresh_mono (t := t)
          (fun i hi => hbelow.seen_subset (List.mem_cons_of_mem n.id hi))
        have hothers := ihn _ hrest (Nat.lt_of_le_of_lt hmono hl)
        simp only [each, visit_of_not_mem hn]
        exact .enter hn hbelow hothers

theorem mem_nodes_of_mem_start {n : Node} (h : n ∈ t.roots ++ t.nodes) : n ∈ t.nodes := by
  rcases List.mem_append.mp h with hr | hn
  · exact (List.mem_filter.mp hr).1
  · exact hn

theorem visits_of (t : ExecutionTree) : Visits t 0 (t.roots ++ t.nodes) [] (Walk.of t) := by
  apply visits_each
  · exact fun _ => mem_nodes_of_mem_start
  · exact Nat.lt_succ_of_le (List.length_filter_le _ _)

end Walk
end TreeJudge

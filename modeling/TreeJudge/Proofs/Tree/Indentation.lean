import TreeJudge.Proofs.Tree.Visits

/-!
# What indentation says

A walk lists a tree from top to bottom, each level one deeper than the one above.
So the depths alone tell which edge a line came by: it leads from the nearest line
above that stands one level higher.
-/

set_option autoImplicit false

namespace TreeJudge.Walk
variable {t : ExecutionTree}

/-- Of the lines above, nearest first, the first that stands one level higher has
an edge to the line. -/
def Hangs (t : ExecutionTree) (above : List WalkLine) (l : WalkLine) : Prop :=
  ∃ p, above.find? (·.depth + 1 = l.depth) = some p ∧
    (⟨p.node.id, l.node.id⟩ : Edge) ∈ t.edges

def Stands (t : ExecutionTree) (above : List WalkLine) (l : WalkLine) : Prop :=
  (l.depth = 0 ∨ Hangs t above l) ∧ ∀ m ∈ above.head?, l.depth ≤ m.depth + 1

def Placed (t : ExecutionTree) : List WalkLine → List WalkLine → Prop
  | _, [] => True
  | above, l :: ls => Stands t above l ∧ Placed t (l :: above) ls

theorem placed_append (above ks ls : List WalkLine) :
    Placed t above (ks ++ ls) ↔ Placed t above ks ∧ Placed t (ks.reverse ++ above) ls := by
  induction ks generalizing above with
  | nil => simp [Placed]
  | cons k ks ih => simp [Placed, ih, and_assoc]

theorem Visits.depth_le {depth : Nat} {ns : List Node} {seen : List NodeId} {w : Walk}
    (h : Visits t depth ns seen w) : ∀ l ∈ w.lines, depth ≤ l.depth := by
  induction h with
  | done => simp
  | pass hn others ih => exact ih
  | enter hn below others ihb ih =>
    intro l hl
    rcases List.mem_cons.mp hl with rfl | hl
    · exact Nat.le_refl _
    · rcases List.mem_append.mp hl with hb | hw
      · have hlt := ihb l hb
        omega
      · exact ih l hw

/-- Nodes may come next at a depth when the line before them is deep enough and,
away from the margin, the nearest line one level higher leads to each of them. -/
structure Opens (t : ExecutionTree) (above : List WalkLine) (depth : Nat) (ns : List Node) :
    Prop where
  before : ∀ m ∈ above.head?, depth ≤ m.depth + 1
  parent : depth = 0 ∨ ∃ p, above.find? (·.depth + 1 = depth) = some p ∧
    ∀ n ∈ ns, (⟨p.node.id, n.id⟩ : Edge) ∈ t.edges

theorem Opens.tail {above : List WalkLine} {depth : Nat} {n : Node} {ns : List Node}
    (h : Opens t above depth (n :: ns)) : Opens t above depth ns where
  before := h.before
  parent := h.parent.imp_right fun ⟨p, hp, hns⟩ =>
    ⟨p, hp, fun m hm => hns m (List.mem_cons_of_mem n hm)⟩

theorem Opens.stands {above : List WalkLine} {depth : Nat} {n : Node} {ns : List Node}
    (h : Opens t above depth (n :: ns)) : Stands t above ⟨depth, n⟩ where
  left := h.parent.imp_right fun ⟨p, hp, hns⟩ => ⟨p, hp, hns n List.mem_cons_self⟩
  right := h.before

theorem opens_below (above : List WalkLine) (depth : Nat) (n : Node) :
    Opens t (⟨depth, n⟩ :: above) (depth + 1) (t.below n.id) where
  before := by simp
  parent := by
    refine .inr ⟨⟨depth, n⟩, by simp, fun m hm => ?_⟩
    exact ExecutionTree.edge_of_mem_below hm

theorem Opens.skip {above ls : List WalkLine} {depth : Nat} {ns : List Node}
    (h : Opens t above depth ns) (hls : ∀ l ∈ ls, depth ≤ l.depth) :
    Opens t (ls.reverse ++ above) depth ns where
  before := by
    intro m hm
    cases hr : ls.reverse with
    | nil =>
      rw [hr] at hm
      exact h.before m hm
    | cons k ks =>
      rw [hr] at hm
      cases hm
      have hk : m ∈ ls := List.mem_reverse.mp (hr ▸ List.mem_cons_self)
      have hle := hls m hk
      omega
  parent := by
    have hnone : ls.reverse.find? (·.depth + 1 = depth) = none := by
      apply List.find?_eq_none.mpr
      intro l hl
      have hle := hls l (List.mem_reverse.mp hl)
      simp only [decide_eq_true_eq]
      omega
    rcases h.parent with h0 | ⟨p, hp, hns⟩
    · exact .inl h0
    · exact .inr ⟨p, by rw [List.find?_append, hnone, Option.none_or, hp], hns⟩

theorem Visits.placed {depth : Nat} {ns : List Node} {seen : List NodeId} {w : Walk}
    (h : Visits t depth ns seen w) {above : List WalkLine} (ho : Opens t above depth ns) :
    Placed t above w.lines := by
  induction h generalizing above with
  | done => trivial
  | pass hn others ih => exact ih ho.tail
  | @enter depth n ns seen b w hn below others ihb ih =>
    have hb : Placed t (⟨depth, n⟩ :: above) b.lines := ihb (opens_below above depth n)
    have hdeep : ∀ l ∈ (⟨depth, n⟩ : WalkLine) :: b.lines, depth ≤ l.depth := by
      intro l hl
      rcases List.mem_cons.mp hl with rfl | hl
      · exact Nat.le_refl _
      · have hlt := below.depth_le l hl
        omega
    -- the nodes after `n` come behind `n` and all that is below it
    have hw := ih (ho.tail.skip hdeep)
    rw [List.reverse_cons, List.append_assoc] at hw
    exact ⟨ho.stands, (placed_append _ _ _).mpr ⟨hb, hw⟩⟩

theorem placed_of (t : ExecutionTree) : Placed t [] (Walk.of t).lines :=
  (visits_of t).placed ⟨by simp, .inl rfl⟩

theorem stands_of {above rest : List WalkLine} {l : WalkLine}
    (h : (Walk.of t).lines = above ++ l :: rest) : Stands t above.reverse l := by
  have hp := placed_of t
  rw [h, placed_append, List.append_nil] at hp
  exact hp.2.1

end TreeJudge.Walk

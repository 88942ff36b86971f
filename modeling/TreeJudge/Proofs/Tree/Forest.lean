import TreeJudge.Proofs.Tree.Indentation
import TreeJudge.Proofs.Tree.Reach

/-!
# A drawing is a spanning forest

Lines at the margin begin the trees of the forest: the roots first, then each node
that nothing before it leads to. Below such a line stands what it leads to, less
what the trees before it hold, and every line hangs from an edge.
-/

set_option autoImplicit false

namespace TreeJudge
namespace Walk
open ExecutionTree
variable {t : ExecutionTree}

def tops (ls : List WalkLine) : List NodeId := (ls.filter (·.depth = 0)).map (·.node.id)

/-- Identifiers are gone through in order, and one is picked when nothing that came
earlier leads to it. -/
inductive Picks (t : ExecutionTree) : List NodeId → List NodeId → List NodeId → Prop
  | done {earlier : List NodeId} : Picks t earlier [] []
  | skip {earlier ids picked : List NodeId} {id : NodeId}
      (h : ∃ r ∈ earlier, t.Reaches r id) (others : Picks t earlier ids picked) :
      Picks t earlier (id :: ids) picked
  | pick {earlier ids picked : List NodeId} {id : NodeId}
      (h : ¬ ∃ r ∈ earlier, t.Reaches r id) (others : Picks t (earlier ++ [id]) ids picked) :
      Picks t earlier (id :: ids) (id :: picked)

theorem Picks.split {earlier xs ys picked : List NodeId} (h : Picks t earlier (xs ++ ys) picked) :
    ∃ first later, picked = first ++ later ∧ Picks t earlier xs first ∧
      Picks t (earlier ++ first) ys later := by
  induction xs generalizing earlier picked with
  | nil => exact ⟨[], picked, rfl, .done, by simpa using h⟩
  | cons x xs ih =>
    cases h with
    | skip hx others =>
      obtain ⟨first, later, rfl, hfirst, hlater⟩ := ih others
      exact ⟨first, later, rfl, .skip hx hfirst, hlater⟩
    | pick hx others =>
      obtain ⟨first, later, rfl, hfirst, hlater⟩ := ih others
      exact ⟨x :: first, later, rfl, .pick hx hfirst, by simpa using hlater⟩

theorem Picks.distinct {earlier xs picked : List NodeId} (h : Picks t earlier xs picked)
    (hx : ∀ x ∈ xs, ∀ a, t.Reaches a x → a = x) :
    picked = (xs.filter (· ∉ earlier)).eraseDups := by
  induction h with
  | done => rfl
  | @skip earlier ids picked id h others ih =>
    obtain ⟨r, hr, hreach⟩ := h
    have hid : id ∈ earlier := hx id List.mem_cons_self r hreach ▸ hr
    rw [ih fun x h => hx x (List.mem_cons_of_mem _ h), List.filter_cons_of_neg (by simpa using hid)]
  | @pick earlier ids picked id h others ih =>
    have hid : id ∉ earlier := fun hid => h ⟨id, hid, .refl⟩
    rw [ih fun x h => hx x (List.mem_cons_of_mem _ h), List.filter_cons_of_pos (by simpa using hid),
      List.eraseDups_cons, List.filter_filter]
    congr 2
    apply List.filter_congr
    intro x _
    by_cases hxid : x = id <;> simp [hxid]

theorem tops_eq_nil {ls : List WalkLine} (h : ∀ l ∈ ls, 0 < l.depth) : tops ls = [] := by
  have hfilter : ls.filter (·.depth = 0) = [] := by
    apply List.filter_eq_nil_iff.mpr
    intro l hl
    have hpos := h l hl
    simp only [decide_eq_true_eq]
    omega
  rw [tops, hfilter, List.map_nil]

theorem tops_append (ks ls : List WalkLine) : tops (ks ++ ls) = tops ks ++ tops ls := by
  simp [tops]

theorem tops_cons_zero (n : Node) (ls : List WalkLine) : tops (⟨0, n⟩ :: ls) = n.id :: tops ls := by
  simp [tops]

theorem Visits.picks {ns : List Node} {earlier seen : List NodeId} {w : Walk}
    (h : Visits t 0 ns seen w) (hns : ∀ n ∈ ns, n ∈ t.nodes) (hc : Covers t earlier seen) :
    Picks t earlier (ns.map (·.id)) (tops w.lines) := by
  induction ns generalizing earlier seen w with
  | nil =>
    cases h
    exact .done
  | cons n ns ih =>
    have hrest : ∀ m ∈ ns, m ∈ t.nodes := fun m hm => hns m (List.mem_cons_of_mem n hm)
    have hn : n ∈ t.nodes := hns n List.mem_cons_self
    cases h with
    | pass hs others => exact .skip ((hc n.id).mp hs) (ih others hrest hc)
    | @enter _ _ _ _ b w hs below others =>
      have hpicks := ih others hrest (covers_below hc hn below)
      rw [tops_cons_zero, tops_append, tops_eq_nil below.depth_le, List.nil_append]
      exact .pick (fun h => hs ((hc n.id).mpr h)) hpicks

theorem Visits.head_depth {depth : Nat} {ns : List Node} {seen : List NodeId} {w : Walk}
    (h : Visits t depth ns seen w) : ∀ l ∈ w.lines.head?, l.depth = depth := by
  induction h with
  | done => simp
  | pass hn others ih => exact ih
  | enter hn below others ihb ih => simp

theorem takeWhile_deep {ks ls : List WalkLine} (hk : ∀ l ∈ ks, 0 < l.depth)
    (hl : ∀ l ∈ ls.head?, l.depth = 0) : (ks ++ ls).takeWhile (·.depth ≠ 0) = ks := by
  have hls : ls.takeWhile (·.depth ≠ 0) = [] := by
    cases ls with
    | nil => rfl
    | cons l ls => simp [hl l rfl]
  rw [List.takeWhile_append_of_pos, hls, List.append_nil]
  intro l h
  have hpos := hk l h
  simp only [ne_eq, decide_not, Bool.not_eq_true', decide_eq_false_iff_not]
  omega

theorem split_behind {ks ls above rest : List WalkLine} {top : WalkLine}
    (h : ks ++ ls = above ++ top :: rest) (h0 : top.depth = 0) (hk : ∀ l ∈ ks, 0 < l.depth) :
    ∃ above', above = ks ++ above' ∧ ls = above' ++ top :: rest := by
  rcases List.append_eq_append_iff.mp h with ⟨above', ha, hl⟩ | ⟨more, hks, hmore⟩
  · exact ⟨above', ha, hl⟩
  · cases more with
    | nil => exact ⟨[], by simpa using hks.symm, by simpa using hmore.symm⟩
    | cons m more =>
      cases hmore
      have hpos := hk top (by simp [hks])
      omega

/-- From a line at the margin to the next stands what it leads to, less what the
lines at the margin before it lead to. -/
theorem Visits.groups {ns : List Node} {earlier seen : List NodeId} {w : Walk}
    (h : Visits t 0 ns seen w) (hns : ∀ n ∈ ns, n ∈ t.nodes) (hc : Covers t earlier seen)
    {above rest : List WalkLine} {top : WalkLine} (hw : w.lines = above ++ top :: rest)
    (h0 : top.depth = 0) (id : NodeId) :
    id ∈ (top :: rest.takeWhile (·.depth ≠ 0)).map (·.node.id) ↔
      t.Reaches top.node.id id ∧ ∀ r ∈ earlier ++ tops above, ¬ t.Reaches r id := by
  induction ns generalizing earlier seen w above with
  | nil =>
    cases h
    simp at hw
  | cons n ns ih =>
    have hrest : ∀ m ∈ ns, m ∈ t.nodes := fun m hm => hns m (List.mem_cons_of_mem n hm)
    have hn : n ∈ t.nodes := hns n List.mem_cons_self
    cases h with
    | pass hs others => exact ih others hrest hc hw
    | @enter _ _ _ _ b w hs below others =>
      -- `n` is at the margin: either its own line is meant, or one that comes behind all below it
      cases above with
      | nil =>
        obtain ⟨rfl, rfl⟩ := List.cons.inj hw
        rw [takeWhile_deep below.depth_le others.head_depth]
        simpa [tops] using mem_group hc hn below hs id
      | cons a above =>
        obtain ⟨rfl, htail⟩ := List.cons.inj hw
        obtain ⟨above, rfl, hrest'⟩ := split_behind htail h0 below.depth_le
        rw [tops_cons_zero, tops_append, tops_eq_nil below.depth_le, List.nil_append,
          List.append_cons]
        exact ih others hrest (covers_below hc hn below) hrest'

end Walk

namespace Render

theorem line_eq_prefix (colors : Bool) (s : Snapshot) (l : WalkLine) :
    Piece.writeAll colors (line s l) =
      String.join (List.replicate l.depth guide) ++ Piece.writeAll colors (line s ⟨0, l.node⟩) := by
  simp [line, Piece.writeAll, indent]

/-- A drawing is a depth-first spanning forest. Each line is its node behind a guide
for each level, and ends where the next begins; the nearest line above that stands one
level higher has an edge to it, and no line is more than a level deeper than the one
before. At the margin stand the distinct roots and then, in order, each node that
nothing before it at the margin leads to. No node stands twice, and the lines from there
to the next at the margin are what it leads to and nothing before it at the margin does. -/
theorem tree_draws_spanning_forest (s : Snapshot) (t : ExecutionTree) (h : s.tree = some t)
    (colors : Bool) :
    let lines := (Walk.of t).lines
    let roots := (t.roots.map (·.id)).eraseDups
    Piece.writeAll colors (tree s) =
        String.join (lines.map fun l =>
          String.join (List.replicate l.depth guide) ++
            Piece.writeAll colors (line s ⟨0, l.node⟩)) ∧
      Piece.writeAll false (tree s) = String.join (lines.map (lineText s)) ∧
      (∀ above l rest, lines = above ++ l :: rest →
        (l.depth = 0 ∨ ∃ p, above.reverse.find? (·.depth + 1 = l.depth) = some p ∧
          (⟨p.node.id, l.node.id⟩ : Edge) ∈ t.edges) ∧
        ∀ m ∈ above.getLast?, l.depth ≤ m.depth + 1) ∧
      (∃ later, Walk.tops lines = roots ++ later ∧ Walk.Picks t roots t.ids later) ∧
      (lines.map (·.node.id)).Nodup ∧
      ∀ above top rest, lines = above ++ top :: rest → top.depth = 0 → ∀ id,
        id ∈ (top :: rest.takeWhile (·.depth ≠ 0)).map (·.node.id) ↔
          t.Reaches top.node.id id ∧ ∀ r ∈ Walk.tops above, ¬ t.Reaches r id := by
  intro lines roots
  have hns : ∀ n ∈ t.roots ++ t.nodes, n ∈ t.nodes := fun _ => Walk.mem_nodes_of_mem_start
  have hc : Walk.Covers t [] [] := by simp [Walk.Covers]
  refine ⟨?_, text_of_tree h, ?_, ?_, Walk.nodup_of t, ?_⟩
  · simp only [writeAll_tree h, ← line_eq_prefix, lines]
  · intro above l rest hlines
    obtain ⟨hhangs, hbefore⟩ := Walk.stands_of hlines
    rw [List.head?_reverse] at hbefore
    exact ⟨hhangs, hbefore⟩
  · have hpicks := (Walk.visits_of t).picks hns hc
    rw [List.map_append] at hpicks
    obtain ⟨first, later, htops, hfirst, hlater⟩ := hpicks.split
    have hroots : first = roots := by
      rw [hfirst.distinct, List.filter_eq_self.mpr (by simp)]
      intro x hx a ha
      obtain ⟨n, hn, rfl⟩ := List.mem_map.mp hx
      exact ExecutionTree.eq_of_reaches_root hn ha
    rw [hroots] at htops hlater
    exact ⟨later, htops, hlater⟩
  · intro above top rest hlines h0 id
    exact (Walk.visits_of t).groups hns hc hlines h0 id

def crossing : ExecutionTree where
  nodes := [⟨.text "a", "f", "", none⟩, ⟨.number 2, "g", "", none⟩, ⟨.text "b", "h", "", none⟩,
    ⟨.number 1, "k", "", none⟩, ⟨.number 3, "main", "", none⟩]
  edges := [⟨.number 3, .number 1⟩, ⟨.number 3, .number 2⟩, ⟨.number 1, .number 2⟩,
    ⟨.text "a", .text "b"⟩, ⟨.text "b", .text "a"⟩, ⟨.text "b", .number 2⟩,
    ⟨.number 7, .text "a"⟩]

theorem crossing_drawn_as_forest :
    let drawn : Snapshot := { tangled with tree := some crossing }
    let under : List WalkLine := [⟨0, ⟨.number 3, "main", "", none⟩⟩,
      ⟨1, ⟨.number 1, "k", "", none⟩⟩]
    drawn.tree = some crossing ∧
      Piece.writeAll false (tree drawn) =
        "main [3]\n│   k [1]\n│   │   g [2]\nf [a]\n│   h [b]\n" ∧
      (∃ p, under.reverse.find? (·.depth + 1 = 2) = some p ∧
        (⟨p.node.id, .number 2⟩ : Edge) ∈ crossing.edges) ∧
      ∀ id, id ∈ [NodeId.text "a", .text "b"] ↔
        crossing.Reaches (.text "a") id ∧ ∀ r ∈ [NodeId.number 3], ¬ crossing.Reaches r id := by
  intro drawn under
  have hlines : (Walk.of crossing).lines =
      under ++ ⟨2, ⟨.number 2, "g", "", none⟩⟩ ::
        [⟨0, ⟨.text "a", "f", "", none⟩⟩, ⟨1, ⟨.text "b", "h", "", none⟩⟩] := by
    decide +kernel
  obtain ⟨-, htext, hstands, -, -, hgroups⟩ := tree_draws_spanning_forest drawn crossing rfl true
  have hhangs := (hstands _ _ _ hlines).1
  rw [hlines] at htext
  refine ⟨rfl, htext.trans (by decide +kernel), hhangs.resolve_left (by decide), ?_⟩
  exact hgroups (under ++ [⟨2, ⟨.number 2, "g", "", none⟩⟩]) ⟨0, ⟨.text "a", "f", "", none⟩⟩ _
    (by rw [hlines]; rfl) rfl

end Render
end TreeJudge

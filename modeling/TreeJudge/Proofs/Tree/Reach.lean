import Mathlib.Logic.Relation
import TreeJudge.Proofs.Tree.Listing

/-!
# What a visit reaches

When a visit begins and all that listed nodes lead to is listed, the same holds when
it ends: a node is done only when everything that its edges lead to is listed. So a
visit adds exactly what can be reached from its node and was not reached before.
-/

set_option autoImplicit false

namespace TreeJudge
namespace ExecutionTree
variable {t : ExecutionTree}

def Joins (t : ExecutionTree) (a b : NodeId) : Prop :=
  (⟨a, b⟩ : Edge) ∈ t.edges ∧ a ∈ t.ids ∧ b ∈ t.ids

def Reaches (t : ExecutionTree) : NodeId → NodeId → Prop := Relation.ReflTransGen t.Joins

theorem mem_ids {n : Node} (h : n ∈ t.nodes) : n.id ∈ t.ids := List.mem_map_of_mem h

theorem joins_of_mem_below {n m : Node} (hn : n ∈ t.nodes) (hm : m ∈ t.below n.id) :
    t.Joins n.id m.id :=
  ⟨edge_of_mem_below hm, mem_ids hn, mem_ids (mem_nodes_of_mem_below hm)⟩

theorem exists_mem_below {a b : NodeId} (h : t.Joins a b) : ∃ m ∈ t.below a, m.id = b := by
  obtain ⟨hedge, -, hb⟩ := h
  obtain ⟨n, hn, hid⟩ := List.mem_map.mp hb
  have hsome : (t.node? b).isSome := List.find?_isSome.mpr ⟨n, hn, by simpa using hid⟩
  obtain ⟨m, hm⟩ := Option.isSome_iff_exists.mp hsome
  exact ⟨m, List.mem_filterMap.mpr ⟨b, (t.mem_children a b).mpr hedge, hm⟩, id_of_node? hm⟩

theorem eq_of_reaches_root {n : Node} (hn : n ∈ t.roots) {a : NodeId}
    (h : t.Reaches a n.id) : a = n.id := by
  rcases Relation.ReflTransGen.cases_tail h with heq | ⟨b, -, hjoin⟩
  · exact heq.symm
  · have hnone : t.edges.any (·.target = n.id) = false := by
      simpa using (List.mem_filter.mp hn).2
    have hany : t.edges.any (·.target = n.id) = true :=
      List.any_eq_true.mpr ⟨_, hjoin.1, by simp⟩
    rw [hnone] at hany
    cases hany

end ExecutionTree

namespace Walk
open ExecutionTree
variable {t : ExecutionTree}

/-- When a walk is done with a node, it has listed all that its edges lead to. -/
theorem Visits.finished {depth : Nat} {ns : List Node} {seen : List NodeId} {w : Walk}
    (h : Visits t depth ns seen w) :
    ∀ a ∈ w.seen, a ∉ seen → ∀ c, t.Joins a c → c ∈ w.seen := by
  induction h with
  | done => exact fun a ha hs => absurd ha hs
  | pass hn others ih => exact ih
  | @enter depth n ns seen b w hn below others ihb ih =>
    intro a ha hs c hjoin
    by_cases hb : a ∈ b.seen
    · apply others.seen_subset
      by_cases hid : a = n.id
      · -- `n` itself is not done before everything below it has had its turn
        rw [hid] at hjoin
        obtain ⟨m, hm, rfl⟩ := exists_mem_below hjoin
        exact below.listed m hm
      · exact ihb a hb (by simp [hid, hs]) c hjoin
    · exact ih a ha hb c hjoin

theorem Visits.new {depth : Nat} {ns : List Node} {seen : List NodeId} {w : Walk}
    (h : Visits t depth ns seen w) : ∀ l ∈ w.lines, l.node.id ∉ seen := by
  induction h with
  | done => simp
  | pass hn others ih => exact ih
  | enter hn below others ihb ih =>
    intro l hl hs
    rcases List.mem_cons.mp hl with rfl | hl
    · exact hn hs
    · rcases List.mem_append.mp hl with hb | hw
      · exact ihb l hb (List.mem_cons_of_mem _ hs)
      · exact ih l hw (below.seen_subset (List.mem_cons_of_mem _ hs))

theorem Visits.reached {depth : Nat} {ns : List Node} {seen : List NodeId} {w : Walk}
    (h : Visits t depth ns seen w) (hns : ∀ n ∈ ns, n ∈ t.nodes) :
    ∀ l ∈ w.lines, ∃ n ∈ ns, t.Reaches n.id l.node.id := by
  induction h with
  | done => simp
  | pass hn others ih =>
    intro l hl
    obtain ⟨m, hm, hr⟩ := ih (fun m hm => hns m (List.mem_cons_of_mem _ hm)) l hl
    exact ⟨m, List.mem_cons_of_mem _ hm, hr⟩
  | @enter depth n ns seen b w hn below others ihb ih =>
    intro l hl
    have hnode : n ∈ t.nodes := hns n List.mem_cons_self
    rcases List.mem_cons.mp hl with rfl | hl
    · exact ⟨n, List.mem_cons_self, .refl⟩
    · rcases List.mem_append.mp hl with hb | hw
      · obtain ⟨m, hm, hr⟩ := ihb (fun _ => mem_nodes_of_mem_below) l hb
        exact ⟨n, List.mem_cons_self, .head (joins_of_mem_below hnode hm) hr⟩
      · obtain ⟨m, hm, hr⟩ := ih (fun m hm => hns m (List.mem_cons_of_mem _ hm)) l hw
        exact ⟨m, List.mem_cons_of_mem _ hm, hr⟩

/-- The listed identifiers are those that something at the margin leads to. -/
def Covers (t : ExecutionTree) (tops seen : List NodeId) : Prop :=
  ∀ id, id ∈ seen ↔ ∃ r ∈ tops, t.Reaches r id

theorem Covers.closed {tops seen : List NodeId} (h : Covers t tops seen) {a c : NodeId}
    (ha : a ∈ seen) (hjoin : t.Joins a c) : c ∈ seen := by
  obtain ⟨r, hr, hreach⟩ := (h a).mp ha
  exact (h c).mpr ⟨r, hr, hreach.tail hjoin⟩

section
variable {depth : Nat} {n : Node} {tops seen : List NodeId} {b : Walk}
  (hc : Covers t tops seen) (hn : n ∈ t.nodes)
  (below : Visits t depth (t.below n.id) (n.id :: seen) b)
include hc hn below

theorem mem_seen_below (id : NodeId) : id ∈ b.seen ↔ id ∈ seen ∨ t.Reaches n.id id := by
  have hsub : n.id :: seen ⊆ b.seen := below.seen_subset
  constructor
  · intro h
    rw [below.seen_eq, List.mem_append, List.mem_reverse, List.mem_map] at h
    rcases h with ⟨l, hl, rfl⟩ | h
    · obtain ⟨m, hm, hr⟩ := below.reached (fun _ => mem_nodes_of_mem_below) l hl
      exact .inr (.head (joins_of_mem_below hn hm) hr)
    · rcases List.mem_cons.mp h with rfl | h
      · exact .inr .refl
      · exact .inl h
  · rintro (h | h)
    · exact hsub (List.mem_cons_of_mem _ h)
    · -- along the way from `n`, what has been listed is closed under edges
      induction h with
      | refl => exact hsub List.mem_cons_self
      | @tail a c _ hjoin ha =>
        by_cases hs : a ∈ n.id :: seen
        · rcases List.mem_cons.mp hs with rfl | hs
          · obtain ⟨m, hm, rfl⟩ := exists_mem_below hjoin
            exact below.listed m hm
          · exact hsub (List.mem_cons_of_mem _ (hc.closed hs hjoin))
        · exact below.finished a ha hs c hjoin

theorem covers_below : Covers t (tops ++ [n.id]) b.seen := by
  intro id
  rw [mem_seen_below hc hn below id, hc id]
  simp [or_and_right, exists_or]

theorem mem_group (hnew : n.id ∉ seen) (id : NodeId) :
    id ∈ n.id :: b.lines.map (·.node.id) ↔
      t.Reaches n.id id ∧ ∀ r ∈ tops, ¬ t.Reaches r id := by
  have hgroup : id ∈ n.id :: b.lines.map (·.node.id) ↔ id ∈ b.seen ∧ id ∉ seen := by
    rw [below.seen_eq]
    constructor
    · intro h
      rcases List.mem_cons.mp h with rfl | h
      · exact ⟨by simp, hnew⟩
      · obtain ⟨l, hl, rfl⟩ := List.mem_map.mp h
        have hs := below.new l hl
        exact ⟨by simp [List.mem_map_of_mem hl], fun h => hs (List.mem_cons_of_mem _ h)⟩
    · rintro ⟨h, hs⟩
      simpa [hs, or_comm] using h
  have hseen : id ∉ seen ↔ ∀ r ∈ tops, ¬ t.Reaches r id := by
    rw [hc id]
    simp
  rw [hgroup, mem_seen_below hc hn below id, ← hseen]
  exact and_congr_left fun hs => or_iff_right hs

end

end Walk
end TreeJudge

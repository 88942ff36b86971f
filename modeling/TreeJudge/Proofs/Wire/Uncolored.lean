import TreeJudge.Proofs.Shape.Kept
import TreeJudge.Wire.Inbound

/-!
# Frames carry no colors

Whatever a frame says about colors, no node of the tree that is read from it has
one: no field of a node sets the color that it starts without.
-/

set_option autoImplicit false

namespace TreeJudge
open Shape

def ExecutionTree.Uncolored (t : ExecutionTree) : Prop := ∀ n ∈ t.nodes, n.color = none

theorem ExecutionTree.plain_of_uncolored {t : ExecutionTree} (h : t.Uncolored) :
    t.plain = t := by
  have hmap : t.nodes.map (fun n => { n with color := none }) = t.nodes.map id := by
    apply List.map_congr_left
    intro n hn
    have hc := h n hn
    cases n
    cases hc
    rfl
  rw [plain, hmap, List.map_id]

theorem Node.read_uncolored {v : Json} {n : Node}
    (h : (OfJson.record Node.record).read v = .ok n) : n.color = none := by
  apply OfJson.record_keeps (P := fun n : Node => n.color = none) rfl _ h
  intro f hf
  simp only [Node.record, List.mem_cons, List.not_mem_nil, or_false] at hf
  rcases hf with rfl | rfl | rfl <;> exact OfJson.keeps_field fun _ _ _ _ ha => ha

theorem ExecutionTree.read_uncolored {v : Json} {t : ExecutionTree}
    (h : (OfJson.record ExecutionTree.record).read v = .ok t) : t.Uncolored := by
  apply OfJson.record_keeps (P := Uncolored) (by simp [Uncolored, ExecutionTree.record]) _ h
  intro f hf
  simp only [ExecutionTree.record, List.mem_cons, List.not_mem_nil, or_false] at hf
  rcases hf with rfl | rfl
  · apply OfJson.keeps_field
    intro v ns hns t _
    exact OfJson.list_forall (P := fun n : Node => n.color = none)
      (fun _ _ => Node.read_uncolored) hns
  · exact OfJson.keeps_field fun _ _ _ _ ha => ha

namespace Inbound

theorem treeMessage_uncolored {v : Json} {t : ExecutionTree}
    (h : (OfJson.record treeMessage).read v = .ok t) : t.Uncolored := by
  apply OfJson.record_keeps (P := ExecutionTree.Uncolored)
    (by simp [ExecutionTree.Uncolored, treeMessage]) _ h
  intro f hf
  simp only [treeMessage, List.mem_cons, List.not_mem_nil, or_false] at hf
  subst hf
  exact OfJson.keeps_field fun _ _ ht _ _ => ExecutionTree.read_uncolored ht

theorem known?_eq_some {kind : String} {reader : OfJson Inbound}
    (h : known? kind = some reader) :
    (kind = "tree" ∧ reader = Source.map tree (Source.record treeMessage)) ∨
    (kind = "cmd" ∧ reader = Source.map output (Source.record outputMessage)) ∨
    (kind = "id" ∧ reader = Source.map focus (Source.record focusMessage)) := by
  unfold known? at h
  split at h
  · exact .inl ⟨‹_›, (Option.some.inj h).symm⟩
  · split at h
    · exact .inr (.inl ⟨‹_›, (Option.some.inj h).symm⟩)
    · split at h
      · exact .inr (.inr ⟨‹_›, (Option.some.inj h).symm⟩)
      · cases h

theorem ofJson_cases {v : Json} {m : Inbound} (h : ofJson v = .ok m) :
    (∃ t, m = .tree t ∧ (OfJson.record treeMessage).read v = .ok t) ∨
    (∃ w, m = .output w ∧ (OfJson.record outputMessage).read v = .ok w) ∨
    (∃ i, m = .focus i ∧ (OfJson.record focusMessage).read v = .ok i) ∨
    ∃ kind, m = .unrecognized kind := by
  unfold ofJson at h
  split at h
  · next kind _ =>
    split at h
    · next reader hk =>
      have hr := mapError_eq_ok.mp h
      rcases known?_eq_some hk with ⟨-, rfl⟩ | ⟨-, rfl⟩ | ⟨-, rfl⟩
      · obtain ⟨t, ht, he⟩ := map_eq_ok.mp hr
        exact .inl ⟨t, he.symm, ht⟩
      · obtain ⟨w, hw, he⟩ := map_eq_ok.mp hr
        exact .inr (.inl ⟨w, he.symm, hw⟩)
      · obtain ⟨i, hi, he⟩ := map_eq_ok.mp hr
        exact .inr (.inr (.inl ⟨i, he.symm, hi⟩))
    · exact .inr (.inr (.inr ⟨some kind, (Except.ok.inj h).symm⟩))
  · exact .inr (.inr (.inr ⟨none, (Except.ok.inj h).symm⟩))

theorem decode_eq_ok {frame : String} {m : Inbound} :
    decode frame = .ok m ↔ ∃ v, Json.parse frame = .ok v ∧ ofJson v = .ok m := by
  unfold decode
  split
  · next problem hv => simp [hv]
  · next v hv => simp [hv, mapError_eq_ok]

/-- A tree that comes in has no colors. -/
theorem decode_uncolored {frame : String} {t : ExecutionTree}
    (h : decode frame = .ok (.tree t)) : t.Uncolored := by
  obtain ⟨v, -, hv⟩ := decode_eq_ok.mp h
  rcases ofJson_cases hv with ⟨t', ⟨⟩, ht⟩ | ⟨_, ⟨⟩, _⟩ | ⟨_, ⟨⟩, _⟩ | ⟨_, ⟨⟩⟩
  exact treeMessage_uncolored ht

end Inbound
end TreeJudge

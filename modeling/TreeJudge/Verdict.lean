import TreeJudge.Json.Basic
import TreeJudge.Shape.Record
import TreeJudge.Tree.Basic

/-!
# Verdicts and their colors

The flagged node is rejected, any other confirmed node is confirmed. Coloring a
tree gives every node the color of its verdict and removes all others.
-/

set_option autoImplicit false

namespace TreeJudge
open Shape

structure Palette where
  rejected : String
  confirmed : String
deriving Repr, DecidableEq

def Palette.standard : Palette := ⟨"#e74c3c", "#58d68d"⟩

def Palette.record {m : Type → Type} [Source m] : Record m Palette where
  name := "Palette"
  fields := [
    optional "rejected" Source.text fun s p => { p with rejected := s },
    optional "confirmed" Source.text fun s p => { p with confirmed := s }]
  start := .standard

def Palette.toJson (p : Palette) : Json :=
  .obj [("rejected", .str p.rejected), ("confirmed", .str p.confirmed)]

inductive Verdict where
  | rejected
  | confirmed
deriving Repr, DecidableEq

namespace Verdict

/-- The flag wins over a confirmation. -/
def of? (flagged : Option NodeId) (confirmed : IdSet) (id : NodeId) : Option Verdict :=
  if flagged = some id then some .rejected
  else if confirmed.contains id then some .confirmed
  else none

section
variable (flagged : Option NodeId) (confirmed : IdSet) (id : NodeId)

theorem of?_eq_rejected : of? flagged confirmed id = some .rejected ↔ flagged = some id := by
  by_cases hf : flagged = some id
  · simp [of?, hf]
  · by_cases hc : confirmed.contains id <;> simp [of?, hf, hc]

theorem of?_eq_confirmed :
    of? flagged confirmed id = some .confirmed ↔ flagged ≠ some id ∧ id ∈ confirmed := by
  rw [← IdSet.contains_iff]
  by_cases hf : flagged = some id
  · simp [of?, hf]
  · by_cases hc : confirmed.contains id <;> simp [of?, hf, hc]

theorem of?_eq_none : of? flagged confirmed id = none ↔ flagged ≠ some id ∧ id ∉ confirmed := by
  rw [← IdSet.contains_iff]
  by_cases hf : flagged = some id
  · simp [of?, hf]
  · by_cases hc : confirmed.contains id <;> simp [of?, hf, hc]

end

def color (p : Palette) : Verdict → NodeColor
  | .rejected => .solid p.rejected
  | .confirmed => .solid p.confirmed

end Verdict

def annotate (t : ExecutionTree) (flagged : Option NodeId) (confirmed : IdSet)
    (p : Palette) : ExecutionTree where
  nodes := t.nodes.map fun n =>
    { n with color := (Verdict.of? flagged confirmed n.id).map (Verdict.color p) }
  edges := t.edges

theorem annotate_plain (t : ExecutionTree) (flagged : Option NodeId) (confirmed : IdSet)
    (p : Palette) : (annotate t flagged confirmed p).plain = t.plain := by
  simp [annotate, ExecutionTree.plain]

end TreeJudge

import TreeJudge.Json.Basic
import TreeJudge.Tree.NodeId

/-!
# Identifiers as JSON values

Integers of 64 bits with sign and strings are identifiers; no other value is,
and no number is ever changed to fit.
-/

set_option autoImplicit false

namespace TreeJudge.NodeId

def toJson : NodeId → Json
  | .number n => .int n.toInt
  | .text s => .str s

def ofJson? : Json → Option NodeId
  | .int n =>
    if Int64.minValue.toInt ≤ n ∧ n ≤ Int64.maxValue.toInt then some (.number (Int64.ofInt n))
    else none
  | .str s => some (.text s)
  | _ => none

theorem ofJson?_toJson (i : NodeId) : ofJson? i.toJson = some i := by
  cases i with
  | number n =>
    have h := n.minValue_le_toInt
    have h' := n.toInt_le
    simp only [toJson, ofJson?, if_pos (And.intro h h'), Int64.ofInt_toInt]
  | text s => rfl

end TreeJudge.NodeId

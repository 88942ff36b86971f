import TreeJudge.Tree.Basic

/-!
# Walking a tree

A walk lists every node once, with its depth: depth first from the roots, then
from whatever no root leads to. An identifier that has been listed is passed
over, so the walk ends on every graph.
-/

set_option autoImplicit false

namespace TreeJudge

structure WalkLine where
  depth : Nat
  node : Node
deriving Repr, DecidableEq

structure Walk where
  lines : List WalkLine
  seen : List NodeId
deriving Repr, DecidableEq

namespace Walk

def each {ι : Type} (visit : ι → List NodeId → Walk) : List ι → List NodeId → Walk
  | [], seen => ⟨[], seen⟩
  | x :: xs, seen =>
    let first := visit x seen
    let others := each visit xs first.seen
    ⟨first.lines ++ others.lines, others.seen⟩

/-- A node with all below it. Every level lists a new node, so as many levels
as there are nodes are enough. -/
def visit (t : ExecutionTree) : Nat → Nat → Node → List NodeId → Walk
  | 0, _, _, seen => ⟨[], seen⟩
  | levels + 1, depth, n, seen =>
    if n.id ∈ seen then ⟨[], seen⟩
    else
      let below := each (visit t levels (depth + 1)) ((t.children n.id).filterMap t.node?)
        (n.id :: seen)
      ⟨⟨depth, n⟩ :: below.lines, below.seen⟩

/-- All nodes: the roots first, then every node in order, as far as it has not
been listed. -/
def of (t : ExecutionTree) : Walk :=
  each (visit t (t.nodes.length + 1) 0) (t.roots ++ t.nodes) []

end Walk
end TreeJudge

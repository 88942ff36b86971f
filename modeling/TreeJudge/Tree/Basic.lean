import TreeJudge.Tree.NodeId
import TreeJudge.Tree.Title

/-!
# Execution trees

A tree is a list of nodes and a list of edges. Nothing is asked of them:
identifiers may repeat, edges may form cycles or name nodes that do not exist.
The first node with an identifier is the one that the identifier names.
-/

set_option autoImplicit false

namespace TreeJudge

structure NodeColor where
  background : String
  border : String
deriving Repr, DecidableEq

def NodeColor.solid (color : String) : NodeColor := ⟨color, color⟩

structure Node where
  id : NodeId
  label : String
  title : String
  color : Option NodeColor
deriving Repr, DecidableEq

structure Edge where
  source : NodeId
  target : NodeId
deriving Repr, DecidableEq

structure ExecutionTree where
  nodes : List Node
  edges : List Edge
deriving Repr, DecidableEq

structure NodeDetails where
  id : NodeId
  label : String
  fields : List TitleField
deriving Repr, DecidableEq

namespace ExecutionTree

def ids (t : ExecutionTree) : List NodeId := t.nodes.map (·.id)

def node? (t : ExecutionTree) (id : NodeId) : Option Node := t.nodes.find? (·.id = id)

/-- In the order of the edges, with repetitions, known or not. -/
def children (t : ExecutionTree) (id : NodeId) : List NodeId :=
  (t.edges.filter (·.source = id)).map (·.target)

def roots (t : ExecutionTree) : List Node :=
  t.nodes.filter fun n => !t.edges.any (·.target = n.id)

/-- The edges with an end that names no node. -/
def dangling (t : ExecutionTree) : List Edge :=
  t.edges.filter fun e => !(t.ids.contains e.source && t.ids.contains e.target)

def details? (t : ExecutionTree) (id : NodeId) : Option NodeDetails :=
  (t.node? id).map fun n => ⟨n.id, n.label, Title.fields n.title⟩

def plain (t : ExecutionTree) : ExecutionTree :=
  ⟨t.nodes.map fun n => { n with color := none }, t.edges⟩

theorem mem_children (t : ExecutionTree) (a b : NodeId) :
    b ∈ t.children a ↔ (⟨a, b⟩ : Edge) ∈ t.edges := by
  simp only [children, List.mem_map, List.mem_filter, decide_eq_true_eq]
  constructor
  · rintro ⟨e, ⟨he, rfl⟩, rfl⟩
    exact he
  · exact fun h => ⟨_, ⟨h, rfl⟩, rfl⟩

end ExecutionTree
end TreeJudge

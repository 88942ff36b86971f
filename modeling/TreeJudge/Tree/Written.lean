import TreeJudge.Json.Basic
import TreeJudge.Shape.Record
import TreeJudge.Tree.Basic
import TreeJudge.Tree.Identifier

/-!
# Trees as JSON

How trees are written, and the records they are read from. Colors are written
when there are any and never read.
-/

set_option autoImplicit false

namespace TreeJudge
open Shape

def NodeColor.toJson (c : NodeColor) : Json :=
  .obj [("background", .str c.background), ("border", .str c.border)]

def Node.toJson (n : Node) : Json :=
  .obj ([("id", n.id.toJson), ("label", .str n.label), ("title", .str n.title)] ++
    match n.color with
    | some c => [("color", c.toJson)]
    | none => [])

def Edge.toJson (e : Edge) : Json :=
  .obj [("from", e.source.toJson), ("to", e.target.toJson)]

def ExecutionTree.toJson (t : ExecutionTree) : Json :=
  .obj [("nodes", .arr (t.nodes.map Node.toJson)), ("edges", .arr (t.edges.map Edge.toJson))]

section
variable {m : Type → Type} [TreeSource m]

def NodeColor.record : Record m NodeColor where
  name := "NodeColor"
  fields := [
    required "background" Source.text fun s c => { c with background := s },
    required "border" Source.text fun s c => { c with border := s }]
  start := ⟨"", ""⟩

def Node.record : Record m Node where
  name := "Node"
  fields := [
    required "id" TreeSource.identifier fun i n => { n with id := i },
    optional "label" Source.text fun s n => { n with label := s },
    optional "title" Source.text fun s n => { n with title := s }]
  start := ⟨default, "", "", none⟩

def Edge.record : Record m Edge where
  name := "Edge"
  fields := [
    required "from" TreeSource.identifier fun i e => { e with source := i },
    required "to" TreeSource.identifier fun i e => { e with target := i }]
  start := ⟨default, default⟩

def ExecutionTree.record : Record m ExecutionTree where
  name := "ExecutionTree"
  fields := [
    optional "nodes" (TreeSource.list (Source.record Node.record)) fun ns t =>
      { t with nodes := ns },
    optional "edges" (TreeSource.list (Source.record Edge.record)) fun es t =>
      { t with edges := es }]
  start := ⟨[], []⟩

end

end TreeJudge

import TreeJudge.Proofs.Tree.Visits
import TreeJudge.Render.Panels

/-!
# Colors are no part of a tree

Coloring a tree replaces every color that it had. Nothing that is asked of a tree looks
at a color: what is found in it, the order in which it is walked, and the picture that
is drawn of it are those of the tree without any.
-/

set_option autoImplicit false

namespace TreeJudge

def Node.plain (n : Node) : Node := { n with color := none }

namespace ExecutionTree
variable (t : ExecutionTree)

theorem nodes_plain : t.plain.nodes = t.nodes.map Node.plain := rfl

theorem ids_plain : t.plain.ids = t.ids := by
  rw [ids, ids, nodes_plain, List.map_map]
  rfl

theorem children_plain (id : NodeId) : t.plain.children id = t.children id := rfl

theorem dangling_plain : t.plain.dangling = t.dangling := by
  rw [dangling, dangling, ids_plain]
  rfl

theorem node?_plain (id : NodeId) : t.plain.node? id = (t.node? id).map Node.plain := by
  rw [node?, node?, nodes_plain, List.find?_map]
  rfl

theorem roots_plain : t.plain.roots = t.roots.map Node.plain := by
  rw [roots, roots, nodes_plain, List.filter_map]
  rfl

theorem details?_plain (id : NodeId) : t.plain.details? id = t.details? id := by
  rw [details?, details?, node?_plain, Option.map_map]
  rfl

theorem below_plain (id : NodeId) : t.plain.below id = (t.below id).map Node.plain := by
  rw [below, below, children_plain, List.map_filterMap]
  exact congrArg (List.filterMap · (t.children id)) (funext t.node?_plain)

end ExecutionTree

namespace Walk
variable {t : ExecutionTree}

def plain (w : Walk) : Walk where
  lines := w.lines.map fun l => { l with node := l.node.plain }
  seen := w.seen

theorem visits_plain {depth : Nat} {ns : List Node} {seen : List NodeId} {w : Walk}
    (h : Visits t depth ns seen w) :
    Visits t.plain depth (ns.map Node.plain) seen w.plain := by
  induction h with
  | done => exact .done
  | pass hn _ ih => exact .pass hn ih
  | @enter depth n ns seen b w hn _ _ ihb ih =>
    rw [← t.below_plain n.id] at ihb
    have hlines : (⟨⟨depth, n⟩ :: (b.lines ++ w.lines), w.seen⟩ : Walk).plain =
        ⟨⟨depth, n.plain⟩ :: (b.plain.lines ++ w.plain.lines), w.plain.seen⟩ := by
      simp only [plain, List.map_cons, List.map_append]
    rw [hlines, List.map_cons]
    exact .enter hn ihb ih

theorem of_plain (t : ExecutionTree) : Walk.of t.plain = (Walk.of t).plain := by
  have hstart : t.plain.roots ++ t.plain.nodes = (t.roots ++ t.nodes).map Node.plain := by
    rw [t.roots_plain, t.nodes_plain, List.map_append]
  have hplain := visits_plain (visits_of t)
  rw [← hstart] at hplain
  exact (visits_of t.plain).unique hplain

end Walk

namespace Render

def pictureOf (s : Snapshot) (t : ExecutionTree) : List Piece := tree { s with tree := some t }

theorem pictureOf_plain (s : Snapshot) (t : ExecutionTree) :
    pictureOf s t.plain = pictureOf s t := by
  have hpicture (u : ExecutionTree) : pictureOf s u = (Walk.of u).lines.flatMap (line s) := rfl
  rw [hpicture, hpicture, Walk.of_plain, Walk.plain, List.flatMap_map]
  rfl

end Render

theorem annotate_of_plain (t : ExecutionTree) (flagged : Option NodeId) (confirmed : IdSet)
    (p : Palette) : annotate t.plain flagged confirmed p = annotate t flagged confirmed p := by
  rw [annotate, annotate, ExecutionTree.nodes_plain, List.map_map]
  rfl

/-- Coloring a tree a second time leaves nothing of the first, whatever the two judgments
and palettes are. And coloring changes colors only: the same nodes stand under the same
edges, the same are found as roots, children and ends of dangling edges, the same details
are looked up, and the tree is drawn as the same picture. -/
theorem annotation_only_recolors (t : ExecutionTree) (flagged flagged' : Option NodeId)
    (confirmed confirmed' : IdSet) (p p' : Palette) :
    let colored := annotate t flagged confirmed p
    annotate colored flagged' confirmed' p' = annotate t flagged' confirmed' p' ∧
      colored.nodes.map Node.plain = t.nodes.map Node.plain ∧
      colored.edges = t.edges ∧
      colored.roots.map Node.plain = t.roots.map Node.plain ∧
      colored.dangling = t.dangling ∧
      (∀ id, colored.children id = t.children id ∧ colored.details? id = t.details? id ∧
        (colored.node? id).map Node.plain = (t.node? id).map Node.plain) ∧
      ∀ (s : Snapshot) (colors : Bool),
        Piece.writeAll colors (Render.tree { s with tree := some colored }) =
          Piece.writeAll colors (Render.tree { s with tree := some t }) := by
  intro colored
  have hplain : colored.plain = t.plain := annotate_plain t flagged confirmed p
  refine ⟨?_, congrArg ExecutionTree.nodes hplain, rfl, ?_, ?_, fun id => ⟨rfl, ?_, ?_⟩, ?_⟩
  · rw [← annotate_of_plain, hplain, annotate_of_plain]
  · rw [← ExecutionTree.roots_plain, hplain, ExecutionTree.roots_plain]
  · rw [← ExecutionTree.dangling_plain, hplain, ExecutionTree.dangling_plain]
  · rw [← ExecutionTree.details?_plain, hplain, ExecutionTree.details?_plain]
  · rw [← ExecutionTree.node?_plain, hplain, ExecutionTree.node?_plain]
  · intro s colors
    have hpicture : Render.pictureOf s colored = Render.pictureOf s t := by
      rw [← Render.pictureOf_plain, hplain, Render.pictureOf_plain]
    exact congrArg (Piece.writeAll colors) hpicture

end TreeJudge

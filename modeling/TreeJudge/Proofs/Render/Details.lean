import TreeJudge.Proofs.Tree.Segments
import TreeJudge.Render.Panels

/-!
# The lines of the details

The details of a node are a line with its identifier, a line with its label and a line for
each field of its title. Identifiers and labels are shown as the peer gave them, line feeds
included. A title can only add lines by adding fields, one with each separator, so no text
in it can be taken for a line of its own.
-/

set_option autoImplicit false

namespace TreeJudge

def feeds (s : String) : Nat := s.toList.count '\n'

@[simp] theorem feeds_append (a b : String) : feeds (a ++ b) = feeds a + feeds b := by
  rw [feeds, String.toList_append, List.count_append]
  rfl

theorem feeds_eq_zero_iff {s : String} : feeds s = 0 ↔ '\n' ∉ s.toList := List.count_eq_zero

namespace Piece
variable {colors : Bool}

theorem feeds_opening (p : Piece) : feeds p.opening = 0 := by
  have hbold : feeds (if p.bold then sequence "1" else "") = 0 := by split <;> decide
  rw [opening, feeds_append, hbold]
  cases p.color with
  | none => decide
  | some c => cases c <;> decide

theorem feeds_write (p : Piece) : feeds (p.write colors) = feeds p.text := by
  have hreset : feeds (sequence "0") = 0 := by decide
  rw [write]
  split
  · rw [feeds_append, feeds_append, feeds_opening, hreset, Nat.zero_add, Nat.add_zero]
  · rfl

@[simp] theorem feeds_writeAll_nil : feeds (writeAll colors []) = 0 := rfl

@[simp] theorem feeds_writeAll_cons (p : Piece) (ps : List Piece) :
    feeds (writeAll colors (p :: ps)) = feeds p.text + feeds (writeAll colors ps) := by
  rw [writeAll, List.map_cons, String.join_cons, feeds_append, feeds_write, writeAll]

theorem feeds_writeAll_append (ps qs : List Piece) :
    feeds (writeAll colors (ps ++ qs)) =
      feeds (writeAll colors ps) + feeds (writeAll colors qs) := by
  rw [writeAll, List.map_append, String.join_append, feeds_append, writeAll, writeAll]

theorem feeds_writeAll_flatMap {α : Type} {piece : α → List Piece} {as : List α}
    (h : ∀ a ∈ as, feeds (writeAll colors (piece a)) = 1) :
    feeds (writeAll colors (as.flatMap piece)) = as.length := by
  induction as with
  | nil => rfl
  | cons a as ih =>
    rw [List.forall_mem_cons] at h
    rw [List.flatMap_cons, feeds_writeAll_append, h.1, ih h.2, List.length_cons, Nat.add_comm]

end Piece

namespace Render
open Piece

theorem feeds_details {d : NodeDetails} (colors : Bool)
    (h : ∀ f ∈ d.fields, '\n' ∉ f.label.toList ∧ '\n' ∉ f.value.toList) :
    feeds (writeAll colors (details d)) =
      2 + feeds d.id.shown + feeds d.label + d.fields.length := by
  have hfeed : feeds "\n" = 1 := by decide
  have hspace : feeds " " = 0 := by decide
  have hindent : feeds "  " = 0 := by decide
  have htitle : feeds "Current Node" = 0 := by decide
  rw [details, feeds_writeAll_append, feeds_writeAll_flatMap]
  · simp only [feeds_writeAll_cons, feeds_writeAll_nil, feeds_append, strong, plain, hfeed,
      hspace, hindent, htitle]
    omega
  · intro f hf
    obtain ⟨hlabel, hvalue⟩ := h f hf
    simp only [feeds_writeAll_cons, feeds_writeAll_nil, feeds_append, colored, plain, hfeed,
      hspace, hindent, feeds_eq_zero_iff.mpr hlabel, feeds_eq_zero_iff.mpr hvalue]

/-- Besides two lines, and those that line feeds in the identifier and the label make, the
details have one line for each field, in colors or without; and a title that is not empty
has one field more than a search from the left meets separators in it. -/
theorem details_add_line_per_field (t : ExecutionTree) (id : NodeId) (d : NodeDetails)
    (h : t.details? id = some d) (colors : Bool) :
    ∃ n, t.node? id = some n ∧
      feeds (writeAll colors (details d)) =
        2 + feeds d.id.shown + feeds n.label + d.fields.length ∧
      d.fields.length =
        if n.title = "" then 0
        else 1 + Text.occurrences Title.separator n.title.toList := by
  obtain ⟨n, hn, rfl⟩ := Option.map_eq_some_iff.mp h
  exact ⟨n, hn, feeds_details colors (Title.feed_notMem_fields n.title),
    Title.length_fields n.title⟩

def crowded : ExecutionTree where
  nodes := [⟨.number 1, "f", "x", none⟩,
    ⟨.text "a\nb", "g\n", "\x7d\n\x7d\nx \n \x7bv\x7d\ny\n\x7bw\n\nz\x7d\x7d\n", none⟩,
    ⟨.text "a\nb", "h", "", none⟩]
  edges := [⟨.number 1, .text "a\nb"⟩]

def crowdedDetails : NodeDetails :=
  ⟨.text "a\nb", "g\n", [⟨"", ""⟩, ⟨"", ""⟩, ⟨"x", "v"⟩, ⟨"y", "w"⟩, ⟨"", ""⟩]⟩

theorem crowded_details_take_nine_lines :
    crowded.details? (.text "a\nb") = some crowdedDetails ∧
      feeds (writeAll false (details crowdedDetails)) = 9 ∧
      crowdedDetails.fields.length = 1 + 4 := by
  have h : crowded.details? (.text "a\nb") = some crowdedDetails := by decide +kernel
  obtain ⟨n, hn, hfeeds, hfields⟩ := details_add_line_per_field crowded _ _ h false
  have hnode : crowded.node? (.text "a\nb") = crowded.nodes[1]? := by decide +kernel
  cases hnode.symm.trans hn
  exact ⟨h, hfeeds.trans (by decide +kernel), hfields.trans (by decide +kernel)⟩

end Render
end TreeJudge

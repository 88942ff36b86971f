import TreeJudge.Proofs.Json.ReadBack
import TreeJudge.Proofs.Shape.Kept
import TreeJudge.Proofs.Shape.Written
import TreeJudge.Wire.Inbound

/-!
# Messages are decoded to what they were made of

A tree, an identifier or a value is written into its message and decoded again.
Only the colors of a tree are lost.
-/

set_option autoImplicit false

namespace TreeJudge
open Shape OfJson
open Json (faithful nesting)

theorem Edge.read_toJson (e : Edge) : (OfJson.record Edge.record).read e.toJson = .ok e := by
  change fieldMembers Edge.record [("from", e.source.toJson), ("to", e.target.toJson)] [] _ = _
  rw [fieldMembers_field rfl rfl (read_field (identifier_toJson e.source)),
    fieldMembers_field rfl rfl (read_field (identifier_toJson e.target)), fieldMembers_end rfl]

theorem Node.read_toJson (n : Node) :
    (OfJson.record Node.record).read n.toJson = .ok { n with color := none } := by
  change fieldMembers Node.record
    (("id", n.id.toJson) :: ("label", .str n.label) :: ("title", .str n.title) :: _) [] _ = _
  rw [fieldMembers_field rfl rfl (read_field (identifier_toJson n.id)),
    fieldMembers_field rfl rfl (read_field (b := n.label) rfl),
    fieldMembers_field rfl rfl (read_field (b := n.title) rfl)]
  cases n.color with
  | none => exact fieldMembers_end rfl
  | some c => exact (fieldMembers_unknown rfl).trans (fieldMembers_end rfl)

theorem ExecutionTree.read_toJson (t : ExecutionTree) :
    (OfJson.record ExecutionTree.record).read t.toJson = .ok t.plain := by
  have hnodes := list_map Node.read_toJson t.nodes
  have hedges : (list (OfJson.record Edge.record)).read (.arr (t.edges.map Edge.toJson)) =
      .ok (t.edges.map id) := list_map Edge.read_toJson t.edges
  change fieldMembers ExecutionTree.record
    [("nodes", .arr (t.nodes.map Node.toJson)), ("edges", .arr (t.edges.map Edge.toJson))] [] _ = _
  rw [fieldMembers_field rfl rfl (read_field hnodes),
    fieldMembers_field rfl rfl (read_field hedges), fieldMembers_end rfl, List.map_id]
  rfl

theorem NodeId.faithful_toJson (i : NodeId) : i.toJson.faithful = true := by
  cases i with
  | number n =>
    have hlow := n.le_toInt
    have hhigh := n.toInt_lt
    have hfits : Json.Fits n.toInt := ⟨hlow, by omega⟩
    exact decide_eq_true hfits
  | text s => rfl

theorem NodeId.nesting_toJson (i : NodeId) : i.toJson.nesting = 0 := by
  cases i <;> rfl

theorem Edge.faithful_toJson (e : Edge) : e.toJson.faithful = true := by
  simp [Edge.toJson, Json.faithful, Json.faithfulMembers, NodeId.faithful_toJson]

theorem Edge.nesting_toJson (e : Edge) : e.toJson.nesting ≤ 1 := by
  simp [Edge.toJson, Json.nesting, Json.nestingMembers, NodeId.nesting_toJson]

theorem Node.faithful_toJson (n : Node) : n.toJson.faithful = true := by
  cases hc : n.color <;>
    simp [Node.toJson, NodeColor.toJson, hc, Json.faithful, Json.faithfulMembers,
      NodeId.faithful_toJson]

theorem Node.nesting_toJson (n : Node) : n.toJson.nesting ≤ 2 := by
  cases hc : n.color <;>
    simp [Node.toJson, NodeColor.toJson, hc, Json.nesting, Json.nestingMembers,
      NodeId.nesting_toJson]

theorem ExecutionTree.faithful_toJson (t : ExecutionTree) : t.toJson.faithful = true := by
  have hnodes : Json.faithfulItems (t.nodes.map Node.toJson) = true := by
    simp [Json.faithfulItems_iff, Node.faithful_toJson]
  have hedges : Json.faithfulItems (t.edges.map Edge.toJson) = true := by
    simp [Json.faithfulItems_iff, Edge.faithful_toJson]
  simp [ExecutionTree.toJson, Json.faithful, Json.faithfulMembers, hnodes, hedges]

theorem ExecutionTree.nesting_toJson (t : ExecutionTree) : t.toJson.nesting ≤ 4 := by
  have hnodes : Json.nestingItems (t.nodes.map Node.toJson) ≤ 2 := by
    simp [Json.nestingItems_le, Node.nesting_toJson]
  have hedges : Json.nestingItems (t.edges.map Edge.toJson) ≤ 1 := by
    simp [Json.nestingItems_le, Edge.nesting_toJson]
  simp only [ExecutionTree.toJson, Json.nesting, Json.nestingMembers]
  omega

namespace Inbound

def message (kind field : String) (v : Json) : Json := .obj [("type", .str kind), (field, v)]

section
variable {kind field : String} {v : Json}

theorem read_message {α : Type} (r : Record OfJson α) (kind field : String) {f : Field OfJson α}
    {change : α → α}
    (htype : r.fields.find? (·.name == "type") = none)
    (hf : r.fields.find? (·.name == field) = some f) (hv : f.read.read v = .ok change)
    (hend : missing? r.fields [field] = none) :
    (OfJson.record r).read (message kind field v) = .ok (change r.start) := by
  change fieldMembers r [("type", .str kind), (field, v)] [] r.start = _
  rw [fieldMembers_unknown htype, fieldMembers_field hf rfl hv, fieldMembers_end hend]

theorem faithful_message (hfield : field ≠ "type") (hv : v.faithful = true) :
    (message kind field v).faithful = true := by
  simp [message, faithful, Json.faithfulMembers, hv, hfield.symm]

theorem decode_message {m : Inbound} {reader : OfJson Inbound} (hk : known? kind = some reader)
    (hfield : field ≠ "type") (hv : v.faithful = true) (hn : v.nesting < Json.deepest)
    (hread : reader.read (message kind field v) = .ok m) :
    decode (message kind field v).compact = .ok m := by
  have hnesting : (message kind field v).nesting ≤ Json.deepest := by
    simp only [message, nesting, Json.nestingMembers]
    omega
  have hkind : (message kind field v).get? "type" = some (.str kind) := rfl
  have hshape : ofJson (message kind field v) = .ok m := by
    rw [ofJson, hkind]
    simp only [hk]
    exact mapError_eq_ok.mpr hread
  rw [decode, Json.parse_compact (faithful_message hfield hv) hnesting]
  exact mapError_eq_ok.mpr hshape

end

theorem eq_compact {text : String} {v : Json} (h : text.toList = v.write) : text = v.compact := by
  rw [Json.compact, ← h, String.ofList_toList]

theorem decode_tree (t : ExecutionTree) :
    decode ("\x7b\"type\":\"tree\",\"tree\":" ++ t.toJson.compact ++ "\x7d") =
      .ok (.tree t.plain) := by
  have htext : "\x7b\"type\":\"tree\",\"tree\":" ++ t.toJson.compact ++ "\x7d" =
      (message "tree" "tree" t.toJson).compact := eq_compact <| by
    simp [message, Json.compact, Json.write, Json.writeMembers, Json.writeString, Json.escapeChar]
  have hn : t.toJson.nesting < Json.deepest := Nat.lt_of_le_of_lt t.nesting_toJson (by decide)
  have hread := read_message treeMessage "tree" "tree" rfl rfl
    (read_field t.read_toJson) rfl
  rw [htext]
  exact decode_message rfl (by decide) t.faithful_toJson hn
    (map_eq_ok.mpr ⟨t.plain, hread, rfl⟩)

theorem focus_text (v : Json) :
    "\x7b\"type\":\"id\",\"id\":" ++ v.compact ++ "\x7d" = (message "id" "id" v).compact :=
  eq_compact <| by
    simp [message, Json.compact, Json.write, Json.writeMembers, Json.writeString, Json.escapeChar]

theorem read_focus (i : NodeId) :
    (OfJson.record focusMessage).read (message "id" "id" i.toJson) = .ok i :=
  read_message focusMessage "id" "id" rfl rfl (read_field (identifier_toJson i)) rfl

theorem decode_focus (i : NodeId) :
    decode ("\x7b\"type\":\"id\",\"id\":" ++ i.toJson.compact ++ "\x7d") = .ok (.focus i) := by
  have hn : i.toJson.nesting < Json.deepest := by
    rw [i.nesting_toJson]
    decide
  rw [focus_text]
  exact decode_message rfl (by decide) i.faithful_toJson hn
    (map_eq_ok.mpr ⟨i, read_focus i, rfl⟩)

theorem read_payload (v : Json) : (OfJson.record payload).read (.obj [("output", v)]) = .ok v := by
  change fieldMembers payload [("output", v)] [] _ = _
  rw [fieldMembers_field rfl rfl (read_field (b := v) rfl), fieldMembers_end rfl]

theorem decode_output {v : Json} (hv : v.faithful = true) (hn : v.nesting + 2 ≤ Json.deepest) :
    decode ("\x7b\"type\":\"cmd\",\"cmd\":\x7b\"output\":" ++ v.compact ++ "\x7d\x7d") =
      .ok (.output v) := by
  have htext : "\x7b\"type\":\"cmd\",\"cmd\":\x7b\"output\":" ++ v.compact ++ "\x7d\x7d" =
      (message "cmd" "cmd" (.obj [("output", v)])).compact := eq_compact <| by
    simp [message, Json.compact, Json.write, Json.writeMembers, Json.writeString, Json.escapeChar]
  have hnesting : (Json.obj [("output", v)]).nesting < Json.deepest := by
    simp only [nesting, Json.nestingMembers]
    omega
  have hfaithful : (Json.obj [("output", v)]).faithful = true := by
    simp [faithful, Json.faithfulMembers, hv]
  have hread := read_message outputMessage "cmd" "cmd" rfl rfl
    (read_field (read_payload v)) rfl
  rw [htext]
  exact decode_message rfl (by decide) hfaithful hnesting (map_eq_ok.mpr ⟨v, hread, rfl⟩)

/-- Decoding undoes encoding: a tree comes back without its colors, an identifier
and the output of a command come back as they were. -/
theorem decode_of_written :
    (∀ t : ExecutionTree,
      decode ("\x7b\"type\":\"tree\",\"tree\":" ++ t.toJson.compact ++ "\x7d") =
        .ok (.tree t.plain)) ∧
    (∀ i : NodeId,
      decode ("\x7b\"type\":\"id\",\"id\":" ++ i.toJson.compact ++ "\x7d") = .ok (.focus i)) ∧
    (∀ v : Json, v.faithful = true → v.nesting ≤ 125 →
      decode ("\x7b\"type\":\"cmd\",\"cmd\":\x7b\"output\":" ++ v.compact ++ "\x7d\x7d") =
        .ok (.output v)) :=
  ⟨decode_tree, decode_focus, fun _ hv hn => decode_output hv (Nat.add_le_add_right hn 2)⟩

def ends : Json :=
  .obj [("k", .arr [.int (-0x8000000000000000), .int 0xFFFFFFFFFFFFFFFF, .str "a\x00\"\n"]),
    ("j", .obj [("k", .null)])]

theorem ends_decoded :
    ends.faithful = true ∧ ends.nesting ≤ 125 ∧
    decode ("\x7b\"type\":\"cmd\",\"cmd\":\x7b\"output\":" ++ ends.compact ++ "\x7d\x7d") =
      .ok (.output ends) :=
  ⟨by decide, by decide, decode_of_written.2.2 ends (by decide) (by decide)⟩

end Inbound
end TreeJudge

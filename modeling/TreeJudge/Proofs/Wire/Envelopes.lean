import TreeJudge.Proofs.Shape.Accepted
import TreeJudge.Proofs.Wire.RoundTrip
import TreeJudge.Proofs.Wire.Uncolored

/-!
# Which messages are accepted

The messages of a known type are described without their readers, at every level. The
description leaves open in which form a record may be given: documented is the object
of its members, read is the array of their values as well. Everything else is a fault.
-/

set_option autoImplicit false

namespace TreeJudge
open Shape OfJson

def IsIdentifier : Json → Prop
  | .str _ => True
  | .int n => Int64.minValue.toInt ≤ n ∧ n ≤ Int64.maxValue.toInt
  | _ => False

def IsText : Json → Prop
  | .str _ => True
  | _ => False

section
variable (Form : List Slot → Json → Prop)

def IsNode : Json → Prop :=
  Form [⟨"id", true, IsIdentifier⟩, ⟨"label", false, IsText⟩, ⟨"title", false, IsText⟩]

def IsEdge : Json → Prop :=
  Form [⟨"from", true, IsIdentifier⟩, ⟨"to", true, IsIdentifier⟩]

def IsTree : Json → Prop :=
  Form [⟨"nodes", false, ListOf (IsNode Form)⟩, ⟨"edges", false, ListOf (IsEdge Form)⟩]

def IsPayload : Json → Prop :=
  Form [⟨"output", true, fun _ => True⟩]

def Carries (kind : String) (message : Json) : Prop :=
  (kind = "tree" ∧ Named [⟨"tree", true, IsTree Form⟩] message) ∨
  (kind = "cmd" ∧ Named [⟨"cmd", true, IsPayload Form⟩] message) ∨
  (kind = "id" ∧ Named [⟨"id", true, IsIdentifier⟩] message)

end

section
variable {v : Json}

theorem accepts_identifier : identifier.Accepts v ↔ IsIdentifier v := by
  have hread : identifier.Accepts v ↔ (NodeId.ofJson? v).isSome = true := by
    simp only [Accepts, identifier]
    cases NodeId.ofJson? v <;> simp
  rw [hread]
  cases v <;> simp [NodeId.ofJson?, IsIdentifier]

theorem accepts_text : OfJson.text.Accepts v ↔ IsText v := by
  cases v <;> simp [Accepts, OfJson.text, IsText]

theorem accepts_node (hv : v.Distinct) :
    (OfJson.record Node.record).Accepts v ↔ IsNode NamedOrListed v := by
  refine accepts_described ?_ (by decide) hv
  exact .cons (describes_field fun _ _ => accepts_identifier) <|
    .cons (describes_field fun _ _ => accepts_text) <|
    .cons (describes_field fun _ _ => accepts_text) .nil

theorem accepts_edge (hv : v.Distinct) :
    (OfJson.record Edge.record).Accepts v ↔ IsEdge NamedOrListed v := by
  refine accepts_described ?_ (by decide) hv
  exact .cons (describes_field fun _ _ => accepts_identifier) <|
    .cons (describes_field fun _ _ => accepts_identifier) .nil

theorem accepts_tree (hv : v.Distinct) :
    (OfJson.record ExecutionTree.record).Accepts v ↔ IsTree NamedOrListed v := by
  refine accepts_described ?_ (by decide) hv
  exact .cons (describes_field fun _ => accepts_list fun _ => accepts_node) <|
    .cons (describes_field fun _ => accepts_list fun _ => accepts_edge) .nil

theorem accepts_payload (hv : v.Distinct) :
    (OfJson.record Inbound.payload).Accepts v ↔ IsPayload NamedOrListed v := by
  refine accepts_described ?_ (by decide) hv
  exact .cons (describes_field fun w _ => ⟨fun _ => trivial, fun _ => ⟨w, rfl⟩⟩) .nil

end

theorem IsTree.read {v : Json} (hv : v.Distinct) (h : IsTree Named v) :
    IsTree NamedOrListed v := by
  refine .inl (h.imp ?_ hv)
  exact .cons ⟨rfl, rfl, fun _ _ => ListOf.imp fun _ => .inl⟩ <|
    .cons ⟨rfl, rfl, fun _ _ => ListOf.imp fun _ => .inl⟩ .nil

theorem Carries.read {kind : String} {message : Json} (hv : message.Distinct)
    (h : Carries Named kind message) : Carries NamedOrListed kind message := by
  rcases h with ⟨hkind, h⟩ | ⟨hkind, h⟩ | ⟨hkind, h⟩
  · refine .inl ⟨hkind, h.imp ?_ hv⟩
    exact .cons ⟨rfl, rfl, fun _ => IsTree.read⟩ .nil
  · refine .inr (.inl ⟨hkind, h.imp ?_ hv⟩)
    exact .cons ⟨rfl, rfl, fun _ _ => .inl⟩ .nil
  · exact .inr (.inr ⟨hkind, h⟩)

namespace Inbound
open Json (lookup?)

theorem accepts_message {α : Type} {r : Record OfJson α} {s : Slot}
    (hr : List.Forall₂ Describes [s] r.fields) {members : List (String × Json)}
    (hv : (Json.obj members).Distinct) (make : α → Inbound) :
    (Source.map make (Source.record r) : OfJson Inbound).Accepts (.obj members) ↔
      Named [s] (.obj members) := by
  refine accepts_map.trans ((accepts_described hr (by simp) hv).trans ?_)
  simp [NamedOrListed, Listed]

theorem accepts_known {kind : String} {reader : OfJson Inbound}
    (hknown : known? kind = some reader) {members : List (String × Json)}
    (hv : (Json.obj members).Distinct) :
    reader.Accepts (.obj members) ↔ Carries NamedOrListed kind (.obj members) := by
  rcases known?_eq_some hknown with ⟨rfl, rfl⟩ | ⟨rfl, rfl⟩ | ⟨rfl, rfl⟩
  · have h := accepts_message (r := treeMessage)
      (.cons (describes_field fun _ => accepts_tree) .nil) hv tree
    simpa [Carries] using h
  · have h := accepts_message (r := outputMessage)
      (.cons (describes_field fun _ => accepts_payload) .nil) hv output
    simpa [Carries] using h
  · have h := accepts_message (r := focusMessage)
      (.cons (describes_field fun _ _ => accepts_identifier) .nil) hv focus
    simpa [Carries] using h

def Suits (kind : String) : Inbound → Prop
  | .tree _ => kind = "tree"
  | .output _ => kind = "cmd"
  | .focus _ => kind = "id"
  | .unrecognized _ => False

theorem suits_known {kind : String} {reader : OfJson Inbound}
    (hknown : known? kind = some reader) {v : Json} {m : Inbound} (hm : reader.read v = .ok m) :
    Suits kind m := by
  rcases known?_eq_some hknown with ⟨rfl, rfl⟩ | ⟨rfl, rfl⟩ | ⟨rfl, rfl⟩ <;>
  · obtain ⟨a, -, rfl⟩ := map_eq_ok.mp hm
    rfl

theorem known?_isSome {kind : String} (h : kind ∈ ["tree", "cmd", "id"]) :
    ∃ reader, known? kind = some reader := by
  simp only [List.mem_cons, List.not_mem_nil, or_false] at h
  rcases h with rfl | rfl | rfl <;> exact ⟨_, rfl⟩

section
variable {frame kind : String} {members : List (String × Json)}

theorem decode_known {reader : OfJson Inbound} (hparse : Json.parse frame = .ok (.obj members))
    (htype : lookup? "type" members = some (.str kind)) (hknown : known? kind = some reader) :
    decode frame =
      (reader.read (.obj members)).mapError (fun fault => ⟨frame, .malformed kind fault⟩) := by
  have hget : (Json.obj members).get? "type" = some (.str kind) := htype
  rw [decode, hparse]
  simp only [ofJson, hget, hknown]
  cases reader.read (.obj members) <;> rfl

theorem decode_ok_iff (hparse : Json.parse frame = .ok (.obj members))
    (htype : lookup? "type" members = some (.str kind)) (hkind : kind ∈ ["tree", "cmd", "id"]) :
    (∃ m, decode frame = .ok m) ↔ Carries NamedOrListed kind (.obj members) := by
  obtain ⟨reader, hknown⟩ := known?_isSome hkind
  rw [← accepts_known hknown (Json.distinct_parse hparse), decode_known hparse htype hknown]
  simp only [mapError_eq_ok, Accepts]

/-- A message of a known type is decoded iff it has the member that the type asks for,
its records given as objects, as is documented, or as arrays. What is decoded is of the
type, and any other message of the type is a fault with the frame as it came. -/
theorem decode_accepts_described (hparse : Json.parse frame = .ok (.obj members))
    (htype : lookup? "type" members = some (.str kind)) (hkind : kind ∈ ["tree", "cmd", "id"]) :
    ((∃ m, decode frame = .ok m) ↔ Carries NamedOrListed kind (.obj members)) ∧
    (Carries Named kind (.obj members) → Carries NamedOrListed kind (.obj members)) ∧
    (∀ m, decode frame = .ok m → Suits kind m) ∧
    (¬ Carries NamedOrListed kind (.obj members) →
      ∃ fault, decode frame = .error ⟨frame, .malformed kind fault⟩) := by
  obtain ⟨reader, hknown⟩ := known?_isSome hkind
  have hdecode := decode_known hparse htype hknown
  have haccepted := decode_ok_iff hparse htype hkind
  refine ⟨haccepted, Carries.read (Json.distinct_parse hparse), fun m hm => ?_, fun hnot => ?_⟩
  · rw [hdecode] at hm
    exact suits_known hknown (mapError_eq_ok.mp hm)
  · rw [← haccepted, hdecode] at hnot
    rw [hdecode]
    cases hread : reader.read (.obj members) with
    | error fault => exact ⟨fault, rfl⟩
    | ok m => exact absurd ⟨m, mapError_eq_ok.mpr hread⟩ hnot

end

theorem parse_message {text kind field : String} {v : Json}
    (htext : text = (message kind field v).compact) (hfield : field ≠ "type")
    (hv : v.faithful = true) (hn : (message kind field v).nesting ≤ Json.deepest) :
    Json.parse text = .ok (message kind field v) := by
  rw [htext]
  exact Json.parse_compact (faithful_message hfield hv) hn

def mixed : Json := .arr [.arr [.arr [.str "a"], .obj [("label", .str "b"), ("id", .int 7)]]]

theorem mixed_is_decoded :
    let frame :=
      "\x7b\"type\":\"tree\",\"tree\":[[[\"a\"],\x7b\"label\":\"b\",\"id\":7\x7d]]\x7d"
    Json.parse frame = .ok (message "tree" "tree" mixed) ∧
      lookup? "type" [("type", .str "tree"), ("tree", mixed)] = some (.str "tree") ∧
      "tree" ∈ ["tree", "cmd", "id"] ∧ ∃ m, decode frame = .ok m ∧ Suits "tree" m := by
  intro frame
  have hparse : Json.parse frame = .ok (message "tree" "tree" mixed) :=
    parse_message (by decide +kernel) (by decide) (by decide) (by decide)
  have hlisted : IsNode NamedOrListed (.arr [.str "a"]) :=
    .inr ⟨_, rfl, by simp [IsIdentifier]⟩
  have hseven : IsIdentifier (.int 7) := ⟨by decide, by decide⟩
  have hnamed : IsNode NamedOrListed (.obj [("label", .str "b"), ("id", .int 7)]) :=
    .inl ⟨_, rfl, by simp [lookup?, hseven, IsText]⟩
  have htree : IsTree NamedOrListed mixed := .inr ⟨_, rfl, by simp [ListOf, hlisted, hnamed]⟩
  have hcarries : Carries NamedOrListed "tree" (message "tree" "tree" mixed) :=
    .inl ⟨rfl, _, rfl, by simp [lookup?, htree]⟩
  have h := decode_accepts_described hparse rfl (by decide)
  obtain ⟨m, hm⟩ := h.1.mpr hcarries
  exact ⟨hparse, rfl, by decide, m, hm, h.2.2.1 m hm⟩

/-- Only the object is documented, but the empty array is read as a tree. -/
theorem listed_tree_is_decoded :
    ¬ ∀ (frame kind : String) (members : List (String × Json)),
      Json.parse frame = .ok (.obj members) → lookup? "type" members = some (.str kind) →
      kind ∈ ["tree", "cmd", "id"] →
      ((∃ m, decode frame = .ok m) ↔ Carries Named kind (.obj members)) := by
  intro hdocumented
  have hparse : Json.parse "\x7b\"type\":\"tree\",\"tree\":[]\x7d" =
      .ok (message "tree" "tree" (.arr [])) :=
    parse_message (by decide +kernel) (by decide) (by decide) (by decide)
  have htree : IsTree NamedOrListed (.arr []) := .inr ⟨_, rfl, by simp⟩
  have hread : Carries NamedOrListed "tree" (message "tree" "tree" (.arr [])) :=
    .inl ⟨rfl, _, rfl, by simp [lookup?, htree]⟩
  have haccepted := (decode_ok_iff hparse rfl (by decide)).mpr hread
  have hcarries := (hdocumented _ _ _ hparse rfl (by decide)).mp haccepted
  simp [Carries, Named, IsTree, lookup?] at hcarries

end Inbound
end TreeJudge

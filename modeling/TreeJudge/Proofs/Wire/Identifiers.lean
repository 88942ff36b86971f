import TreeJudge.Proofs.Session.Step
import TreeJudge.Proofs.Shape.Gaps
import TreeJudge.Proofs.Wire.Envelopes
import TreeJudge.Proofs.Wire.Messages

/-!
# Integers as identifiers

An integer is an identifier when it has 64 bits with its sign, and then it is this
identifier. Any other makes the frame a fault, wherever it stands in place of an
identifier: no integer is ever changed to fit.
-/

set_option autoImplicit false

namespace TreeJudge
open Shape OfJson
open Json (last? resolve nesting)

def Signed (n : Int) : Prop := -0x8000000000000000 ≤ n ∧ n < 0x8000000000000000

instance (n : Int) : Decidable (Signed n) := inferInstanceAs (Decidable (_ ∧ _))

theorem Signed.toInt_ofInt {n : Int} (h : Signed n) : (Int64.ofInt n).toInt = n :=
  Int64.toInt_ofInt_of_le h.1 h.2

theorem read?_identifier (v : Json) : read? identifier v = NodeId.ofJson? v := by
  ext id
  rw [read?_eq_some]
  simp only [identifier]
  cases NodeId.ofJson? v <;> simp

theorem answer?_int (n : Int) :
    identifier.answer? (.int n) =
      if Signed n then some (.number (Int64.ofInt n)) else none := by
  have hlow : Int64.minValue.toInt = -0x8000000000000000 := by decide
  have hhigh : Int64.maxValue.toInt = 0x7fffffffffffffff := by decide
  by_cases hfits : Json.Fits n
  · rw [answer?, resolve, Json.rounded_of_fits hfits, Option.bind_some, read?_identifier,
      NodeId.ofJson?]
    refine if_congr ?_ rfl rfl
    unfold Signed
    omega
  · have hsigned : ¬Signed n := fun h => hfits (by unfold Signed at h; unfold Json.Fits; omega)
    rw [if_neg hsigned, answer?, resolve]
    cases hv : Json.rounded n with
    | none => rfl
    | some v =>
      obtain ⟨x, rfl⟩ := Json.rounded_of_not_fits hfits hv
      rfl

theorem Json.compact_int (n : Int) : (Json.int n).compact = toString n := by
  cases n with
  | ofNat n => rfl
  | negSucc n =>
    refine (Inbound.eq_compact ?_).symm
    change ("-" ++ Nat.repr (n + 1)).toList = '-' :: Nat.toDigits 10 (n + 1)
    simp [Nat.repr]

inductive Place where
  | node (index : Nat)
  | source (edge : Nat)
  | target (edge : Nat)
deriving Repr, DecidableEq

namespace Place

def path (p : Place) : List Step :=
  .member "tree" :: match p with
    | .node i => [.member "nodes", .item i, .member "id"]
    | .source i => [.member "edges", .item i, .member "from"]
    | .target i => [.member "edges", .item i, .member "to"]

def nodes : Part ExecutionTree (List Node) := .field (·.nodes) fun ns t => { t with nodes := ns }

def edges : Part ExecutionTree (List Edge) := .field (·.edges) fun es t => { t with edges := es }

def part : Place → Part ExecutionTree NodeId
  | .node i => nodes.comp (.comp (.item i) (.field (·.id) fun id n => { n with id := id }))
  | .source i =>
    edges.comp (.comp (.item i) (.field (·.source) fun id e => { e with source := id }))
  | .target i =>
    edges.comp (.comp (.item i) (.field (·.target) fun id e => { e with target := id }))

end Place

section
variable {β : Type} {s : OfJson β} {fill : Json → Json} {before after : List (String × Json)}

theorem replaces_nodes {q : Part Node β} (h : Replaces (OfJson.record Node.record) fill s q)
    (ds ds' : List Json) (hlast : "nodes" ∉ after.map Prod.fst) :
    Replaces (OfJson.record ExecutionTree.record)
      (fun x => .obj (before ++ ("nodes", .arr (ds ++ fill x :: ds')) :: after)) s
      (Place.nodes.comp (.comp (.item ds.length) q)) :=
  Replaces.comp
    (replaces_member apart_tree (.head _) (fun _ _ => rfl) (fun _ _ _ => rfl) hlast)
    ((replaces_item _ ds ds').comp h)

theorem replaces_edges {q : Part Edge β} (h : Replaces (OfJson.record Edge.record) fill s q)
    (ds ds' : List Json) (hlast : "edges" ∉ after.map Prod.fst) :
    Replaces (OfJson.record ExecutionTree.record)
      (fun x => .obj (before ++ ("edges", .arr (ds ++ fill x :: ds')) :: after)) s
      (Place.edges.comp (.comp (.item ds.length) q)) :=
  Replaces.comp
    (replaces_member apart_tree (.tail _ (.head _)) (fun _ _ => rfl) (fun _ _ _ => rfl) hlast)
    ((replaces_item _ ds ds').comp h)

end

namespace Inbound

theorem replaces_tree {β : Type} {s : OfJson β} {fill : Json → Json}
    {before after : List (String × Json)} {p : Part ExecutionTree β}
    (h : Replaces (OfJson.record ExecutionTree.record) fill s p)
    (hlast : "tree" ∉ after.map Prod.fst) :
    Replaces (OfJson.record treeMessage)
      (fun x => .obj (before ++ ("tree", fill x) :: after)) s p := by
  have hfield : Replaces (OfJson.record treeMessage)
      (fun x => .obj (before ++ ("tree", x) :: after)) (OfJson.record ExecutionTree.record)
      (.field (fun t => t) fun t _ => t) := by
    refine replaces_member (List.pairwise_singleton _ _) (.head _) ?_ ?_ hlast
    · exact fun _ _ => rfl
    · exact fun _ _ _ => rfl
  exact hfield.comp h

theorem replaces_place {p : Place} {fill : Json → Json} (h : Gap p.path fill) :
    Replaces (OfJson.record treeMessage) fill identifier p.part := by
  cases p with
  | node i =>
    obtain _ | ⟨hmessage, _ | ⟨htree, _ | _ | ⟨_ | ⟨hnode, ⟨⟩⟩⟩⟩⟩ := h
    exact replaces_tree (replaces_nodes (replaces_member apart_node (.head _)
      (fun _ _ => rfl) (fun _ _ _ => rfl) hnode) _ _ htree) hmessage
  | source i =>
    obtain _ | ⟨hmessage, _ | ⟨htree, _ | _ | ⟨_ | ⟨hedge, ⟨⟩⟩⟩⟩⟩ := h
    exact replaces_tree (replaces_edges (replaces_member apart_edge (.head _)
      (fun _ _ => rfl) (fun _ _ _ => rfl) hedge) _ _ htree) hmessage
  | target i =>
    obtain _ | ⟨hmessage, _ | ⟨htree, _ | _ | ⟨_ | ⟨hedge, ⟨⟩⟩⟩⟩⟩ := h
    exact replaces_tree (replaces_edges (replaces_member apart_edge (.tail _ (.head _))
      (fun _ _ => rfl) (fun _ _ _ => rfl) hedge) _ _ htree) hmessage

theorem tree_of_resolved {ms : List (String × Json)} {v : Json} {t : ExecutionTree}
    (hv : (Json.obj ms).resolve = some v) (ht : ofJson v = .ok (.tree t)) :
    last? "type" ms = some (.str "tree") ∧
      (OfJson.record treeMessage).answer? (.obj ms) = some t := by
  obtain ⟨ns, hns, hmerged⟩ := Option.map_eq_some_iff.mp hv
  obtain ⟨done, hdone, -, hlookup⟩ := Json.exists_ofMembers ns
  have hget : v.get? "type" = last? "type" ns := by
    rw [← hmerged, hdone, Json.get?, hlookup]
  unfold ofJson at ht
  split at ht
  · next kind hkind =>
    split at ht
    · next reader hknown =>
      rcases known?_eq_some hknown with ⟨rfl, rfl⟩ | ⟨rfl, rfl⟩ | ⟨rfl, rfl⟩ <;>
        obtain ⟨_, hread, he⟩ := map_eq_ok.mp (mapError_eq_ok.mp ht) <;> cases he
      refine ⟨?_, answer?_eq_some.mpr ⟨v, hv, hread⟩⟩
      have hlast := Json.last?_resolve "type" (Json.resolveMembers_eq_some.mp hns)
      rw [← hget, hkind] at hlast
      generalize last? "type" ms = last at hlast ⊢
      cases hlast with
      | some hstr => rw [Json.resolve_eq_str hstr]
    · cases ht
  · cases ht

theorem decode_place {p : Place} {fill : Json → Json} (hgap : Gap p.path fill) {x v : Json}
    {t : ExecutionTree} (hv : (fill x).resolve = some v) (ht : ofJson v = .ok (.tree t))
    {n : Int} {frame : String} (hframe : Json.document frame = .ok (fill (.int n))) :
    (Signed n → decode frame = .ok (.tree (p.part.put (.number (Int64.ofInt n)) t)) ∧
      p.part.get? (p.part.put (.number (Int64.ofInt n)) t) = some (.number (Int64.ofInt n))) ∧
    (¬Signed n → ∃ fault, decode frame = .error fault) := by
  have hreplaces := replaces_place hgap
  have hknown : known? "tree" = some (Source.map tree (Source.record treeMessage)) := rfl
  -- the type stands beside the gap, so it is the same whatever is in it
  obtain _ | ⟨hlast, h⟩ := hgap
  obtain ⟨htype, htree⟩ := tree_of_resolved hv ht
  rw [Json.last?_middle_of_ne (by decide)] at htype
  have hdecode := fun m => decode_document (m := m) hframe
    ((Json.last?_middle_of_ne (by decide)).trans htype) hknown
  simp only [answer?_map, Option.map_eq_some_iff] at hdecode
  have hanswer := (hreplaces x t htree).2 (.int n)
  rw [answer?_int] at hanswer
  refine ⟨fun hsigned => ?_, fun hsigned => ?_⟩
  · rw [if_pos hsigned, Option.map_some] at hanswer
    obtain ⟨id, hid, hget, -⟩ := (hreplaces _ _ hanswer).1
    rw [answer?_int, if_pos hsigned] at hid
    exact ⟨(hdecode _).mpr ⟨_, hanswer, rfl⟩, by rw [hget, hid]⟩
  · rw [if_neg hsigned, Option.map_none] at hanswer
    refine decode_fault_iff.mpr fun m hm => ?_
    obtain ⟨_, htree', -⟩ := (hdecode m).mp hm
    cases hanswer.symm.trans htree'

theorem replaces_focus :
    Replaces (OfJson.record focusMessage) (message "id" "id") identifier
      (.field (fun i => i) fun i _ => i) := by
  have hfield : Replaces (OfJson.record focusMessage)
      (fun x => .obj ([("type", .str "id")] ++ ("id", x) :: [])) identifier
      (.field (fun i => i) fun i _ => i) := by
    refine replaces_member (List.pairwise_singleton _ _) (.head _) ?_ ?_ (by simp)
    · exact fun _ _ => rfl
    · exact fun _ _ _ => rfl
  exact hfield

def focusFrame (n : Int) : String :=
  "\x7b\"type\":\"id\",\"id\":" ++ toString n ++ "\x7d"

theorem focusFrame_eq (n : Int) : focusFrame n = (message "id" "id" (.int n)).compact := by
  have htext := focus_text (.int n)
  rw [Json.compact_int] at htext
  exact htext

theorem decode_focusFrame (n : Int) (m : Inbound) :
    decode (focusFrame n) = .ok m ↔ Signed n ∧ m = .focus (.number (Int64.ofInt n)) := by
  have hdoc : Json.document (focusFrame n) = .ok (message "id" "id" (.int n)) := by
    rw [focusFrame_eq]
    exact Json.document_compact rfl (by simp [message, nesting, Json.nestingMembers, Json.deepest])
  -- any identifier can stand there, so the integer can iff it is one
  have hsome : (OfJson.record focusMessage).answer? (message "id" "id" (NodeId.toJson default)) =
      some default :=
    answer?_eq_some.mpr ⟨_, Json.resolve_of_faithful
      (faithful_message (by decide) (NodeId.faithful_toJson _)), read_focus _⟩
  have hanswer := (replaces_focus _ _ hsome).2 (.int n)
  have hknown : known? "id" = some (Source.map focus (Source.record focusMessage)) := rfl
  rw [decode_document hdoc rfl hknown, answer?_map]
  change ((OfJson.record focusMessage).answer? (message "id" "id" (.int n))).map focus = _ ↔ _
  rw [hanswer, answer?_int]
  by_cases hsigned : Signed n
  · simp [hsigned, Part.field, eq_comm]
  · simp [hsigned]

end Inbound

namespace Session

theorem receive_fault {s : Session} {text : String} {fault : DecodeFault}
    (hopen : s.channel.phase ≠ .closed) (h : Inbound.decode text = .error fault) :
    (s.receive text).result = .fault fault ∧
      (s.receive text).session.state.focus = s.state.focus ∧
      (s.receive text).session.state.fault = some text := by
  have haccepts : s.channel.acceptsFrames = true := by simpa [Channel.acceptsFrames] using hopen
  have hheard : s.heard (.frame text) =
      s.state.noted s.options.flagOnFault (.fault text s.state.focus) := by
    simp only [heard, note?, if_neg hopen, Note.ofFrame?, h]
  rw [receive_session, hheard]
  refine ⟨?_, rfl, rfl⟩
  simp only [receive, haccepts, if_true, h, publish]

end Session

namespace Inbound

/-- An integer of any size in place of an identifier is this identifier if it has 64 bits
with its sign, and otherwise makes the frame a fault. This is so for the next focus, where a
session takes note of the fault and keeps its focus, and for nodes and the ends of edges in
any tree that can be read with something else in their place. -/
theorem integer_kept_or_fault (n : Int) :
    (Signed n → ∃ i : Int64, i.toInt = n ∧
      decode (focusFrame n) = .ok (.focus (.number i))) ∧
    (¬Signed n → ∃ fault, decode (focusFrame n) = .error fault ∧
      ∀ s : Session, s.channel.phase ≠ .closed →
        (s.receive (focusFrame n)).result = .fault fault ∧
          (s.receive (focusFrame n)).session.state.focus = s.state.focus ∧
          (s.receive (focusFrame n)).session.state.fault = some (focusFrame n)) ∧
    ∀ (p : Place) (fill : Json → Json) (x v : Json) (t : ExecutionTree) (frame : String),
      Gap p.path fill → (fill x).resolve = some v → ofJson v = .ok (.tree t) →
      Json.document frame = .ok (fill (.int n)) →
      (Signed n → ∃ (i : Int64) (t' : ExecutionTree), i.toInt = n ∧
        decode frame = .ok (.tree t') ∧ t' = p.part.put (.number i) t ∧
        p.part.get? t' = some (.number i)) ∧
      (¬Signed n → ∃ fault, decode frame = .error fault) := by
  refine ⟨fun hsigned => ?_, fun hsigned => ?_, fun p fill x v t frame hgap hv ht hdoc => ?_⟩
  · exact ⟨.ofInt n, hsigned.toInt_ofInt, (decode_focusFrame n _).mpr ⟨hsigned, rfl⟩⟩
  · obtain ⟨fault, hfault⟩ := decode_fault_iff.mpr fun m hm =>
      hsigned ((decode_focusFrame n m).mp hm).1
    exact ⟨fault, hfault, fun s hopen => s.receive_fault hopen hfault⟩
  · obtain ⟨hkept, hfault⟩ := decode_place hgap hv ht hdoc
    refine ⟨fun hsigned => ?_, hfault⟩
    obtain ⟨hdecode, hget⟩ := hkept hsigned
    exact ⟨_, _, hsigned.toInt_ofInt, hdecode, rfl, hget⟩

def sapling (id : Json) : Json :=
  .obj [("type", .str "tree"), ("tree", .obj [("nodes", .arr [.obj [("id", id)]])])]

theorem largest_kept_next_fault :
    let large := "\x7b\"type\":\"tree\",\"tree\":\x7b\"nodes\":[" ++
      "\x7b\"id\":9223372036854775807\x7d]\x7d\x7d"
    let next := "\x7b\"type\":\"id\",\"id\":9223372036854775808\x7d"
    (∃ t, decode large = .ok (.tree t) ∧
      (Place.node 0).part.get? t = some (.number 9223372036854775807)) ∧
    ∃ fault, decode next = .error fault ∧
      ((Session.fresh "s" .standard).receive next).session.state.fault = some next := by
  intro large next
  have hgap : Gap (Place.node 0).path sapling :=
    @Gap.member [("type", .str "tree")] [] "tree" _ _ (by simp) <|
      @Gap.member [] [] "nodes" _ _ (by simp) <| @Gap.item [] [] _ _ <|
        @Gap.member [] [] "id" _ _ (by simp) .here
  have hlarge : Json.document large = .ok (sapling (.int 9223372036854775807)) := by
    have htext : large = (sapling (.int 9223372036854775807)).compact := by decide +kernel
    rw [htext]
    exact Json.document_compact rfl (by decide)
  obtain ⟨i, t, hi, ht, -, hget⟩ := ((integer_kept_or_fault 9223372036854775807).2.2 _ _
    (.str "a") (sapling (.str "a")) ⟨[⟨.text "a", "", "", none⟩], []⟩ large hgap rfl rfl hlarge).1
    (by decide)
  have hword : i = 9223372036854775807 := Int64.toInt_inj.mp (by rw [hi]; decide)
  have hnext : focusFrame 9223372036854775808 = next := by decide +kernel
  have hfocus := (integer_kept_or_fault 9223372036854775808).2.1 (by decide)
  rw [hnext] at hfocus
  obtain ⟨fault, hfault, hsession⟩ := hfocus
  exact ⟨⟨t, ht, hword ▸ hget⟩, fault, hfault, (hsession _ (by decide)).2.2⟩

end Inbound
end TreeJudge

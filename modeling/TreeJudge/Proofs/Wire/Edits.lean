import Mathlib.Logic.Relation
import TreeJudge.Proofs.Wire.Envelopes
import TreeJudge.Proofs.Wire.Messages

/-!
# Edits that a message survives

A message is read by the names of its members, at every level. So nothing changes when
members of other names are put in, when members change places, or when a member is put
before another one of its name, which is the one that counts.
-/

set_option autoImplicit false

namespace TreeJudge
open Shape OfJson
open Json (last? resolve)

/-- The part of a document that is read: the members of an object, the items of a list, or
the value as a whole. -/
inductive Skeleton where
  | leaf
  | list (item : Skeleton)
  | object (fields : List (String × Skeleton))

namespace Skeleton

def node : Skeleton := object [("id", leaf), ("label", leaf), ("title", leaf)]

def edge : Skeleton := object [("from", leaf), ("to", leaf)]

def tree : Skeleton := object [("nodes", list node), ("edges", list edge)]

def payload : Skeleton := object [("output", leaf)]

def body (kind : String) : String × Skeleton :=
  if kind = "tree" then ("tree", tree) else if kind = "cmd" then ("cmd", payload) else ("id", leaf)

def message (kind : String) : Skeleton := object [("type", leaf), body kind]

end Skeleton

/-- One edit of a document that is read by a skeleton, in one of its objects. Values that
are put in can be any that a text may have. -/
inductive Edit : Skeleton → Json → Json → Prop
  | insert {fields : List (String × Skeleton)} {before after : List (String × Json)}
      {key : String} {v : Json} (hkey : key ∉ fields.map Prod.fst)
      (hv : v.resolve.isSome = true) :
      Edit (.object fields) (.obj (before ++ after)) (.obj (before ++ (key, v) :: after))
  | swap {fields : List (String × Skeleton)} {before after : List (String × Json)}
      {m n : String × Json} (hkeys : m.1 ≠ n.1) :
      Edit (.object fields) (.obj (before ++ m :: n :: after)) (.obj (before ++ n :: m :: after))
  | shadow {fields : List (String × Skeleton)} {before after : List (String × Json)}
      {key : String} {v : Json} (hkey : key ∈ after.map Prod.fst)
      (hv : v.resolve.isSome = true) :
      Edit (.object fields) (.obj (before ++ after)) (.obj (before ++ (key, v) :: after))
  | member {fields : List (String × Skeleton)} {before after : List (String × Json)}
      {key : String} {s : Skeleton} {v w : Json} (hfield : (key, s) ∈ fields) (h : Edit s v w) :
      Edit (.object fields) (.obj (before ++ (key, v) :: after))
        (.obj (before ++ (key, w) :: after))
  | item {s : Skeleton} {before after : List Json} {v w : Json} (h : Edit s v w) :
      Edit (.list s) (.arr (before ++ v :: after)) (.arr (before ++ w :: after))

section
variable {α β : Type} {s : Skeleton} {fields : List (String × Skeleton)} {d d' : Json}
  {ms : List (String × Json)}

theorem Edit.isSome_resolve (h : Edit s d d') : d.resolve.isSome = d'.resolve.isSome := by
  rw [Bool.eq_iff_iff]
  induction h with
  | insert _ hv | shadow _ hv =>
    simp only [resolve, Option.isSome_map, Json.isSome_resolveMembers, List.forall_mem_append,
      List.forall_mem_cons, hv, true_and]
  | swap _ =>
    simp only [resolve, Option.isSome_map, Json.isSome_resolveMembers, List.forall_mem_append,
      List.forall_mem_cons, and_left_comm]
  | member _ _ ih =>
    simp only [resolve, Option.isSome_map, Json.isSome_resolveMembers, List.forall_mem_append,
      List.forall_mem_cons, ih]
  | item _ ih =>
    simp only [resolve, Option.isSome_map, Json.isSome_resolveItems, List.forall_mem_append,
      List.forall_mem_cons, ih]

theorem Edit.last? (h : Edit (.object fields) (.obj ms) d') (hnames : (fields.map Prod.fst).Nodup)
    {key : String} (hfield : (key, s) ∈ fields) :
    ∃ ms', d' = .obj ms' ∧ (last? key ms' = last? key ms ∨
      ∃ v w, last? key ms = some v ∧ last? key ms' = some w ∧ Edit s v w) := by
  generalize hd : Json.obj ms = d at h
  cases h with
  | insert hkey _ =>
    cases hd
    have hne : ∀ k, k ∉ fields.map Prod.fst → k ≠ key := fun k hk he =>
      hk (he ▸ List.mem_map_of_mem hfield)
    exact ⟨_, rfl, .inl (Json.last?_middle_of_ne (hne _ hkey))⟩
  | @swap _ before after m n hkeys =>
    cases hd
    refine ⟨_, rfl, .inl ?_⟩
    by_cases hm : m.1 = key
    · have hn : n.1 ≠ key := fun hn => hkeys (hm.trans hn.symm)
      simp [Json.last?_append, Json.last?, hm, hn]
    · simp [Json.last?_append, Json.last?, hm]
  | @shadow _ _ _ k _ hkey _ =>
    cases hd
    refine ⟨_, rfl, .inl ?_⟩
    by_cases hk : k = key
    · subst hk
      exact Json.last?_middle_of_mem hkey
    · exact Json.last?_middle_of_ne hk
  | @member _ before after k s' v w hmember hvw =>
    cases hd
    refine ⟨_, rfl, ?_⟩
    by_cases hk : k = key
    · subst hk
      have hs : s' = s := by
        have hsame := List.inj_on_of_nodup_map hnames hmember hfield rfl
        exact (Prod.mk.inj hsame).2
      subst hs
      -- an edit in a member that another one follows does not count
      by_cases hafter : k ∈ after.map Prod.fst
      · rw [Json.last?_middle_of_mem hafter, Json.last?_middle_of_mem hafter]
        exact .inl rfl
      · exact .inr ⟨v, w, Json.last?_middle_of_not_mem hafter,
          Json.last?_middle_of_not_mem hafter, hvw⟩
    · rw [Json.last?_middle_of_ne hk, Json.last?_middle_of_ne hk]
      exact .inl rfl

/-- The reader answers the same before and after an edit. -/
def Respects (s : Skeleton) (r : OfJson α) : Prop :=
  ∀ d d', Edit s d d' → r.answer? d' = r.answer? d

theorem respects_leaf (r : OfJson α) : Respects .leaf r := nofun

theorem Respects.map {r : OfJson α} (h : Respects s r) (f : α → β) :
    Respects s (Source.map f r) := by
  intro d d' hedit
  rw [answer?_map, answer?_map, h d d' hedit]

theorem respects_list {item : OfJson α} (h : Respects s item) :
    Respects (.list s) (OfJson.list item) := by
  intro d d' hedit
  cases hedit with
  | item hvw =>
    ext as
    simp only [answer?_list, List.map_append, List.map_cons, h _ _ hvw]

def Covers (fields : List (String × Skeleton)) (f : Field OfJson α) : Prop :=
  ∃ s, (f.name, s) ∈ fields ∧ Respects s f.read

theorem respects_record {r : Record OfJson α} (hr : r.fields.Pairwise Apart)
    (hnames : (fields.map Prod.fst).Nodup) (hcovers : ∀ f ∈ r.fields, Covers fields f) :
    Respects (.object fields) (OfJson.record r) := by
  intro d d' hedit
  obtain ⟨ms, rfl⟩ : ∃ ms, d = .obj ms := by
    cases hedit <;> exact ⟨_, rfl⟩
  obtain ⟨ms', rfl⟩ : ∃ ms', d' = .obj ms' := by
    cases hedit <;> exact ⟨_, rfl⟩
  have hchange : r.fields.map (effect ms') = r.fields.map (effect ms) := by
    refine List.map_congr_left fun f hf => ?_
    obtain ⟨s, hfield, hs⟩ := hcovers f hf
    obtain ⟨_, ⟨⟩, hsame | ⟨v, w, hv, hw, hvw⟩⟩ := hedit.last? hnames hfield
    · rw [effect, effect, hsame]
    · simp only [effect, hv, hw, hs v w hvw]
  have hresolve : (Json.resolveMembers ms').isSome = (Json.resolveMembers ms).isSome := by
    simpa [resolve] using hedit.isSome_resolve.symm
  rw [answer?_record hr, answer?_record hr, hchange]
  cases hms : Json.resolveMembers ms <;> cases hms' : Json.resolveMembers ms' <;>
    simp_all

end

theorem respects_node : Respects .node (OfJson.record Node.record) := by
  refine respects_record apart_node (by decide) ?_
  refine List.forall_mem_cons.mpr ⟨⟨_, .head _, respects_leaf _⟩, ?_⟩
  refine List.forall_mem_cons.mpr ⟨⟨_, .tail _ (.head _), respects_leaf _⟩, ?_⟩
  exact List.forall_mem_singleton.mpr ⟨_, .tail _ (.tail _ (.head _)), respects_leaf _⟩

theorem respects_edge : Respects .edge (OfJson.record Edge.record) := by
  refine respects_record apart_edge (by decide) ?_
  refine List.forall_mem_cons.mpr ⟨⟨_, .head _, respects_leaf _⟩, ?_⟩
  exact List.forall_mem_singleton.mpr ⟨_, .tail _ (.head _), respects_leaf _⟩

theorem respects_tree : Respects .tree (OfJson.record ExecutionTree.record) := by
  refine respects_record apart_tree (by decide) ?_
  refine List.forall_mem_cons.mpr ⟨⟨_, .head _, (respects_list respects_node).map _⟩, ?_⟩
  exact List.forall_mem_singleton.mpr
    ⟨_, .tail _ (.head _), (respects_list respects_edge).map _⟩

namespace Inbound

theorem respects_payload : Respects .payload (OfJson.record payload) :=
  respects_record (List.pairwise_singleton _ _) (by decide)
    (List.forall_mem_singleton.mpr ⟨_, .head _, respects_leaf _⟩)

theorem respects_known {kind : String} {reader : OfJson Inbound}
    (hknown : known? kind = some reader) : Respects (.message kind) reader := by
  rcases known?_eq_some hknown with ⟨rfl, rfl⟩ | ⟨rfl, rfl⟩ | ⟨rfl, rfl⟩
  · exact (respects_record (List.pairwise_singleton _ _) (by decide) <|
      List.forall_mem_singleton.mpr ⟨_, .tail _ (.head _), respects_tree.map _⟩).map _
  · exact (respects_record (List.pairwise_singleton _ _) (by decide) <|
      List.forall_mem_singleton.mpr ⟨_, .tail _ (.head _), respects_payload.map _⟩).map _
  · exact (respects_record (List.pairwise_singleton _ _) (by decide) <|
      List.forall_mem_singleton.mpr ⟨_, .tail _ (.head _), respects_leaf _⟩).map _

theorem nodup_message (kind : String) :
    ([("type", .leaf), Skeleton.body kind].map Prod.fst).Nodup := by
  unfold Skeleton.body
  split
  · decide
  · split <;> decide

theorem answer?_edited {kind : String} {reader : OfJson Inbound}
    (hknown : known? kind = some reader) {ms : List (String × Json)} {d : Json}
    (h : Relation.ReflTransGen (Edit (.message kind)) (.obj ms) d) :
    ∃ ms', d = .obj ms' ∧ last? "type" ms' = last? "type" ms ∧
      reader.answer? (.obj ms') = reader.answer? (.obj ms) := by
  induction h with
  | refl => exact ⟨ms, rfl, rfl, rfl⟩
  | tail _ hedit ih =>
    obtain ⟨ms₁, rfl, htype, hanswer⟩ := ih
    obtain ⟨ms₂, rfl, hsame | ⟨_, _, _, _, hleaf⟩⟩ :=
      hedit.last? (nodup_message kind) (.head _)
    · exact ⟨ms₂, rfl, hsame.trans htype, (respects_known hknown _ _ hedit).trans hanswer⟩
    · cases hleaf

/-- A frame of a known type is decoded as before when its document has been edited any
number of times, and is a fault when it was one before. -/
theorem decode_edited {frame edited kind : String} {ms : List (String × Json)} {d : Json}
    (hframe : Json.document frame = .ok (.obj ms)) (htype : last? "type" ms = some (.str kind))
    (hkind : kind ∈ ["tree", "cmd", "id"]) (hedited : Json.document edited = .ok d)
    (hedits : Relation.ReflTransGen (Edit (.message kind)) (.obj ms) d) :
    (∀ m, decode edited = .ok m ↔ decode frame = .ok m) ∧
    ((∃ fault, decode edited = .error fault) ↔ ∃ fault, decode frame = .error fault) := by
  obtain ⟨reader, hknown⟩ := known?_isSome hkind
  obtain ⟨ms', rfl, htype', hanswer⟩ := answer?_edited hknown hedits
  have hsame : ∀ m, decode edited = .ok m ↔ decode frame = .ok m := fun m => by
    rw [decode_document hframe htype hknown, ← hanswer]
    exact decode_document hedited (htype'.trans htype) hknown
  refine ⟨hsame, ?_⟩
  simp only [decode_fault_iff, ne_eq, hsame]

def seedling (others : List (String × Json)) : Json :=
  .obj [("nodes", .arr [.obj (others ++ [("id", .int 1), ("label", .str "a")])])]

theorem seedling_edited :
    let frame := "\x7b\"type\":\"tree\",\"tree\":\x7b\"nodes\":[" ++
      "\x7b\"id\":1,\"label\":\"a\"\x7d]\x7d\x7d"
    let edited := "\x7b\"type\":null,\"tree\":\x7b\"nodes\":[" ++
      "\x7b\"color\":[],\"id\":1,\"label\":\"a\"\x7d]\x7d,\"type\":\"tree\"\x7d"
    let ms := [("type", .str "tree"), ("tree", seedling [])]
    let d := .obj [("type", .null), ("tree", seedling [("color", .arr [])]), ("type", .str "tree")]
    Json.document frame = .ok (.obj ms) ∧ last? "type" ms = some (.str "tree") ∧
      "tree" ∈ ["tree", "cmd", "id"] ∧ Json.document edited = .ok d ∧
      Relation.ReflTransGen (Edit (.message "tree")) (.obj ms) d ∧
      ∀ m, decode edited = .ok m ↔ decode frame = .ok m := by
  intro frame edited ms d
  have hframe : Json.document frame = .ok (.obj ms) := by
    have htext : frame = (Json.obj ms).compact := by decide +kernel
    rw [htext]
    exact Json.document_compact (by decide) (by decide)
  have hedited : Json.document edited = .ok d := by
    have htext : edited = d.compact := by decide +kernel
    rw [htext]
    exact Json.document_compact (by decide) (by decide)
  have hcolor : Edit .tree (seedling []) (seedling [("color", .arr [])]) :=
    @Edit.member _ [] [] _ _ _ _ (.head _) <| @Edit.item _ [] [] _ _ <|
      @Edit.insert _ [] _ "color" (.arr []) (by decide) rfl
  have hedits : Relation.ReflTransGen (Edit (.message "tree")) (.obj ms) d :=
    .head (@Edit.member _ [("type", .str "tree")] [] _ _ _ _ (.tail _ (.head _)) hcolor) <|
    .head (@Edit.swap _ [] [] _ _ (by decide)) <|
    .single (@Edit.shadow _ [] _ "type" .null (by decide) rfl)
  exact ⟨hframe, rfl, by decide, hedited, hedits,
    (decode_edited hframe rfl (by decide) hedited hedits).1⟩

end Inbound
end TreeJudge

import TreeJudge.Proofs.Tree.Listing

/-!
# Colors can be stripped

A terminal takes an escape character, a bracket, digits and the letter m for a change of
style. What is shown in colors differs from what is shown without by nothing but such
codes, so as long as no text that is shown has an escape character of its own, removing
them gives the plain text back.
-/

set_option autoImplicit false

namespace TreeJudge

namespace Styling

def behindCode? (cs : List Char) : Option (List Char) :=
  match cs with
  | '\x1b' :: '[' :: d :: r =>
    match r.dropWhile Char.isDigit with
    | 'm' :: rest => if d.isDigit then some rest else none
    | _ => none
  | _ => none

theorem length_behindCode? {cs rest : List Char} (h : behindCode? cs = some rest) :
    rest.length < cs.length := by
  unfold behindCode? at h
  split at h
  · next d r =>
    have hdrop := (List.dropWhile_sublist Char.isDigit (l := r)).length_le
    split at h
    · next after heq =>
      rw [heq] at hdrop
      simp only [List.length_cons] at hdrop ⊢
      split at h
      · cases h
        omega
      · cases h
    · cases h
  · cases h

def strip : List Char → List Char
  | [] => []
  | c :: cs =>
    match _hcode : behindCode? (c :: cs) with
    | some rest => strip rest
    | none => c :: strip cs
termination_by cs => cs.length
decreasing_by
  · exact length_behindCode? _hcode
  · exact Nat.lt_succ_self _

def stripped (s : String) : String := String.ofList (strip s.toList)

theorem behindCode?_cons {c : Char} (h : c ≠ '\x1b') (cs : List Char) :
    behindCode? (c :: cs) = none := by
  unfold behindCode?
  split
  · next heq => exact absurd (List.cons.inj heq).1 h
  · rfl

theorem strip_append {text : List Char} (h : '\x1b' ∉ text) (rest : List Char) :
    strip (text ++ rest) = text ++ strip rest := by
  induction text with
  | nil => rfl
  | cons c text ih =>
    rw [List.mem_cons, not_or] at h
    rw [List.cons_append, strip]
    split
    · next hcode =>
      rw [behindCode?_cons (Ne.symm h.1)] at hcode
      cases hcode
    · rw [ih h.2, List.cons_append]

theorem strip_code {code : List Char} (hcode : code ≠ []) (hdigits : code.all Char.isDigit)
    (rest : List Char) : strip ('\x1b' :: '[' :: (code ++ 'm' :: rest)) = strip rest := by
  obtain ⟨d, ds, rfl⟩ := List.exists_cons_of_ne_nil hcode
  rw [List.all_cons, Bool.and_eq_true, List.all_eq_true] at hdigits
  have hdrop : (ds ++ 'm' :: rest).dropWhile Char.isDigit = 'm' :: rest := by
    rw [List.dropWhile_append_of_pos hdigits.2]
    rfl
  have hbehind : behindCode? ('\x1b' :: '[' :: (d :: ds ++ 'm' :: rest)) = some rest := by
    simp only [behindCode?, List.cons_append, hdrop, hdigits.1, if_true]
  rw [strip]
  split
  · next heq =>
    rw [hbehind] at heq
    cases heq
    rfl
  · next heq =>
    rw [hbehind] at heq
    cases heq

end Styling

def Unescaped (s : String) : Prop := '\x1b' ∉ s.toList

instance (s : String) : Decidable (Unescaped s) := inferInstanceAs (Decidable (_ ∉ _))

@[simp] theorem unescaped_append (a b : String) :
    Unescaped (a ++ b) ↔ Unescaped a ∧ Unescaped b := by
  simp [Unescaped]

namespace Piece
open Styling

theorem strip_sequence {code : String} (hcode : code.toList ≠ [])
    (hdigits : code.toList.all Char.isDigit) (rest : List Char) :
    strip ((sequence code).toList ++ rest) = strip rest := by
  have hlist : (sequence code).toList ++ rest =
      '\x1b' :: '[' :: (code.toList ++ 'm' :: rest) := by
    simp [sequence]
  rw [hlist, strip_code hcode hdigits]

theorem strip_opening (p : Piece) (rest : List Char) :
    strip (p.opening.toList ++ rest) = strip rest := by
  obtain ⟨color, bold, text⟩ := p
  have hbold : ∀ rest, strip ((if bold then sequence "1" else "").toList ++ rest) = strip rest := by
    intro rest
    cases bold with
    | false => rfl
    | true => exact strip_sequence (by decide) (by decide) rest
  rw [opening, String.toList_append, List.append_assoc]
  cases color with
  | none => exact hbold rest
  | some c =>
    rw [strip_sequence (by cases c <;> decide) (by cases c <;> decide)]
    exact hbold rest

theorem strip_write {p : Piece} (h : Unescaped p.text) (rest : List Char) :
    strip ((p.write true).toList ++ rest) = p.text.toList ++ strip rest := by
  cases hs : p.styled with
  | false => rw [write, hs, Bool.and_false, if_neg Bool.false_ne_true, strip_append h]
  | true =>
    rw [write, hs, Bool.and_self, if_pos rfl]
    simp only [String.toList_append, List.append_assoc]
    rw [strip_opening, strip_append h, strip_sequence (by decide) (by decide)]

theorem stripped_writeAll {ps : List Piece} (h : ∀ p ∈ ps, Unescaped p.text) :
    stripped (writeAll true ps) = writeAll false ps := by
  have hlist : strip (writeAll true ps).toList = (writeAll false ps).toList := by
    induction ps with
    | nil => simp [writeAll, strip]
    | cons p ps ih =>
      rw [List.forall_mem_cons] at h
      have hrest := ih h.2
      simp only [writeAll, List.map_cons, String.join_cons, String.toList_append] at hrest ⊢
      rw [strip_write h.1, hrest, write_uncolored]
  rw [stripped, hlist, String.ofList_toList]

end Piece

def NodeId.texts : NodeId → List String
  | .number _ => []
  | .text s => [s]

def Snapshot.texts (s : Snapshot) : List String :=
  s.sessionId :: s.fault.toList ++
    (s.focus.toList ++ s.flagged.toList ++ s.confirmed.toList).flatMap NodeId.texts ++
    s.tree.toList.flatMap fun t => t.nodes.flatMap fun n => n.label :: n.id.texts

def NodeDetails.texts (d : NodeDetails) : List String :=
  d.label :: d.id.texts ++ d.fields.flatMap fun f => [f.label, f.value]

theorem NodeId.unescaped_shown {id : NodeId} (h : ∀ x ∈ id.texts, Unescaped x) :
    Unescaped id.shown := by
  have hdigits : ∀ n, Unescaped (Nat.repr n) := by
    intro n hn
    rw [Nat.toList_repr] at hn
    have hdigit := Nat.isDigit_of_mem_toDigits (by decide) (by decide) hn
    exact absurd hdigit (by decide)
  cases id with
  | text s => exact h s List.mem_cons_self
  | number n =>
    change Unescaped (toString n.toInt)
    cases n.toInt with
    | ofNat m => exact hdigits m
    | negSucc m => exact (unescaped_append "-" _).mpr ⟨by decide, hdigits (m + 1)⟩

namespace Render
open Piece Styling

theorem unescaped_indent (depth : Nat) : Unescaped (indent depth) := by
  intro h
  rw [indent, String.toList_join] at h
  obtain ⟨s, hs, hmem⟩ := List.mem_flatMap.mp h
  rw [List.eq_of_mem_replicate hs] at hmem
  revert hmem
  decide

theorem unescaped_line (s : Snapshot) {l : WalkLine} (hlabel : Unescaped l.node.label)
    (hid : Unescaped l.node.id.shown) : ∀ p ∈ line s l, Unescaped p.text := by
  have hcaption : Unescaped (caption l.node) := by
    simp only [caption, unescaped_append, hlabel, hid, true_and]
    decide
  have hjudged : ∀ p ∈ judged (s.verdict? l.node.id) l.node, Unescaped p.text := by
    cases s.verdict? l.node.id with
    | none => simpa [judged, plain] using hcaption
    | some v =>
      cases v <;>
        simp only [judged, plain, colored, strongColored, List.forall_mem_cons, hcaption] <;>
        decide
  have harrow : ∀ here, ∀ p ∈ arrow here, Unescaped p.text := by decide
  simp only [line, List.forall_mem_append, List.forall_mem_singleton, plain]
  exact ⟨⟨⟨unescaped_indent l.depth, hjudged⟩, harrow _⟩, by decide⟩

theorem unescaped_tree {s : Snapshot}
    (h : ∀ t ∈ s.tree, ∀ n ∈ t.nodes, Unescaped n.label ∧ Unescaped n.id.shown) :
    ∀ p ∈ tree s, Unescaped p.text := by
  cases ht : s.tree with
  | none =>
    simp only [tree, ht, List.forall_mem_singleton]
    decide
  | some t =>
    intro p hp
    simp only [tree, ht] at hp
    obtain ⟨l, hl, hp⟩ := List.mem_flatMap.mp hp
    have hnode := ExecutionTree.mem_of_node? (Walk.names_of t l hl)
    obtain ⟨hlabel, hid⟩ := h t ht l.node hnode
    exact unescaped_line s hlabel hid p hp

theorem unescaped_details {d : NodeDetails} (hlabel : Unescaped d.label)
    (hid : Unescaped d.id.shown)
    (hfields : ∀ f ∈ d.fields, Unescaped f.label ∧ Unescaped f.value) :
    ∀ p ∈ details d, Unescaped p.text := by
  simp only [details, List.forall_mem_append]
  constructor
  · simp only [strong, plain, List.forall_mem_cons, unescaped_append, hlabel, hid]
    decide
  · rw [List.forall_mem_flatMap]
    intro f hf
    obtain ⟨hl, hv⟩ := hfields f hf
    simp only [plain, colored, List.forall_mem_cons, unescaped_append, hl, hv]
    decide

theorem unescaped_shownId {id : Option NodeId} (h : ∀ i ∈ id, Unescaped i.shown) :
    Unescaped (shownId id) := by
  cases id with
  | none => decide
  | some i => exact h i rfl

theorem unescaped_listed {ids : List NodeId} (h : ∀ i ∈ ids, Unescaped i.shown) :
    Unescaped (", ".intercalate (ids.map NodeId.shown)) := by
  induction ids with
  | nil => decide
  | cons i ids ih =>
    rw [List.forall_mem_cons] at h
    cases ids with
    | nil => simpa [String.intercalate_singleton] using h.1
    | cons j ids =>
      rw [List.map_cons, List.map_cons, String.intercalate_cons_cons]
      simp only [unescaped_append, h.1]
      exact ⟨⟨trivial, by decide⟩, ih h.2⟩

theorem unescaped_status {s : Snapshot} (hsession : Unescaped s.sessionId)
    (hfault : ∀ f ∈ s.fault, Unescaped f) (hfocus : ∀ i ∈ s.focus, Unescaped i.shown)
    (hflagged : ∀ i ∈ s.flagged, Unescaped i.shown)
    (hconfirmed : ∀ i ∈ s.confirmed.toList, Unescaped i.shown) :
    ∀ p ∈ status s, Unescaped p.text := by
  have hphase : Unescaped s.channel.shown := by cases s.channel <;> decide
  simp only [status, List.forall_mem_append]
  constructor
  · simp only [plain, List.forall_mem_cons, unescaped_append, hsession, hphase,
      unescaped_shownId hfocus, unescaped_shownId hflagged, unescaped_listed hconfirmed]
    decide
  · cases hf : s.fault with
    | none => simp
    | some f =>
      simp only [plain, strongColored, List.forall_mem_cons, unescaped_append, hfault f hf]
      decide

/-- What is shown in colors is, without the codes, what is shown without colors: the
tree and the status of a snapshot and the details of a node, whatever their texts, as
long as these have no escape characters. -/
theorem stripped_panels (s : Snapshot) (d : NodeDetails) (hs : ∀ x ∈ s.texts, Unescaped x)
    (hd : ∀ x ∈ d.texts, Unescaped x) :
    stripped (writeAll true (tree s)) = writeAll false (tree s) ∧
      stripped (writeAll true (details d)) = writeAll false (details d) ∧
      stripped (writeAll true (status s)) = writeAll false (status s) := by
  simp only [Snapshot.texts, List.cons_append, List.forall_mem_cons, List.forall_mem_append,
    List.forall_mem_flatMap, Option.mem_toList] at hs
  simp only [NodeDetails.texts, List.cons_append, List.forall_mem_cons, List.forall_mem_append,
    List.forall_mem_flatMap] at hd
  obtain ⟨hsession, ⟨hfault, ⟨hfocus, hflagged⟩, hconfirmed⟩, hnodes⟩ := hs
  obtain ⟨hlabel, hid, hfields⟩ := hd
  refine ⟨stripped_writeAll ?_, stripped_writeAll ?_, stripped_writeAll ?_⟩
  · refine unescaped_tree fun t ht n hn => ?_
    obtain ⟨hlabel, hid⟩ := hnodes t ht n hn
    exact ⟨hlabel, NodeId.unescaped_shown hid⟩
  · refine unescaped_details hlabel (NodeId.unescaped_shown hid) fun f hf => ?_
    obtain ⟨hname, hvalue, -⟩ := hfields f hf
    exact ⟨hname, hvalue⟩
  · exact unescaped_status hsession hfault (fun i hi => NodeId.unescaped_shown (hfocus i hi))
      (fun i hi => NodeId.unescaped_shown (hflagged i hi))
      (fun i hi => NodeId.unescaped_shown (hconfirmed i hi))

/-- A flag on the focus, a confirmed text, and labels that look like the ends of codes:
digits and the letter m, a bracket, and nothing at all. -/
def disguised : Snapshot where
  sessionId := "sess_0"
  tree := some ⟨[⟨.number 1, "31m", "", none⟩, ⟨.text "[0m", "", "", none⟩],
    [⟨.number 1, .text "[0m"⟩]⟩
  focus := some (.number 1)
  flagged := some (.number 1)
  confirmed := .ofList [.text "[0m"]
  fault := some "[1mnot-json"
  output := none
  channel := .opened

def disguisedDetails : NodeDetails := ⟨.text "[0m", "", [⟨"1m", ""⟩, ⟨"", "m"⟩]⟩

theorem disguised_is_stripped :
    (∀ x ∈ disguised.texts, Unescaped x) ∧ (∀ x ∈ disguisedDetails.texts, Unescaped x) ∧
      stripped (writeAll true (tree disguised)) =
        "31m [1] ✗\t<-\n│    [[0m] ✓\n" ∧
      stripped (writeAll true (details disguisedDetails)) =
        "Current Node [0m\n  \n  1m \n   m\n" ∧
      stripped (writeAll true (status disguised)) =
        "session:   sess_0\nchannel:   Open\nfocus:     1\nflagged:   1\n" ++
          "confirmed: [[0m]\nfault: [1mnot-json\n" := by
  have hs : ∀ x ∈ disguised.texts, Unescaped x := by decide +kernel
  have hd : ∀ x ∈ disguisedDetails.texts, Unescaped x := by decide +kernel
  obtain ⟨htree, hdetails, hstatus⟩ := stripped_panels disguised disguisedDetails hs hd
  exact ⟨hs, hd, htree.trans (by decide +kernel), hdetails.trans (by decide +kernel),
    hstatus.trans (by decide +kernel)⟩

end Render
end TreeJudge

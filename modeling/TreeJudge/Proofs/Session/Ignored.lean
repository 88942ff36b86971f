import TreeJudge.Proofs.Json.Grammar
import TreeJudge.Proofs.Json.ReadBack
import TreeJudge.Proofs.Session.Coherence

/-!
# Frames that leave no trace

A peer may send frames that a session knows nothing of, and frames may still come
after the channel has closed. Both are passed over: a run goes on as if they had
never been sent, in what it answers, publishes and holds for the wire. This does not
go for valid JSON that the reader refuses: such a frame is a fault.
-/

set_option autoImplicit false

namespace TreeJudge
namespace Inbound

/-- The text is read as JSON, but not as an object of a known type. -/
def Foreign (text : String) : Prop :=
  ∃ v, Json.parse text = .ok v ∧
    ¬ ∃ members kind, v = .obj members ∧ Json.lookup? "type" members = some (.str kind) ∧
      kind ∈ ["tree", "cmd", "id"]

theorem valid_of_foreign {text : String} (h : Foreign text) : Json.Valid text := by
  obtain ⟨v, hv, -⟩ := h
  exact Json.valid_of_parse hv

theorem known?_eq_none {kind : String} (h : kind ∉ ["tree", "cmd", "id"]) :
    known? kind = none := by
  simp only [List.mem_cons, List.not_mem_nil, or_false, not_or] at h
  simp [known?, h]

theorem decode_of_foreign {text : String} (h : Foreign text) :
    ∃ kind, decode text = .ok (.unrecognized kind) := by
  obtain ⟨v, hv, hforeign⟩ := h
  have hshape : ∃ kind, ofJson v = .ok (.unrecognized kind) := by
    unfold ofJson
    split
    · next kind hkind =>
      have hunknown : kind ∉ ["tree", "cmd", "id"] := by
        intro hknown
        cases v with
        | obj members => exact hforeign ⟨members, kind, rfl, hkind, hknown⟩
        | _ => cases hkind
      exact ⟨some kind, by rw [known?_eq_none hunknown]⟩
    · exact ⟨none, rfl⟩
  obtain ⟨kind, hkind⟩ := hshape
  exact ⟨kind, decode_eq_ok.mpr ⟨v, hv, hkind⟩⟩

theorem foreign_compact {v : Json} (hf : v.faithful = true) (hn : v.nesting ≤ Json.deepest)
    (htype : ∀ kind ∈ ["tree", "cmd", "id"], v.get? "type" ≠ some (.str kind)) :
    Foreign v.compact := by
  refine ⟨v, Json.parse_compact hf hn, ?_⟩
  rintro ⟨members, kind, rfl, hkind, hknown⟩
  exact htype kind hknown hkind

end Inbound

namespace Session

def PassesOver (s : Session) (e : Event) : Prop :=
  ∃ text, e = .frame text ∧ (Inbound.Foreign text ∨ s.channel.phase = .closed)

theorem step_of_passesOver {s : Session} {e : Event} (h : s.PassesOver e) :
    (s.step e).session = s ∧ (s.step e).published = none := by
  obtain ⟨text, rfl, hwhy⟩ := h
  have hsilent : s.Silent (.frame text) := by
    rcases hwhy with hforeign | hclosed
    · exact .inr (Inbound.decode_of_foreign hforeign)
    · exact .inl hclosed
  have hpublished := (s.published_eq_none_iff (.frame text)).mpr hsilent
  exact ⟨s.silent_step (.frame text) hpublished, hpublished⟩

def kept (marks : List (Event × Bool)) : List Event := (marks.filter Prod.snd).map Prod.fst

/-- Only events that the session passes over when they come are not marked. -/
def SparesOnly (s : Session) (marks : List (Event × Bool)) : Prop :=
  ∀ before e rest, marks = before ++ (e, false) :: rest →
    (s.after (before.map Prod.fst)).PassesOver e

theorem sparesOnly_nil (s : Session) : s.SparesOnly [] := by
  intro before e rest h
  simp at h

theorem sparesOnly_cons (s : Session) (m : Event × Bool) (marks : List (Event × Bool)) :
    s.SparesOnly (m :: marks) ↔
      (m.2 = false → s.PassesOver m.1) ∧ (s.step m.1).session.SparesOnly marks := by
  constructor
  · intro h
    constructor
    · intro hm
      exact h [] m.1 marks (by rw [← hm]; rfl)
    · intro before e rest hmarks
      exact h (m :: before) e rest (by rw [hmarks, List.cons_append])
  · rintro ⟨hhead, htail⟩ before e rest hmarks
    cases before with
    | nil =>
      obtain ⟨rfl, -⟩ := List.cons.inj hmarks
      exact hhead rfl
    | cons b before =>
      obtain ⟨rfl, hrest⟩ := List.cons.inj hmarks
      exact htail before e rest hrest

theorem after_kept {s : Session} {marks : List (Event × Bool)} (h : s.SparesOnly marks) :
    s.after (marks.map Prod.fst) = s.after (kept marks) := by
  induction marks generalizing s with
  | nil => rfl
  | cons m marks ih =>
    obtain ⟨hhead, htail⟩ := (s.sparesOnly_cons m marks).mp h
    rw [List.map_cons, after_cons, ih htail]
    cases hm : m.2 with
    | true => simp [kept, hm, after_cons]
    | false => simp [kept, hm, (step_of_passesOver (hhead hm)).1]

theorem run_kept {s : Session} {marks : List (Event × Bool)} (h : s.SparesOnly marks) :
    ((marks.zip (s.run (marks.map Prod.fst))).filter (·.1.2)).map Prod.snd =
      s.run (kept marks) := by
  induction marks generalizing s with
  | nil => rfl
  | cons m marks ih =>
    obtain ⟨hhead, htail⟩ := (s.sparesOnly_cons m marks).mp h
    have hrest := ih htail
    cases hm : m.2 with
    | true => simpa [kept, run, hm] using hrest
    | false =>
      rw [(step_of_passesOver (hhead hm)).1] at hrest
      simpa [kept, run, hm, (step_of_passesOver (hhead hm)).1] using hrest

theorem published_kept {s : Session} {marks : List (Event × Bool)} (h : s.SparesOnly marks) :
    (s.run (marks.map Prod.fst)).filterMap (·.published) =
      (s.run (kept marks)).filterMap (·.published) := by
  induction marks generalizing s with
  | nil => rfl
  | cons m marks ih =>
    obtain ⟨hhead, htail⟩ := (s.sparesOnly_cons m marks).mp h
    rw [List.map_cons, run, List.filterMap_cons, ih htail]
    cases hm : m.2 with
    | true => simp [kept, run, hm, List.filterMap_cons]
    | false =>
      obtain ⟨hsession, hpublished⟩ := step_of_passesOver (hhead hm)
      simp [kept, hm, hsession, hpublished]

/-- A run may be stripped of any frames that are foreign or come too late. Every other
event has the same update, with its result and its snapshot; the same snapshots are
published in the same order; and at every point the session is the same, what waits
for the wire included. -/
theorem spared_frames_are_invisible (s : Session) (marks : List (Event × Bool))
    (h : s.SparesOnly marks) :
    let es := marks.map Prod.fst
    ((marks.zip (s.run es)).filter (·.1.2)).map Prod.snd = s.run (kept marks) ∧
      (s.run es).filterMap (·.published) = (s.run (kept marks)).filterMap (·.published) ∧
      ∀ before, before <+: marks → s.after (before.map Prod.fst) = s.after (kept before) := by
  intro es
  refine ⟨run_kept h, published_kept h, ?_⟩
  rintro before ⟨behind, rfl⟩
  apply after_kept
  intro front e rest hfront
  exact h front e (rest ++ behind) (by rw [hfront, List.append_assoc, List.cons_append])

def noisy : List (Event × Bool) :=
  [(.opened, true), (.frame "42", false), (.frame "\x7b\"type\":\"id\",\"id\":5\x7d", true),
    (.frame "\x7b\"type\":\"progress\"\x7d", false), (.judge .yes, true),
    (.frame "[\"tree\"]", false), (.closed .remote, true),
    (.frame "\x7b\"type\":\"id\",\"id\":6\x7d", false), (.judge .no, true)]

theorem noise_is_invisible :
    let s := fresh "sess_0" .standard
    s.SparesOnly noisy ∧
      s.after (noisy.map Prod.fst) = s.after (kept noisy) ∧
      kept noisy = [.opened, .frame "\x7b\"type\":\"id\",\"id\":5\x7d", .judge .yes,
        .closed .remote, .judge .no] := by
  have hnumber : Inbound.Foreign "42" :=
    Inbound.foreign_compact (v := .int 42) (by decide) (by decide) (by simp [Json.get?])
  have hobject : Inbound.Foreign "\x7b\"type\":\"progress\"\x7d" := by
    have htext : "\x7b\"type\":\"progress\"\x7d" =
        (Json.obj [("type", .str "progress")]).compact := by decide +kernel
    rw [htext]
    exact Inbound.foreign_compact (by decide) (by decide) (by simp [Json.get?, Json.lookup?])
  have hlist : Inbound.Foreign "[\"tree\"]" := by
    have htext : "[\"tree\"]" = (Json.arr [.str "tree"]).compact := by decide +kernel
    rw [htext]
    exact Inbound.foreign_compact (by decide) (by decide) (by simp [Json.get?])
  have hspares : (fresh "sess_0" .standard).SparesOnly noisy := by
    simp only [noisy, sparesOnly_cons]
    exact ⟨nofun, fun _ => ⟨_, rfl, .inl hnumber⟩, nofun, fun _ => ⟨_, rfl, .inl hobject⟩, nofun,
      fun _ => ⟨_, rfl, .inl hlist⟩, nofun, fun _ => ⟨_, rfl, .inr (by decide +kernel)⟩, nofun,
      sparesOnly_nil _⟩
  refine ⟨hspares, ?_, by decide⟩
  exact (spared_frames_are_invisible _ noisy hspares).2.2 noisy (List.prefix_refl noisy)

def overflowing : List (Event × Bool) :=
  [(.opened, true), (.frame "\x7b\"type\":\"id\",\"id\":5\x7d", true), (.frame "1e999", false)]

/-- Not every frame of valid JSON may be left out: one that the reader refuses is a
fault, which flags the node in focus and publishes. -/
theorem valid_frame_leaves_trace :
    let s := fresh "sess_0" .standard
    let es := overflowing.map Prod.fst
    Json.IsNumber "1e999".toList ∧ Json.Valid "1e999" ∧
      kept overflowing = [.opened, .frame "\x7b\"type\":\"id\",\"id\":5\x7d"] ∧
      ((s.run es).filterMap (·.published)).length = 3 ∧
      ((s.run (kept overflowing)).filterMap (·.published)).length = 2 ∧
      (s.after es).state.flagged = some (.number 5) ∧
      (s.after (kept overflowing)).state.flagged = none := by
  have hnumber : Json.IsNumber "1e999".toList := by
    refine ⟨[], ['1'], [], ['e', '9', '9', '9'], by decide, .inl rfl, ?_, .none, ?_⟩
    · simp [Json.IsWhole, Json.IsDigits]
    · exact .digits (.inl rfl) (.inl rfl) (by simp [Json.IsDigits])
  refine ⟨hnumber, .number hnumber, by decide, ?_, ?_, ?_, ?_⟩
  · decide +kernel
  · decide +kernel
  · decide +kernel
  · decide +kernel

end Session
end TreeJudge

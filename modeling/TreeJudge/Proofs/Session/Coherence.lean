import TreeJudge.Proofs.Session.Step
import TreeJudge.Proofs.Wire.Uncolored

/-!
# The published snapshot is the current one

Some events publish and some do not. Those that publish show the session as it
then is, and those that do not change nothing that a snapshot shows, so the last
published snapshot is never behind. Colors stand in snapshots alone: the stored
tree has none.
-/

set_option autoImplicit false

namespace TreeJudge

theorem Channel.tornDown_after (c : Channel) (e : Event) :
    (c.after e).tornDown = true ↔ c.tornDown = true ∨ e = .teardown := by
  cases e with
  | opened => cases hp : c.phase <;> simp [after, opening, hp]
  | closed r => simp [after, tornDown_close]
  | teardown => cases ht : c.tornDown <;> simp [after, teardown, ht, tornDown_close]
  | _ => simp [after]

namespace Session

def Silent (s : Session) : Event → Prop
  | .opened => s.channel.phase ≠ .connecting
  | .teardown => s.channel.tornDown = true
  | .frame text =>
    s.channel.phase = .closed ∨ ∃ kind, Inbound.decode text = .ok (.unrecognized kind)
  | .drain => True
  | .closed _ | .judge _ => False

theorem published_frame (s : Session) (text : String) :
    (s.step (.frame text)).published = none ↔ s.Silent (.frame text) := by
  by_cases hc : s.channel.phase = .closed
  · simp [step, receive, Update.map, Channel.acceptsFrames, hc, Silent, quiet]
  · have ha : s.channel.acceptsFrames = true := by simpa [Channel.acceptsFrames] using hc
    simp only [step, receive, Update.map, ha, if_true, Silent, hc, false_or]
    cases hd : Inbound.decode text with
    | error f => simp [publish]
    | ok i => cases i <;> simp [publish, quiet]

theorem published_eq_none_iff (s : Session) (e : Event) :
    (s.step e).published = none ↔ s.Silent e := by
  cases e with
  | opened =>
    cases hp : s.channel.phase <;>
      simp [step, opened, Update.map, Channel.opening, hp, publish, quiet, Silent]
  | closed r => simp [step, closed, Update.map, publish, Silent]
  | teardown =>
    cases ht : s.channel.tornDown <;>
      simp [step, teardown, Update.map, Channel.teardown, ht, publish, quiet, Silent]
  | frame text => exact s.published_frame text
  | judge a => simp [step, judge, Update.map, publish, Silent]
  | drain => simp [step, drain, Update.map, quiet, Silent]

def Shows {α : Type} (u : Update α) : Prop := ∀ v, u.published = some v → v = u.session.view

theorem shows_publish {α : Type} (s : Session) (a : α) : Shows (s.publish a) := by
  intro v h
  cases h
  rfl

theorem shows_quiet {α : Type} (s : Session) (a : α) : Shows (s.quiet a) := by
  intro v h
  cases h

theorem shows_receive (s : Session) (text : String) : Shows (s.receive text) := by
  unfold receive
  split
  · split
    · exact shows_publish _ _
    · exact shows_publish _ _
    · exact shows_publish _ _
    · exact shows_quiet _ _
    · exact shows_publish _ _
  · exact shows_quiet _ _

theorem shows_step (s : Session) (e : Event) : Shows (s.step e) := by
  cases e with
  | opened =>
    change Shows s.opened
    unfold opened
    split
    · exact shows_publish _ _
    · exact shows_quiet _ _
  | closed r => exact shows_publish { s with channel := s.channel.close r } ()
  | teardown =>
    change Shows s.teardown
    unfold teardown
    split
    · exact shows_publish _ _
    · exact shows_quiet _ _
  | frame text => exact shows_receive s text
  | judge a => exact shows_publish _ (Judgment.of a s.state s.channel)
  | drain => exact shows_quiet { s with outbox := [] } s.outbox

/-- A silent event changes at most what waits for the wire. -/
theorem silent_step (s : Session) (e : Event) (h : (s.step e).published = none) :
    (s.step e).session = { s with outbox := s.waiting e } := by
  have hs := (s.published_eq_none_iff e).mp h
  have hstate : s.heard e = s.state := by
    cases e with
    | frame text =>
      rcases hs with hc | ⟨kind, hd⟩
      · simp [heard, note?, hc]
      · simp [heard, note?, Note.ofFrame?, hd]
    | judge a => exact hs.elim
    | _ => rfl
  have hchannel : s.channel.after e = s.channel := by
    cases e with
    | opened => cases hp : s.channel.phase <;> simp_all [Silent, Channel.after, Channel.opening]
    | closed r => exact hs.elim
    | teardown => simp_all [Silent, Channel.after, Channel.teardown]
    | _ => rfl
  rw [session_step, h, hstate, hchannel]
  rfl

/-- The last published snapshot is the view of the session, and the stored tree
has no colors. -/
structure Coherent (s : Session) : Prop where
  snapshot : s.snapshot = s.view
  uncolored : ∀ t, s.state.tree = some t → t.Uncolored

theorem coherent_fresh (id : String) (options : SessionOptions) :
    (fresh id options).Coherent where
  snapshot := rfl
  uncolored t h := by cases h

theorem decode_of_note_tree {s : Session} {e : Event} {t : ExecutionTree}
    (h : s.note? e = some (.tree t)) : ∃ text, Inbound.decode text = .ok (.tree t) := by
  cases e with
  | frame text =>
    simp only [note?] at h
    split at h
    · cases h
    · unfold Note.ofFrame? at h
      split at h <;> cases h
      exact ⟨text, ‹_›⟩
  | judge a => cases a <;> cases hf : s.state.focus <;> simp [note?, Note.ofAnswer?, hf] at h
  | _ => cases h

theorem uncolored_heard {s : Session} (hs : ∀ t, s.state.tree = some t → t.Uncolored)
    (e : Event) : ∀ t, (s.heard e).tree = some t → t.Uncolored := by
  intro t ht
  unfold heard at ht
  split at ht
  · next n hn =>
    cases n with
    | tree t' =>
      cases ht
      obtain ⟨text, hd⟩ := decode_of_note_tree hn
      exact Inbound.decode_uncolored hd
    | _ => exact hs t ht
  · exact hs t ht

theorem snapshot_of_published {s : Session} {e : Event} (h : (s.step e).published ≠ none) :
    (s.step e).session.snapshot = (s.step e).session.view := by
  obtain ⟨v, hv⟩ := Option.ne_none_iff_exists'.mp h
  rw [snapshot_step, hv]
  exact shows_step s e v hv

theorem snapshot_eq_view_step {s : Session} (h : s.snapshot = s.view) (e : Event) :
    (s.step e).session.snapshot = (s.step e).session.view := by
  by_cases hp : (s.step e).published = none
  · rw [snapshot_step, silent_step s e hp, hp]
    exact h
  · exact snapshot_of_published hp

theorem snapshot_eq_view_after {s : Session} (h : s.snapshot = s.view) (es : List Event) :
    (s.after es).snapshot = (s.after es).view := by
  induction es generalizing s with
  | nil => exact h
  | cons e es ih => exact ih (snapshot_eq_view_step h e)

theorem coherent_step {s : Session} (h : s.Coherent) (e : Event) :
    (s.step e).session.Coherent where
  snapshot := snapshot_eq_view_step h.snapshot e
  uncolored := by
    rw [state_step]
    exact uncolored_heard h.uncolored e

theorem snapshot_after (s : Session) (es : List Event) :
    (s.after es).snapshot = ((s.run es).filterMap (·.published)).getLast?.getD s.snapshot := by
  induction es generalizing s with
  | nil => rfl
  | cons e es ih =>
    rw [after_cons, ih, snapshot_step, run, List.filterMap_cons]
    cases (s.step e).published with
    | none => rfl
    | some v =>
      rw [List.getLast?_cons]
      cases ((run (s.step e).session es).filterMap (·.published)).getLast? <;> rfl

theorem tornDown_after (s : Session) (es : List Event) :
    (s.after es).channel.tornDown = true ↔ s.channel.tornDown = true ∨ Event.teardown ∈ es := by
  induction es generalizing s with
  | nil => simp [after]
  | cons e es ih =>
    rw [after_cons, ih, channel_step, Channel.tornDown_after, List.mem_cons, or_assoc,
      eq_comm (a := e)]

theorem coherent_after {s : Session} (h : s.Coherent) (es : List Event) :
    (s.after es).Coherent := by
  induction es generalizing s with
  | nil => exact h
  | cons e es ih => exact ih (coherent_step h e)

/-- Whatever has happened, the snapshot that was published last shows the session
as it is, in each of its parts; and the events that publish nothing, which are the
silent ones, change none of the parts that it shows. -/
theorem last_snapshot_is_current (id : String) (options : SessionOptions) (es : List Event) :
    let s := (fresh id options).after es
    s.snapshot =
        (((fresh id options).run es).filterMap (·.published)).getLast?.getD
          (fresh id options).snapshot ∧
      s.snapshot = Snapshot.of id s.state s.channel options.palette ∧
      (∀ t, s.state.tree = some t → ∀ n ∈ t.nodes, n.color = none) ∧
      s.snapshot.tree.map ExecutionTree.plain = s.state.tree ∧
      s.snapshot.focus = s.state.focus ∧
      s.snapshot.flagged = s.state.flagged ∧
      s.snapshot.confirmed = s.state.confirmed ∧
      s.snapshot.fault = s.state.fault ∧
      s.snapshot.output = s.state.output ∧
      s.snapshot.channel = s.channel.phase ∧
      (s.channel.tornDown = true ↔ Event.teardown ∈ es) ∧
      ∀ e, ((s.step e).published = none ↔ s.Silent e) ∧
        ((s.step e).published = none →
          (s.step e).session = { s with outbox := (s.step e).session.outbox }) := by
  intro s
  have h : s.Coherent := coherent_after (coherent_fresh id options) es
  have hid : s.id = id := id_after _ es
  have hoptions : s.options = options := options_after _ es
  have hview : s.snapshot = Snapshot.of id s.state s.channel options.palette := by
    rw [h.snapshot, view, hid, hoptions]
  have htree : s.snapshot.tree.map ExecutionTree.plain = s.state.tree := by
    rw [hview]
    cases ht : s.state.tree with
    | none => simp [Snapshot.of, ht]
    | some t =>
      simp [Snapshot.of, ht, annotate_plain, ExecutionTree.plain_of_uncolored (h.uncolored t ht)]
  refine ⟨snapshot_after _ es, hview, h.uncolored, htree, ?_⟩
  refine ⟨by rw [hview]; rfl, by rw [hview]; rfl, by rw [hview]; rfl, by rw [hview]; rfl,
    by rw [hview]; rfl, by rw [hview]; rfl, ?_, ?_⟩
  · refine (tornDown_after (fresh id options) es).trans ?_
    simp [fresh, Channel.fresh]
  · intro e
    refine ⟨s.published_eq_none_iff e, fun hp => ?_⟩
    rw [outbox_step, silent_step s e hp]

def coloredThenUnknown : List Event :=
  [.opened,
    .frame ("\x7b\"type\":\"tree\",\"tree\":\x7b\"nodes\":[\x7b\"id\":1,\"color\":" ++
      "\x7b\"background\":\"red\",\"border\":\"red\"\x7d\x7d]\x7d\x7d"),
    .frame "\x7b\"type\":\"heartbeat\"\x7d"]

theorem colored_then_unknown_is_current :
    let s := (fresh "sess_0" .standard).after coloredThenUnknown
    s.state.tree = some ⟨[⟨.number 1, "", "", none⟩], []⟩ ∧
      s.snapshot.tree.map ExecutionTree.plain = s.state.tree ∧
      (s.step .drain).published = none ∧
      (s.step .drain).session = { s with outbox := (s.step .drain).session.outbox } := by
  have h := last_snapshot_is_current "sess_0" .standard coloredThenUnknown
  have htree : ((fresh "sess_0" .standard).after coloredThenUnknown).state.tree =
      some ⟨[⟨.number 1, "", "", none⟩], []⟩ := by decide +kernel
  -- what is left holds of any session with these facts, so the run is not opened again
  generalize (fresh "sess_0" .standard).after coloredThenUnknown = s at h htree ⊢
  obtain ⟨-, -, -, hplain, -, -, -, -, -, -, -, hevents⟩ := h
  have hsilent : (s.step .drain).published = none := rfl
  exact ⟨htree, hplain, hsilent, (hevents .drain).2 hsilent⟩

end Session
end TreeJudge

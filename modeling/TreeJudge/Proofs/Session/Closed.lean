import TreeJudge.Proofs.Session.Step

/-!
# A closed session

Once the channel has closed, the peer is not heard any more and nothing goes out
to it. The operator may still answer, but only about the focus that the session
closed with, so all that a closed session can still take in is one confirmation
and one flag.
-/

set_option autoImplicit false

namespace TreeJudge

theorem Channel.after_of_closed {c : Channel} (h : c.phase = .closed) (e : Event) :
    c.after e = { c with tornDown := (c.after e).tornDown } := by
  obtain ⟨phase, reason, tornDown⟩ := c
  obtain rfl : phase = .closed := h
  cases e with
  | teardown => cases tornDown <;> rfl
  | _ => rfl

/-- The state with answers recorded to the focus that it holds: a Yes, a No, both
or none. -/
def SessionState.answered (s : SessionState) (yes no : Bool) : SessionState :=
  { s with
    confirmed := if yes then s.focus.elim s.confirmed s.confirmed.insert else s.confirmed
    flagged := if no then s.focus.or s.flagged else s.flagged }

namespace SessionState
variable (s : SessionState)

theorem answered_none : s.answered false false = s := rfl

theorem answered_answered (yes no yes' no' : Bool) :
    (s.answered yes no).answered yes' no' = s.answered (yes || yes') (no || no') := by
  cases hf : s.focus <;> cases yes <;> cases no <;> cases yes' <;> cases no' <;>
    simp [answered, hf, IdSet.insert_insert]

end SessionState

namespace Session
variable {s : Session}

theorem heard_of_closed (h : s.channel.phase = .closed) (e : Event) :
    s.heard e = s.state.answered (e = .judge .yes) (e = .judge .no) := by
  cases e with
  | frame text => simp [heard, note?, h, SessionState.answered]
  | judge a =>
    simp only [heard, note?]
    obtain ⟨tree, focus, flagged, confirmed, fault, output⟩ := s.state
    cases a <;> cases focus <;>
      simp [Note.ofAnswer?, SessionState.noted, SessionState.answered]
  | _ => simp [heard, note?, SessionState.answered]

theorem waiting_of_closed (h : s.channel.phase = .closed) (e : Event) :
    s.waiting e = if e = .drain then [] else s.outbox := by
  cases e with
  | judge a => simp [waiting, Judgment.frames_of, h]
  | _ => simp [waiting]

theorem result_of_closed (h : s.channel.phase = .closed) :
    (∀ text, (s.step (.frame text)).result = .frame .discarded ∧
      (s.step (.frame text)).published = none) ∧
    ∀ a, ∃ j, (s.step (.judge a)).result = .judged j ∧ j.delivery ≠ .sent := by
  constructor
  · intro text
    simp [step, receive, Update.map, Channel.acceptsFrames, h, quiet]
  · intro a
    refine ⟨Judgment.of a s.state s.channel, rfl, ?_⟩
    cases hf : s.state.focus <;> simp [Judgment.of, Judgment.delivery?, Channel.isOpen, h, hf]

theorem closed_after (h : s.channel.phase = .closed) (es : List Event) :
    (s.after es).channel.phase = .closed ∧
      (s.after es).channel.reason = s.channel.reason := by
  induction es generalizing s with
  | nil => exact ⟨h, rfl⟩
  | cons e es ih =>
    have hstep := s.channel.after_of_closed h e
    have hphase : (s.step e).session.channel.phase = .closed := by
      rw [channel_step, hstep]
      exact h
    have hreason : (s.step e).session.channel.reason = s.channel.reason := by
      rw [channel_step, hstep]
    rw [after_cons]
    exact ⟨(ih hphase).1, (ih hphase).2.trans hreason⟩

theorem state_after_closed (h : s.channel.phase = .closed) (es : List Event) :
    (s.after es).state = s.state.answered (.judge .yes ∈ es) (.judge .no ∈ es) := by
  induction es generalizing s with
  | nil => simp [after, SessionState.answered_none]
  | cons e es ih =>
    have hphase : (s.step e).session.channel.phase = .closed := (closed_after h [e]).1
    rw [after_cons, ih hphase, state_step, heard_of_closed h, SessionState.answered_answered]
    congr 1 <;> simp [eq_comm]

theorem outbox_after_closed (h : s.channel.phase = .closed) (es : List Event) :
    (s.after es).outbox = if .drain ∈ es then [] else s.outbox := by
  induction es generalizing s with
  | nil => rfl
  | cons e es ih =>
    have hphase : (s.step e).session.channel.phase = .closed := (closed_after h [e]).1
    rw [after_cons, ih hphase, outbox_step, waiting_of_closed h]
    by_cases he : e = .drain
    · simp [he]
    · simp [he, Ne.symm he]

/-- Whatever happens after the channel has closed, what the peer has said stays, the
channel stays closed for its reason, frames are discarded without a snapshot and
nothing is sent. A Yes adds the focus of the closed session to what it has
confirmed, a No moves its flag there, and that is all. -/
theorem closed_is_frozen (s : Session) (h : s.channel.phase = .closed) (es : List Event) :
    let later := s.after es
    later.state.tree = s.state.tree ∧
      later.state.focus = s.state.focus ∧
      later.state.fault = s.state.fault ∧
      later.state.output = s.state.output ∧
      later.channel.phase = .closed ∧
      later.channel.reason = s.channel.reason ∧
      later.state.confirmed =
        (if .judge .yes ∈ es then s.state.focus.elim s.state.confirmed s.state.confirmed.insert
        else s.state.confirmed) ∧
      later.state.flagged =
        (if .judge .no ∈ es then s.state.focus.or s.state.flagged else s.state.flagged) ∧
      later.outbox = (if .drain ∈ es then [] else s.outbox) ∧
      ∀ p ∈ es.zip (s.run es),
        (∀ text, p.1 = .frame text → p.2.result = .frame .discarded ∧ p.2.published = none) ∧
        (∀ a, p.1 = .judge a → ∃ j, p.2.result = .judged j ∧ j.delivery ≠ .sent) := by
  intro later
  have hstate : later.state = s.state.answered (.judge .yes ∈ es) (.judge .no ∈ es) :=
    state_after_closed h es
  obtain ⟨hphase, hreason⟩ := closed_after h es
  rw [hstate]
  refine ⟨rfl, rfl, rfl, rfl, hphase, hreason, ?_, ?_, outbox_after_closed h es, ?_⟩
  · simp [SessionState.answered]
  · simp [SessionState.answered]
  · intro p hp
    obtain ⟨before, rest, -, hstep⟩ := step_of_mem_run hp
    obtain ⟨hframe, hjudge⟩ := result_of_closed (closed_after h before).1
    constructor
    · intro text he
      rw [hstep, he]
      exact hframe text
    · intro a he
      rw [hstep, he]
      exact hjudge a

def closedEarly : List Event :=
  [.opened, .frame "\x7b\"type\":\"id\",\"id\":5\x7d", .judge .no, .closed (.failure "reset")]

def afterwards : List Event :=
  [.opened, .frame "\x7b\"type\":\"id\",\"id\":6\x7d", .frame "not-json", .judge .yes, .teardown,
    .closed .remote, .judge .no]

theorem closed_early_is_frozen :
    let s := (fresh "sess_0" .standard).after closedEarly
    s.channel.phase = .closed ∧
      (s.after afterwards).state.focus = some (.number 5) ∧
      (s.after afterwards).state.fault = none ∧
      (s.after afterwards).state.confirmed = .ofList [.number 5] ∧
      (s.after afterwards).channel.reason = some (.failure "reset") ∧
      (s.after afterwards).outbox = ["\"No\""] := by
  have hclosed : ((fresh "sess_0" .standard).after closedEarly).channel.phase = .closed := by
    decide +kernel
  have hfacts : ((fresh "sess_0" .standard).after closedEarly).state.focus = some (.number 5) ∧
      ((fresh "sess_0" .standard).after closedEarly).state.fault = none ∧
      ((fresh "sess_0" .standard).after closedEarly).state.confirmed = .empty ∧
      ((fresh "sess_0" .standard).after closedEarly).channel.reason = some (.failure "reset") ∧
      ((fresh "sess_0" .standard).after closedEarly).outbox = ["\"No\""] := by
    decide +kernel
  have hyes : Event.judge .yes ∈ afterwards := by decide
  have hdrain : Event.drain ∉ afterwards := by decide
  -- what is left holds of any session with these facts, so the run is not opened again
  generalize (fresh "sess_0" .standard).after closedEarly = s at hclosed hfacts ⊢
  obtain ⟨hfocus, hfault, hconfirmed, hreason, houtbox⟩ := hfacts
  obtain ⟨-, hfocus', hfault', -, -, hreason', hconfirmed', -, houtbox', -⟩ :=
    closed_is_frozen s hclosed afterwards
  rw [if_pos hyes, hfocus, hconfirmed] at hconfirmed'
  rw [if_neg hdrain] at houtbox'
  exact ⟨hclosed, hfocus'.trans hfocus, hfault'.trans hfault, hconfirmed',
    hreason'.trans hreason, houtbox'.trans houtbox⟩

end Session
end TreeJudge

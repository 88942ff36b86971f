import TreeJudge.Connection.Relay
import TreeJudge.Proofs.Session.Step

/-!
# What a relay delivers

Between two turns of a relay nothing waits for the wire, and arrivals are taken
exactly while the channel is open. From this follows what the peer gets: the
answers that were given on an open channel to a focus, each once and in order.
-/

set_option autoImplicit false

namespace TreeJudge
namespace Turn

def events : Turn → List Event
  | .arrival (.text frame) => [.frame frame, .drain]
  | .arrival .close | .arrival .ended => [.closed .remote, .drain]
  | .arrival (.failed why) => [.closed (.failure why), .drain]
  | .arrival .binary | .arrival .ping | .arrival .pong => [.drain]
  | .command (.feedback a) => [.judge a, .drain]
  | .command (.view _) | .command .quit => [.drain]

def ending? : Turn → Option CloseReason
  | .arrival .close | .arrival .ended => some .remote
  | .arrival (.failed why) => some (.failure why)
  | _ => none

def view? : Turn → Option View
  | .command (.view v) => some v
  | _ => none

def goesOn (t : Turn) : Bool := t != .command .quit

end Turn

namespace Relay

def takes (r : Relay) : Turn → Bool
  | .arrival _ => r.live
  | .command _ => true

theorem session_turn (r : Relay) (t : Turn) :
    (r.turn t).session = r.session.after (if r.takes t then t.events else []) := by
  cases t with
  | arrival a =>
    cases hl : r.live with
    | false => simp [turn, takes, hl, Session.after]
    | true => cases a <;> simp only [turn, takes, hl, if_true] <;> rfl
  | command c => cases c <;> rfl

theorem live_turn (r : Relay) (t : Turn) :
    (r.turn t).live = (r.live && t.ending?.isNone) := by
  cases t with
  | arrival a =>
    cases hl : r.live <;> cases a <;> simp [turn, take, closing, flush, hl, Turn.ending?]
  | command c => cases c <;> simp [turn, obey, flush, Turn.ending?]

theorem views_turn (r : Relay) (t : Turn) : (r.turn t).views = r.views ++ t.view?.toList := by
  cases t with
  | arrival a =>
    cases hl : r.live <;> cases a <;> simp [turn, take, closing, flush, hl, Turn.view?]
  | command c => cases c <;> simp [turn, obey, flush, Turn.view?]

theorem channel_turn (r : Relay) (t : Turn) :
    (r.turn t).session.channel =
      match t.ending? with
      | some why => if r.live then r.session.channel.close why else r.session.channel
      | none => r.session.channel := by
  rw [session_turn, Session.channel_after]
  cases t with
  | arrival a =>
    cases hl : r.live <;> cases a <;>
      simp [takes, hl, Turn.events, Turn.ending?, Channel.after]
  | command c => cases c <;> rfl

/-- How a relay stands between two turns. -/
structure Settled (r : Relay) : Prop where
  outbox : r.session.outbox = []
  phase : r.session.channel.phase = if r.live then .opened else .closed
  reason : r.session.channel.reason.isSome = !r.live
  tornDown : r.session.channel.tornDown = false

theorem settled_start (id : String) (options : SessionOptions) :
    (start (.fresh id options)).Settled where
  outbox := rfl
  phase := rfl
  reason := rfl
  tornDown := rfl

theorem outbox_turn {r : Relay} (h : r.session.outbox = []) (t : Turn) :
    (r.turn t).session.outbox = [] := by
  cases t with
  | arrival a =>
    cases hl : r.live with
    | false => simpa [turn, hl] using h
    | true => simp [turn, hl, flush, Session.drain, Session.quiet]
  | command c => rfl

theorem Settled.channel_cases {r : Relay} (h : r.Settled) :
    r.live = true ∧ r.session.channel = ⟨.opened, none, false⟩ ∨
      r.live = false ∧ ∃ first, r.session.channel = ⟨.closed, some first, false⟩ := by
  obtain ⟨-, hphase, hreason, htorn⟩ := h
  generalize r.session.channel = c at hphase hreason htorn ⊢
  obtain ⟨phase, reason, tornDown⟩ := c
  cases htorn
  cases hl : r.live with
  | true =>
    rw [hl] at hphase hreason
    cases hphase
    have hnone : reason = none := by simpa using hreason
    exact .inl ⟨rfl, by rw [hnone]⟩
  | false =>
    rw [hl] at hphase hreason
    cases hphase
    obtain ⟨first, hfirst⟩ := Option.isSome_iff_exists.mp hreason
    cases hfirst
    exact .inr ⟨rfl, first, rfl⟩

theorem reason_turn {r : Relay} (h : r.Settled) (t : Turn) :
    (r.turn t).session.channel.reason = r.session.channel.reason.or t.ending? := by
  rw [channel_turn]
  rcases h.channel_cases with ⟨hl, hc⟩ | ⟨hl, first, hc⟩
  · cases t.ending? <;> simp [hl, hc, Channel.close]
  · cases t.ending? <;> simp [hl, hc]

theorem settled_turn {r : Relay} (h : r.Settled) (t : Turn) : (r.turn t).Settled where
  outbox := outbox_turn h.outbox t
  phase := by
    rw [channel_turn, live_turn]
    rcases h.channel_cases with ⟨hl, hc⟩ | ⟨hl, first, hc⟩
    · cases t.ending? <;> simp [hl, hc, Channel.close]
    · cases t.ending? <;> simp [hl, hc]
  reason := by
    rw [reason_turn h, live_turn]
    rcases h.channel_cases with ⟨hl, hc⟩ | ⟨hl, first, hc⟩
    · cases t.ending? <;> simp [hl, hc]
    · simp [hl, hc]
  tornDown := by
    rw [channel_turn]
    cases t.ending? with
    | none => exact h.tornDown
    | some why => cases r.live <;> simp [Channel.tornDown_close, h.tornDown]

theorem run_cons (r : Relay) (t : Turn) (ts : List Turn) :
    r.run (t :: ts) = if t.goesOn then (r.turn t).run ts else r := by
  cases t with
  | arrival a => rfl
  | command c => cases c <;> rfl

theorem settled_run {r : Relay} (h : r.Settled) (ts : List Turn) : (r.run ts).Settled := by
  induction ts generalizing r with
  | nil => exact h
  | cons t ts ih =>
    rw [run_cons]
    split
    · exact ih (settled_turn h t)
    · exact h

theorem reason_run {r : Relay} (h : r.Settled) (ts : List Turn) :
    (r.run ts).session.channel.reason =
      r.session.channel.reason.or ((ts.takeWhile Turn.goesOn).filterMap Turn.ending?).head? := by
  induction ts generalizing r with
  | nil => simp [run]
  | cons t ts ih =>
    rw [run_cons, List.takeWhile_cons]
    split
    · rw [ih (settled_turn h t), reason_turn h, Option.or_assoc, List.filterMap_cons]
      cases t.ending? <;> rfl
    · simp

theorem views_run (r : Relay) (ts : List Turn) :
    (r.run ts).views = r.views ++ (ts.takeWhile Turn.goesOn).filterMap Turn.view? := by
  induction ts generalizing r with
  | nil => simp [run]
  | cons t ts ih =>
    rw [run_cons, List.takeWhile_cons]
    split
    · rw [ih, views_turn, List.filterMap_cons]
      cases t.view? <;> simp
    · simp

def handled (r : Relay) : List Turn → List (Relay × Turn)
  | [] => []
  | t :: ts => if t.goesOn then (r, t) :: handled (r.turn t) ts else []

/-- The frame that the peer is owed for a turn: an answer given while the channel
was open and a node was in focus. -/
def owed? : Relay × Turn → Option String
  | (r, .command (.feedback a)) =>
    if r.session.channel.phase = .opened ∧ r.session.state.focus.isSome then some a.encode
    else none
  | _ => none

theorem wire_turn {r : Relay} (h : r.session.outbox = []) (t : Turn) :
    (r.turn t).wire = r.wire ++ (owed? (r, t)).toList := by
  cases t with
  | arrival a =>
    cases hl : r.live with
    | false => simp [turn, hl, owed?]
    | true =>
      have hquiet : (r.take a).session.outbox = [] := by
        cases a with
        | text frame => simp [take, Session.receive_session, h]
        | _ => exact h
      have hwire : (r.take a).wire = r.wire := by cases a <;> rfl
      simp [turn, hl, flush, Session.drain, Session.quiet, owed?, hquiet, hwire]
  | command c =>
    cases c with
    | feedback a =>
      have hwaits : (r.session.judge a).session.outbox =
          (Judgment.of a r.session.state r.session.channel).frames := by
        simp [Session.judge_session, Session.waiting, h]
      simp only [turn, obey, flush, Session.drain, Session.quiet, owed?, hwaits,
        Judgment.frames_of]
      split <;> rfl
    | _ => simp [turn, obey, flush, Session.drain, Session.quiet, owed?, h]

theorem wire_run {r : Relay} (h : r.session.outbox = []) (ts : List Turn) :
    (r.run ts).wire = r.wire ++ (r.handled ts).filterMap owed? := by
  induction ts generalizing r with
  | nil => simp [run, handled]
  | cons t ts ih =>
    rw [run_cons, handled]
    split
    · rw [ih (outbox_turn h t), wire_turn h, List.filterMap_cons]
      cases owed? (r, t) <;> simp
    · simp

theorem channel_finish {r : Relay} (h : r.Settled) :
    r.finish.session.channel =
      ⟨.closed, some (r.session.channel.reason.getD .teardown), true⟩ := by
  have hstep : r.finish.session.channel = r.session.channel.teardown.2 :=
    r.session.channel_step .teardown
  rw [hstep]
  rcases h.channel_cases with ⟨-, hc⟩ | ⟨-, first, hc⟩ <;>
    simp [hc, Channel.teardown, Channel.close]

/-- Once connected, a session on a new channel delivers for every order of turns:
the wire has the answers that were given on an open channel to a focus, each once
and in order; no frame is left waiting after any turn; the views are those that
were asked for. It ends well, closed for the first reason that came up, and its
socket need not be closed again. -/
theorem delivers_owed_answers (connect : String → Except String Unit) (url id : String)
    (options : SessionOptions) (turns : List Turn) (hc : connect url = .ok ()) :
    let begun := start (.fresh id options)
    let finished := runSession connect url (.fresh id options) turns
    let before := turns.takeWhile Turn.goesOn
    Answer.yes.encode = "\"Yes\"" ∧ Answer.no.encode = "\"No\"" ∧
      finished.wire = (begun.handled turns).filterMap owed? ∧
      (∀ k, (begun.run (turns.take k)).session.outbox = []) ∧
      finished.session.outbox = [] ∧
      finished.views = before.filterMap Turn.view? ∧
      finished.failure = none ∧
      finished.session.channel.phase = .closed ∧
      finished.session.channel.reason =
        some ((before.filterMap Turn.ending?).head?.getD .teardown) ∧
      finished.session.teardown.result = false := by
  intro begun finished before
  have hbegun : begun.Settled := settled_start id options
  have hrun : (begun.run turns).Settled := settled_run hbegun turns
  have hfinished : finished =
      ⟨(begun.run turns).finish.session, (begun.run turns).wire, (begun.run turns).views,
        none⟩ := by
    simp only [finished, runSession, hc]
    rfl
  have hchannel : finished.session.channel =
      ⟨.closed, some ((before.filterMap Turn.ending?).head?.getD .teardown), true⟩ := by
    rw [hfinished, channel_finish hrun, reason_run hbegun]
    rfl
  refine ⟨Answer.encode_yes, Answer.encode_no, ?_, ?_, ?_, ?_, ?_, ?_, ?_, ?_⟩
  · rw [hfinished]
    exact wire_run hbegun.outbox turns
  · intro k
    exact (settled_run hbegun (turns.take k)).outbox
  · rw [hfinished]
    exact ((begun.run turns).session.outbox_step .teardown).trans hrun.outbox
  · rw [hfinished]
    exact views_run begun turns
  · rw [hfinished]
  · rw [hchannel]
  · rw [hchannel]
  · rw [Session.teardown_result, hchannel]
    rfl

def oneAnswerOfThree : List Turn :=
  [.command (.feedback .no), .arrival (.text "\x7b\"type\":\"id\",\"id\":5\x7d"), .arrival .ping,
    .command (.feedback .yes), .command (.view .tree), .arrival .close,
    .command (.feedback .no), .command .quit, .command (.feedback .yes)]

def reaching (there url : String) : Except String Unit :=
  if url = there then .ok () else .error "IO error: Connection refused (os error 111)"

theorem delivers_one_of_three :
    let here := "ws://127.0.0.1:1/"
    let finished := runSession (reaching here) here (.fresh "sess_0" .standard) oneAnswerOfThree
    reaching here here = .ok () ∧
      finished.wire = ["\"Yes\""] ∧
      finished.views = [.tree] ∧
      finished.session.channel.reason = some .remote := by
  intro here
  have hc : reaching here here = .ok () := if_pos rfl
  obtain ⟨-, -, hwire, -, -, hviews, -, -, hreason, -⟩ :=
    delivers_owed_answers (reaching here) here "sess_0" .standard oneAnswerOfThree hc
  refine ⟨hc, ?_, ?_, ?_⟩
  · exact hwire.trans (by decide +kernel)
  · exact hviews.trans (by decide +kernel)
  · exact hreason.trans (by decide +kernel)

end Relay
end TreeJudge

import TreeJudge.Proofs.Session.Ledger

/-!
# Questions and the answers to them

Answers carry no name of their question, so peer and operator agree on what was
answered only as long as they count alike. No answer is sent before the first
question. After that a question may be answered again, and the second answer is sent
as well: there are never more answers than questions and repeated answers together.
-/

set_option autoImplicit false

namespace TreeJudge
namespace Update

def asked? (u : Update Outcome) : Option NodeId :=
  match u.result with
  | .frame (.focusChanged id) => some id
  | _ => none

def asks (u : Update Outcome) : Bool := u.asked?.isSome

def sends (u : Update Outcome) : Bool :=
  match u.result with
  | .judged j => j.delivery = .sent
  | _ => false

/-- How many answers are sent while the question is already answered. -/
def repeats (answered : Bool) : List (Update Outcome) → Nat
  | [] => 0
  | u :: us =>
    if u.asks then repeats false us
    else if u.sends then answered.toNat + repeats true us
    else repeats answered us

end Update

namespace Session
open Update

theorem asked?_step (s : Session) (e : Event) :
    (s.step e).asked? = (s.note? e).bind Note.focus? := by
  cases e with
  | frame text =>
    by_cases hc : s.channel.phase = .closed
    · simp [step, receive, Update.map, Channel.acceptsFrames, hc, quiet, asked?, note?]
    · have ha : s.channel.acceptsFrames = true := by simpa [Channel.acceptsFrames] using hc
      simp only [step, receive, Update.map, ha, if_true, note?, hc, if_false, Note.ofFrame?]
      cases hd : Inbound.decode text with
      | error f => simp [publish, asked?, Note.focus?]
      | ok i => cases i <;> simp [publish, quiet, asked?, Note.focus?]
  | judge a => cases a <;> cases hf : s.state.focus <;>
      simp [step, Update.map, asked?, note?, Note.ofAnswer?, Note.focus?, hf]
  | _ => rfl

theorem asks_step (s : Session) (e : Event) : (s.step e).asks = true ↔ s.Asks e := by
  rw [asks, asked?_step, isSome_note_focus]

theorem focus_after_run (s : Session) (es : List Event) :
    (s.after es).state.focus = ((s.run es).filterMap asked?).getLast?.or s.state.focus := by
  induction es generalizing s with
  | nil => rfl
  | cons e es ih =>
    rw [after_cons, ih, focus_eq_step, ← asked?_step, run, List.filterMap_cons]
    cases (s.step e).asked? with
    | none => rfl
    | some id =>
      rw [List.getLast?_cons]
      cases (((s.step e).session.run es).filterMap asked?).getLast? <;> rfl

theorem judged_of_sends {s : Session} {e : Event} (h : (s.step e).sends = true) :
    ∃ j held, (s.step e).result = .judged j ∧ j.judged = some held ∧
      s.state.focus = some held := by
  cases e with
  | judge a =>
    cases hf : s.state.focus with
    | none =>
      simp [step, Update.map, judge, publish, sends, Judgment.of, Judgment.delivery?, hf] at h
    | some held => exact ⟨Judgment.of a s.state s.channel, held, rfl, hf, rfl⟩
  | _ => simp [step, Update.map, sends] at h

theorem focus_of_sends {s : Session} {e : Event} (h : (s.step e).sends = true) :
    s.state.focus.isSome ∧ (s.step e).asks = false := by
  obtain ⟨j, held, hresult, -, hf⟩ := judged_of_sends h
  exact ⟨by rw [hf]; rfl, by simp only [asks, asked?, hresult, Option.isSome_none]⟩

theorem asked_iff (s : Session) (es : List Event) :
    s.Asked es ↔ ∃ u ∈ s.run es, u.asks = true := by
  induction es generalizing s with
  | nil => simp [asked_nil, run]
  | cons e es ih => simp [asked_cons, ih, run, asks_step]

/-- The focus of a question that is not answered yet is good for one answer; besides
that, every answer needs a question or repeats one. -/
theorem answers_run (s : Session) (answered : Bool) (es : List Event) :
    (s.run es).countP sends ≤
      (s.run es).countP asks + repeats answered (s.run es) +
        (s.state.focus.isSome && !answered).toNat := by
  induction es generalizing s answered with
  | nil => exact Nat.zero_le _
  | cons e es ih =>
    have hfocus := s.focus_step e
    rw [← asks_step] at hfocus
    rw [run, List.countP_cons, List.countP_cons, repeats]
    cases hasks : (s.step e).asks with
    | true =>
      -- a question is good for the one answer that the rest of the run may be ahead by
      have hsends : (s.step e).sends = false := by
        cases h : (s.step e).sends with
        | false => rfl
        | true => exact absurd (focus_of_sends h).2 (by simp [hasks])
      have hrest := ih (s.step e).session false
      simp only [hfocus.mpr (.inr hasks), Bool.not_false, Bool.and_self, Bool.toNat_true] at hrest
      simp only [hsends, if_true, if_false, Bool.false_eq_true]
      omega
    | false =>
      have hkept : (s.step e).session.state.focus.isSome = s.state.focus.isSome := by
        simpa [hasks] using hfocus
      cases hsends : (s.step e).sends with
      | true =>
        have hheld := (focus_of_sends hsends).1
        have hrest := ih (s.step e).session true
        simp only [Bool.not_true, Bool.and_false, Bool.toNat_false] at hrest
        simp only [hheld, Bool.true_and, if_true, if_false, Bool.false_eq_true]
        cases answered <;> simp only [Bool.not_true, Bool.not_false, Bool.toNat_true,
          Bool.toNat_false] <;> omega
      | false =>
        have hrest := ih (s.step e).session answered
        rw [hkept] at hrest
        simpa only [Bool.false_eq_true, if_false, Nat.add_zero] using hrest

/-- The events that bring a question are the frames that name a node and are taken in. No
answer is sent before the first of them, and each that is sent judges the node that the last
of them named. At every point there are at most as many answers sent as questions taken in
and answers repeated. -/
theorem answers_are_to_questions (id : String) (options : SessionOptions) (es : List Event) :
    let begun := fresh id options
    let s := begun.after es
    (begun.run es).countP sends ≤ (begun.run es).countP asks + repeats false (begun.run es) ∧
      ∀ e, ((s.step e).asks = true ↔ s.Asks e) ∧
        (∀ held, (s.step e).asked? = some held ↔
          ∃ text, e = .frame text ∧ s.channel.phase ≠ .closed ∧
            Inbound.decode text = .ok (.focus held)) ∧
        ((s.step e).sends = true →
          (∃ u ∈ begun.run es, u.asks = true) ∧
          ∃ j held, (s.step e).result = .judged j ∧ j.judged = some held ∧
            ((begun.run es).filterMap asked?).getLast? = some held) := by
  intro begun s
  refine ⟨answers_run begun false es, fun e => ⟨s.asks_step e, fun held => ?_, fun h => ?_⟩⟩
  · rw [asked?_step, note_focus_eq_some]
  · obtain ⟨j, held, hresult, hjudged, hf⟩ := judged_of_sends h
    have hlast := begun.focus_after_run es
    rw [hf, show begun.state.focus = none from rfl, Option.or_none] at hlast
    refine ⟨?_, j, held, hresult, hjudged, hlast.symm⟩
    exact (asked_iff begun es).mp ((focus_after_fresh id options es).mp (focus_of_sends h).1)

def answeredTwice : List Event :=
  [.opened, .frame "\x7b\"type\":\"id\",\"id\":5\x7d", .judge .yes, .judge .yes,
    .frame "\x7b\"type\":\"id\",\"id\":6\x7d"]

theorem answered_twice_repeats_once :
    let begun := fresh "sess_0" .standard
    let answer := (begun.after answeredTwice).step (.judge .no)
    (begun.run answeredTwice).countP sends = 2 ∧
      repeats false (begun.run answeredTwice) = 1 ∧
      answer.sends = true ∧
      (∃ u ∈ begun.run answeredTwice, u.asks = true) ∧
      ∃ j, answer.result = .judged j ∧ j.judged = some (.number 6) := by
  intro begun answer
  have hanswer : answer.sends = true := by decide +kernel
  have hlast : ((begun.run answeredTwice).filterMap asked?).getLast? = some (.number 6) := by
    decide +kernel
  obtain ⟨hasked, j, held, hresult, hjudged, hheld⟩ :=
    ((answers_are_to_questions "sess_0" .standard answeredTwice).2 (.judge .no)).2.2 hanswer
  obtain rfl : held = .number 6 := Option.some.inj (hheld.symm.trans hlast)
  exact ⟨by decide +kernel, by decide +kernel, hanswer, hasked, j, hresult, hjudged⟩

theorem second_answer_is_sent :
    ¬ ∀ (id : String) (options : SessionOptions) (es : List Event),
      ((fresh id options).run es).countP sends ≤ ((fresh id options).run es).countP asks := by
  intro h
  exact absurd (h "sess_0" .standard (answeredTwice.take 4)) (by decide +kernel)

end Session
end TreeJudge

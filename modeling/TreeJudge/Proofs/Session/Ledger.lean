import TreeJudge.Proofs.Session.History

/-!
# The ledger of the outbox

What has been drained and what still waits is, together and in order, what was
answered with the word that it is sent; nothing else ever waits. Whether an answer
is sent depends on two things only: that a question has come in, and that the
channel is open.
-/

set_option autoImplicit false

namespace TreeJudge
namespace Session

/-- The event brings a question: a node to judge, on a channel that takes frames. -/
def Asks (s : Session) (e : Event) : Prop :=
  ∃ text id, e = .frame text ∧ s.channel.phase ≠ .closed ∧ Inbound.decode text = .ok (.focus id)

def Asked (s : Session) (es : List Event) : Prop :=
  ∃ before e rest, es = before ++ e :: rest ∧ (s.after before).Asks e

theorem asked_nil (s : Session) : ¬ s.Asked [] := by
  rintro ⟨before, e, rest, h, -⟩
  simp at h

theorem asked_cons (s : Session) (e : Event) (es : List Event) :
    s.Asked (e :: es) ↔ s.Asks e ∨ (s.step e).session.Asked es := by
  constructor
  · rintro ⟨before, e', rest, h, hasks⟩
    cases before with
    | nil =>
      obtain ⟨rfl, -⟩ := List.cons.inj h
      exact .inl hasks
    | cons b before =>
      obtain ⟨rfl, htail⟩ := List.cons.inj h
      exact .inr ⟨before, e', rest, htail, hasks⟩
  · rintro (h | ⟨before, e', rest, rfl, hasks⟩)
    · exact ⟨[], e, es, rfl, h⟩
    · exact ⟨e :: before, e', rest, rfl, hasks⟩

theorem note_focus_eq_some (s : Session) (e : Event) (id : NodeId) :
    (s.note? e).bind Note.focus? = some id ↔
      ∃ text, e = .frame text ∧ s.channel.phase ≠ .closed ∧
        Inbound.decode text = .ok (.focus id) := by
  cases e with
  | frame text =>
    by_cases hc : s.channel.phase = .closed
    · simp [note?, hc]
    · cases hd : Inbound.decode text with
      | error f => simp [note?, hc, hd, Note.ofFrame?, Note.focus?]
      | ok i => cases i <;> simp [note?, hc, hd, Note.ofFrame?, Note.focus?]
  | judge a => cases a <;> cases hf : s.state.focus <;>
      simp [note?, Note.ofAnswer?, Note.focus?, hf]
  | _ => simp [note?]

theorem isSome_note_focus (s : Session) (e : Event) :
    ((s.note? e).bind Note.focus?).isSome ↔ s.Asks e := by
  rw [Option.isSome_iff_exists]
  simp only [note_focus_eq_some]
  exact exists_comm

theorem focus_eq_step (s : Session) (e : Event) :
    (s.step e).session.state.focus = ((s.note? e).bind Note.focus?).or s.state.focus := by
  rw [state_step, heard]
  cases s.note? e with
  | none => rfl
  | some n => exact s.state.focus_noted s.options.flagOnFault n

theorem focus_step (s : Session) (e : Event) :
    (s.step e).session.state.focus.isSome ↔ s.state.focus.isSome ∨ s.Asks e := by
  rw [focus_eq_step, Option.isSome_or, Bool.or_eq_true, isSome_note_focus, or_comm]

theorem focus_after (s : Session) (es : List Event) :
    (s.after es).state.focus.isSome ↔ s.state.focus.isSome ∨ s.Asked es := by
  induction es generalizing s with
  | nil => simp [after, asked_nil]
  | cons e es ih => rw [after_cons, ih, focus_step, asked_cons, or_assoc]

theorem focus_after_fresh (id : String) (options : SessionOptions) (es : List Event) :
    ((fresh id options).after es).state.focus.isSome ↔ (fresh id options).Asked es :=
  (focus_after _ es).trans (or_iff_right Bool.false_ne_true)

def handed (u : Update Outcome) : List String :=
  match u.result with
  | .drained frames => frames
  | _ => []

/-- What an event adds, by its result: the answer that is said to be sent. -/
def entered (e : Event) (u : Update Outcome) : List String :=
  match e, u.result with
  | .judge a, .judged j => if j.delivery = .sent then [a.encode] else []
  | _, _ => []

theorem frames_of_judge (a : Answer) (s : Session) :
    (Judgment.of a s.state s.channel).frames = entered (.judge a) (s.step (.judge a)) := by
  have hresult : (s.step (.judge a)).result = .judged (Judgment.of a s.state s.channel) := rfl
  simp only [entered, hresult, Judgment.frames]
  cases (Judgment.of a s.state s.channel).delivery <;> rfl

/-- One event moves frames out of the outbox or into it and loses none. -/
theorem ledger_step (s : Session) (e : Event) :
    handed (s.step e) ++ (s.step e).session.outbox = s.outbox ++ entered e (s.step e) := by
  rw [outbox_step]
  cases e with
  | judge a =>
    rw [waiting, frames_of_judge]
    rfl
  | drain => rfl
  | _ => exact (List.append_nil s.outbox).symm

theorem ledger_run (s : Session) (es : List Event) :
    (s.run es).flatMap handed ++ (s.after es).outbox =
      s.outbox ++ (es.zip (s.run es)).flatMap fun p => entered p.1 p.2 := by
  induction es generalizing s with
  | nil => simp [run, after]
  | cons e es ih =>
    rw [run, after_cons, List.zip_cons_cons, List.flatMap_cons, List.flatMap_cons,
      List.append_assoc, ih, ← List.append_assoc, ledger_step, List.append_assoc]

def recorded (s : SessionState) (a : Answer) (held : NodeId) : SessionState :=
  match a with
  | .yes => { s with confirmed := s.confirmed.insert held }
  | .no => { s with flagged := some held }

theorem state_judge (s : Session) (a : Answer) :
    (s.step (.judge a)).session.state =
      match s.state.focus with
      | some held => recorded s.state a held
      | none => s.state := by
  rw [state_step, heard]
  cases a <;> cases hf : s.state.focus <;>
    simp [note?, Note.ofAnswer?, SessionState.noted, recorded, hf]

theorem outbox_judge (s : Session) (a : Answer) :
    (s.step (.judge a)).session.outbox =
      if s.channel.phase = .opened ∧ s.state.focus.isSome then s.outbox ++ [a.encode]
      else s.outbox := by
  rw [outbox_step, waiting, Judgment.frames_of]
  split
  · rfl
  · exact List.append_nil s.outbox

/-- The frames that were drained and those that wait are the answers that were said
to be sent, in order and each once. An answer is sent when the channel is open and a
question has come in, and is dropped for want of a focus when none has ever come in,
which changes nothing, and for want of an open channel otherwise, and then it is
recorded all the same. No other event adds a frame. -/
theorem outbox_is_ledger (id : String) (options : SessionOptions) (es : List Event) :
    let begun := fresh id options
    let s := begun.after es
    Answer.yes.encode = "\"Yes\"" ∧ Answer.no.encode = "\"No\"" ∧
      (begun.run es).flatMap handed ++ s.outbox =
        (es.zip (begun.run es)).flatMap (fun p => entered p.1 p.2) ∧
      (∀ a, ∃ j, (s.step (.judge a)).result = .judged j ∧
        (j.delivery = .sent ↔ s.channel.phase = .opened ∧ begun.Asked es) ∧
        (j.delivery = .dropped .noFocus ↔ ¬ begun.Asked es) ∧
        (j.delivery = .dropped .channelNotOpen ↔
          s.channel.phase ≠ .opened ∧ begun.Asked es) ∧
        (j.delivery = .dropped .noFocus →
          (s.step (.judge a)).session.state = s.state ∧
            (s.step (.judge a)).session.outbox = s.outbox) ∧
        (j.delivery = .dropped .channelNotOpen →
          (∃ held, s.state.focus = some held ∧
            (s.step (.judge a)).session.state = recorded s.state a held) ∧
          (s.step (.judge a)).session.outbox = s.outbox)) ∧
      ∀ e, (∀ a, e ≠ .judge a) →
        (s.step e).session.outbox = if e = .drain then [] else s.outbox := by
  intro begun s
  have hasked : s.state.focus.isSome ↔ begun.Asked es := focus_after_fresh id options es
  refine ⟨Answer.encode_yes, Answer.encode_no, begun.ledger_run es, ?_, ?_⟩
  · intro a
    refine ⟨Judgment.of a s.state s.channel, rfl, ?_⟩
    have hstate := s.state_judge a
    have houtbox := s.outbox_judge a
    cases hf : s.state.focus with
    | none =>
      have hnot : ¬ begun.Asked es := by simpa [hf] using hasked
      simp only [hf] at hstate
      simp [Judgment.of, Judgment.delivery?, hf, hnot, hstate, houtbox]
    | some held =>
      have hyes : begun.Asked es := by simpa [hf] using hasked
      simp only [hf] at hstate
      cases hp : s.channel.phase <;>
        simp [Judgment.of, Judgment.delivery?, Channel.isOpen, hf, hp, hyes, hstate, houtbox]
  · intro e he
    rw [outbox_step]
    cases e with
    | judge a => exact absurd rfl (he a)
    | _ => rfl

def fourAnswers : List Event :=
  [.opened, .judge .no, .frame "\x7b\"type\":\"id\",\"id\":5\x7d", .judge .yes, .drain, .judge .no,
    .closed .remote, .judge .yes]

theorem four_answers_two_sent :
    let s := (fresh "sess_0" .standard).after fourAnswers
    ((fresh "sess_0" .standard).run fourAnswers).flatMap handed ++ s.outbox =
        ["\"Yes\"", "\"No\""] ∧
      (s.step .teardown).session.outbox = s.outbox ∧
      ∃ j, (s.step (.judge .no)).result = .judged j ∧
        j.delivery = .dropped .channelNotOpen ∧
        ∃ held, s.state.focus = some held ∧
          (s.step (.judge .no)).session.state = recorded s.state .no held := by
  obtain ⟨-, -, hledger, hjudge, hothers⟩ := outbox_is_ledger "sess_0" .standard fourAnswers
  have hentered : (fourAnswers.zip ((fresh "sess_0" .standard).run fourAnswers)).flatMap
      (fun p => entered p.1 p.2) = ["\"Yes\"", "\"No\""] := by
    decide +kernel
  have hasked : (fresh "sess_0" .standard).Asked fourAnswers :=
    (focus_after_fresh _ _ _).mp (by decide +kernel)
  have hclosed : ((fresh "sess_0" .standard).after fourAnswers).channel.phase ≠ .opened := by
    decide +kernel
  -- what is left holds of any run with these facts, so the run is not opened again
  generalize (fresh "sess_0" .standard).after fourAnswers = s at hledger hjudge hothers hclosed ⊢
  obtain ⟨j, hj, -, -, hdelivery, -, hrecorded⟩ := hjudge .no
  have hdropped : j.delivery = .dropped .channelNotOpen := hdelivery.mpr ⟨hclosed, hasked⟩
  exact ⟨hledger.trans hentered, hothers .teardown (by simp), j, hj, hdropped,
    (hrecorded hdropped).1⟩

end Session
end TreeJudge

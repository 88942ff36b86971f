import TreeJudge.Session.Hub

/-!
# What one event does to each part of a session

A session has parts that change for different reasons. The state changes by the
note that an event leaves, the channel by the calls on its lifecycle, the outbox
by judgments that are sent and by draining, the snapshot by publication; name and
options never change. Later theorems about runs start from these equations and
do not open the operations again.
-/

set_option autoImplicit false

namespace TreeJudge

/-- What one event tells the state of a session. -/
inductive Note where
  | tree (tree : ExecutionTree)
  | focus (id : NodeId)
  | output (value : Json)
  | fault (raw : String) (held : Option NodeId)
  | yes (held : NodeId)
  | no (held : NodeId)

namespace Note

def ofFrame? (frame : String) (held : Option NodeId) : Option Note :=
  match Inbound.decode frame with
  | .ok (.tree t) => some (.tree t)
  | .ok (.focus id) => some (.focus id)
  | .ok (.output v) => some (.output v)
  | .ok (.unrecognized _) => none
  | .error _ => some (.fault frame held)

def ofAnswer? (a : Answer) (held : Option NodeId) : Option Note :=
  match a with
  | .yes => held.map .yes
  | .no => held.map .no

end Note

def SessionState.noted (s : SessionState) (flagOnFault : Bool) : Note → SessionState
  | .tree t => { s with tree := some t }
  | .focus id => { s with focus := some id }
  | .output v => { s with output := some v }
  | .fault raw held =>
    { s with fault := some raw, flagged := if flagOnFault then held.or s.flagged else s.flagged }
  | .yes held => { s with confirmed := s.confirmed.insert held }
  | .no held => { s with flagged := some held }

def Channel.after (c : Channel) : Event → Channel
  | .opened => c.opening.2
  | .closed r => c.close r
  | .teardown => c.teardown.2
  | .frame _ | .judge _ | .drain => c

theorem Judgment.frames_of (a : Answer) (s : SessionState) (c : Channel) :
    (Judgment.of a s c).frames =
      if c.phase = .opened ∧ s.focus.isSome then [a.encode] else [] := by
  cases hf : s.focus <;> cases hp : c.phase <;>
    simp [Judgment.of, delivery?, frames, Channel.isOpen, hf, hp]

theorem Inbound.raw_of_decode {frame : String} {f : DecodeFault}
    (h : Inbound.decode frame = .error f) : f.raw = frame := by
  unfold Inbound.decode at h
  split at h
  · cases h
    rfl
  · next v _ =>
    cases hv : Inbound.ofJson v with
    | error c =>
      rw [hv] at h
      cases h
      rfl
    | ok i =>
      rw [hv] at h
      cases h

namespace Session

/-- The note that an event leaves. A frame leaves one unless the channel is
closed or the frame is of no known type, a judgment unless there is no focus. -/
def note? (s : Session) : Event → Option Note
  | .frame text => if s.channel.phase = .closed then none else Note.ofFrame? text s.state.focus
  | .judge a => Note.ofAnswer? a s.state.focus
  | .opened | .closed _ | .teardown | .drain => none

def heard (s : Session) (e : Event) : SessionState :=
  match s.note? e with
  | some n => s.state.noted s.options.flagOnFault n
  | none => s.state

def waiting (s : Session) : Event → List String
  | .judge a => s.outbox ++ (Judgment.of a s.state s.channel).frames
  | .drain => []
  | .opened | .closed _ | .teardown | .frame _ => s.outbox

theorem receive_session (s : Session) (text : String) :
    (s.receive text).session =
      { s with
        state := s.heard (.frame text)
        snapshot := (s.receive text).published.getD s.snapshot } := by
  by_cases hc : s.channel.phase = .closed
  · simp [receive, Channel.acceptsFrames, hc, heard, note?, quiet]
  · have ha : s.channel.acceptsFrames = true := by simpa [Channel.acceptsFrames] using hc
    simp only [receive, ha, if_true, heard, note?, hc, if_false, Note.ofFrame?]
    cases hd : Inbound.decode text with
    | error f =>
      have hf := Inbound.raw_of_decode hd
      cases hb : s.options.flagOnFault <;> cases ho : s.state.focus <;>
        simp [publish, withFault, SessionState.withFault, SessionState.reject,
          SessionState.noted, hf, hb, ho]
    | ok i => cases i <;> rfl

theorem judge_session (s : Session) (a : Answer) :
    (s.judge a).session =
      { s with
        state := s.heard (.judge a)
        outbox := s.waiting (.judge a)
        snapshot := (s.judge a).published.getD s.snapshot } := by
  cases a <;> cases ho : s.state.focus <;>
    simp [judge, publish, Judgment.record, SessionState.accept, SessionState.reject, heard,
      note?, Note.ofAnswer?, SessionState.noted, waiting, ho]

theorem session_step (s : Session) (e : Event) :
    (s.step e).session =
      { id := s.id
        options := s.options
        state := s.heard e
        channel := s.channel.after e
        outbox := s.waiting e
        snapshot := (s.step e).published.getD s.snapshot } := by
  cases e with
  | opened =>
    cases hp : s.channel.phase <;>
      simp [step, opened, Update.map, Channel.opening, hp, publish, quiet, heard, note?,
        waiting, Channel.after]
  | closed r => rfl
  | teardown =>
    cases ht : s.channel.tornDown <;>
      simp [step, teardown, Update.map, Channel.teardown, ht, publish, quiet, heard, note?,
        waiting, Channel.after]
  | frame text => exact receive_session s text
  | judge a => exact judge_session s a
  | drain => rfl

@[simp] theorem id_step (s : Session) (e : Event) : (s.step e).session.id = s.id := by
  rw [session_step]

@[simp] theorem options_step (s : Session) (e : Event) :
    (s.step e).session.options = s.options := by
  rw [session_step]

theorem state_step (s : Session) (e : Event) : (s.step e).session.state = s.heard e :=
  congrArg Session.state (s.session_step e)

theorem channel_step (s : Session) (e : Event) :
    (s.step e).session.channel = s.channel.after e :=
  congrArg Session.channel (s.session_step e)

theorem outbox_step (s : Session) (e : Event) : (s.step e).session.outbox = s.waiting e :=
  congrArg Session.outbox (s.session_step e)

theorem snapshot_step (s : Session) (e : Event) :
    (s.step e).session.snapshot = (s.step e).published.getD s.snapshot :=
  congrArg Session.snapshot (s.session_step e)

theorem teardown_result (s : Session) : s.teardown.result = !s.channel.tornDown := by
  cases ht : s.channel.tornDown <;> simp [teardown, Channel.teardown, ht, publish, quiet]

theorem after_cons (s : Session) (e : Event) (es : List Event) :
    s.after (e :: es) = (s.step e).session.after es := rfl

theorem step_of_mem_run {s : Session} {es : List Event} {p : Event × Update Outcome}
    (h : p ∈ es.zip (s.run es)) :
    ∃ before rest, es = before ++ p.1 :: rest ∧ p.2 = (s.after before).step p.1 := by
  induction es generalizing s with
  | nil => cases h
  | cons e es ih =>
    rw [run, List.zip_cons_cons] at h
    rcases List.mem_cons.mp h with rfl | h
    · exact ⟨[], es, rfl, rfl⟩
    · obtain ⟨before, rest, hes, hp⟩ := ih h
      exact ⟨e :: before, rest, by rw [hes, List.cons_append], hp⟩

@[simp] theorem id_after (s : Session) (es : List Event) : (s.after es).id = s.id := by
  induction es generalizing s with
  | nil => rfl
  | cons e es ih => rw [after_cons, ih, id_step]

theorem channel_after (s : Session) (es : List Event) :
    (s.after es).channel = es.foldl Channel.after s.channel := by
  induction es generalizing s with
  | nil => rfl
  | cons e es ih => rw [after_cons, ih, channel_step, List.foldl_cons]

@[simp] theorem options_after (s : Session) (es : List Event) :
    (s.after es).options = s.options := by
  induction es generalizing s with
  | nil => rfl
  | cons e es ih => rw [after_cons, ih, options_step]

end Session
end TreeJudge

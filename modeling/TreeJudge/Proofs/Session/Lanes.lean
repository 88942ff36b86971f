import TreeJudge.Proofs.Session.Coherence

/-!
# Independent lanes

Trees, command outputs and judgments come in lanes of their own. An event of one
lane neither reads nor changes the part of the session that another lane works on,
so only the order within each lane matters: any two interleavings of the same lanes
have the same results and lead to the same session.
-/

set_option autoImplicit false

namespace TreeJudge

/-- Questions, faults and answers share a lane, as all of them work on the focus or
the flag. -/
inductive Lane where
  | trees
  | outputs
  | judgments
deriving DecidableEq

def Event.lane? : Event → Option Lane
  | .frame text =>
    match Inbound.decode text with
    | .ok (.tree _) => some .trees
    | .ok (.output _) => some .outputs
    | .ok (.focus _) | .error _ => some .judgments
    | .ok (.unrecognized _) => none
  | .judge _ => some .judgments
  | .opened | .closed _ | .teardown | .drain => none

def Note.lane : Note → Lane
  | .tree _ => .trees
  | .output _ => .outputs
  | .focus _ | .fault _ _ | .yes _ | .no _ => .judgments

namespace SessionState

def part (s : SessionState) : Lane → SessionState
  | .trees => { fresh with tree := s.tree }
  | .outputs => { fresh with output := s.output }
  | .judgments => { s with tree := none, output := none }

theorem eq_of_part_eq {s s' : SessionState} (h : ∀ lane, s.part lane = s'.part lane) : s = s' := by
  have ht := h .trees
  have ho := h .outputs
  have hj := h .judgments
  cases s
  cases s'
  simp_all [part]

theorem part_noted_of_ne (s : SessionState) (flagOnFault : Bool) {n : Note} {lane : Lane}
    (h : n.lane ≠ lane) : (s.noted flagOnFault n).part lane = s.part lane := by
  cases n <;> cases lane <;> first | rfl | exact absurd rfl h

theorem part_noted {s s' : SessionState} {lane : Lane} (h : s.part lane = s'.part lane)
    (flagOnFault : Bool) (n : Note) :
    (s.noted flagOnFault n).part lane = (s'.noted flagOnFault n).part lane := by
  by_cases hn : n.lane = lane
  · subst hn
    cases n <;> simp_all [part, Note.lane, noted]
  · rw [part_noted_of_ne s flagOnFault hn, part_noted_of_ne s' flagOnFault hn, h]

end SessionState

namespace Session

/-- What the judgments of a session add to its outbox belongs to their lane; the
channel and the options are the same for all. -/
structure Agrees (lane : Lane) (s s' : Session) : Prop where
  options : s.options = s'.options
  channel : s.channel = s'.channel
  part : s.state.part lane = s'.state.part lane
  outbox : lane = .judgments → s.outbox = s'.outbox

theorem agrees_refl (lane : Lane) (s : Session) : Agrees lane s s := ⟨rfl, rfl, rfl, fun _ => rfl⟩

theorem Agrees.focus {s s' : Session} (h : Agrees .judgments s s') :
    s.state.focus = s'.state.focus := by
  have hfocus : (s.state.part .judgments).focus = (s'.state.part .judgments).focus := by
    rw [h.part]
  exact hfocus

theorem lane_of_note {s : Session} {e : Event} {n : Note} {lane : Lane}
    (h : e.lane? = some lane) (hn : s.note? e = some n) : n.lane = lane := by
  cases e with
  | frame text =>
    simp only [note?] at hn
    split at hn
    · cases hn
    · cases hd : Inbound.decode text with
      | error f =>
        simp only [Note.ofFrame?, hd, Event.lane?] at hn h
        cases hn
        cases h
        rfl
      | ok i =>
        simp only [Note.ofFrame?, hd, Event.lane?] at hn h
        cases i <;> cases hn <;> cases h <;> rfl
  | judge a =>
    cases h
    cases a <;> cases hf : s.state.focus <;> simp [note?, Note.ofAnswer?, hf] at hn <;>
      subst hn <;> rfl
  | _ => cases h

theorem Agrees.note_eq {lane : Lane} {s s' : Session} (h : Agrees lane s s') {e : Event}
    (he : e.lane? = some lane) : s.note? e = s'.note? e := by
  cases e with
  | frame text =>
    cases hd : Inbound.decode text with
    | error f =>
      simp only [Event.lane?, hd] at he
      cases he
      simp only [note?, Note.ofFrame?, hd, h.channel, h.focus]
    | ok i => cases i <;> simp only [note?, Note.ofFrame?, hd, h.channel]
  | judge a =>
    cases he
    simp only [note?, h.focus]
  | _ => cases he

theorem channel_of_lane (s : Session) {e : Event} {lane : Lane} (h : e.lane? = some lane) :
    (s.step e).session.channel = s.channel := by
  rw [channel_step]
  cases e <;> first | rfl | cases h

theorem agrees_step_of_ne {lane other : Lane} (s : Session) {e : Event}
    (he : e.lane? = some other) (hne : other ≠ lane) : Agrees lane s (s.step e).session where
  options := (s.options_step e).symm
  channel := (s.channel_of_lane he).symm
  part := by
    rw [state_step, heard]
    cases hn : s.note? e with
    | none => rfl
    | some n =>
      have hlane : n.lane ≠ lane := lane_of_note he hn ▸ hne
      exact (SessionState.part_noted_of_ne _ _ hlane).symm
  outbox := by
    rintro rfl
    rw [outbox_step]
    cases e with
    | frame text => rfl
    | judge a => exact absurd (Option.some.inj he).symm hne
    | _ => cases he

theorem Agrees.step {lane : Lane} {s s' : Session} (h : Agrees lane s s') {e : Event}
    (he : e.lane? = some lane) :
    (s.step e).result = (s'.step e).result ∧
      Agrees lane (s.step e).session (s'.step e).session := by
  -- an event of the lane reads the channel and the parts of the lane only
  have hresult : (s.step e).result = (s'.step e).result := by
    cases e with
    | frame text =>
      simp only [Session.step, Update.map, receive, h.channel]
      split
      · cases Inbound.decode text with
        | error f => rfl
        | ok i => cases i <;> rfl
      · rfl
    | judge a =>
      cases he
      simp only [Session.step, Update.map, judge, publish, Judgment.of, h.channel, h.focus]
    | _ => cases he
  refine ⟨hresult, ?_⟩
  constructor
  · rw [options_step, options_step, h.options]
  · rw [channel_of_lane s he, channel_of_lane s' he, h.channel]
  · rw [state_step, state_step, heard, heard, h.note_eq he, h.options]
    cases s'.note? e with
    | none => exact h.part
    | some n => exact SessionState.part_noted h.part _ n
  · rintro rfl
    rw [outbox_step, outbox_step]
    cases e with
    | frame text => exact h.outbox rfl
    | judge a => simp only [waiting, Judgment.of, h.outbox rfl, h.channel, h.focus]
    | _ => cases he

def answers (s : Session) (lane : Lane) (es : List Event) : List Outcome :=
  ((es.zip (s.run es)).filter (·.1.lane? = some lane)).map (·.2.result)

theorem Agrees.run {lane : Lane} {s s' : Session} (h : Agrees lane s s') {es : List Event}
    (hes : ∀ e ∈ es, e.lane?.isSome) :
    s.answers lane es = (s'.run (es.filter (·.lane? = some lane))).map (·.result) ∧
      Agrees lane (s.after es) (s'.after (es.filter (·.lane? = some lane))) := by
  induction es generalizing s s' with
  | nil => exact ⟨rfl, h⟩
  | cons e es ih =>
    have hrest : ∀ e ∈ es, e.lane?.isSome := fun e' he' => hes e' (List.mem_cons_of_mem e he')
    obtain ⟨other, hother⟩ := Option.isSome_iff_exists.mp (hes e List.mem_cons_self)
    by_cases he : e.lane? = some lane
    · obtain ⟨hresult, hstep⟩ := h.step he
      obtain ⟨hanswers, hafter⟩ := ih hstep hrest
      simp only [answers] at hanswers
      simp [answers, Session.run, after_cons, he, hresult, hanswers, hafter]
    · have hne : other ≠ lane := fun heq => he (heq ▸ hother)
      have hstep : Agrees lane (s.step e).session s' := by
        have hs := agrees_step_of_ne s hother hne
        exact ⟨hs.options.symm.trans h.options, hs.channel.symm.trans h.channel,
          hs.part.symm.trans h.part, fun hl => (hs.outbox hl).symm.trans (h.outbox hl)⟩
      obtain ⟨hanswers, hafter⟩ := ih hstep hrest
      simp only [answers] at hanswers
      simp [answers, Session.run, after_cons, he, hanswers, hafter]

end Session

/-- The last list is made of the others, each in its order. -/
inductive Interleaves {α : Type} : List α → List α → List α → List α → Prop
  | done : Interleaves [] [] [] []
  | first {a : α} {as bs cs ds : List α} (h : Interleaves as bs cs ds) :
      Interleaves (a :: as) bs cs (a :: ds)
  | second {b : α} {as bs cs ds : List α} (h : Interleaves as bs cs ds) :
      Interleaves as (b :: bs) cs (b :: ds)
  | third {c : α} {as bs cs ds : List α} (h : Interleaves as bs cs ds) :
      Interleaves as bs (c :: cs) (c :: ds)

theorem Interleaves.mem_iff {α : Type} {as bs cs ds : List α} (h : Interleaves as bs cs ds)
    (x : α) : x ∈ ds ↔ x ∈ as ∨ x ∈ bs ∨ x ∈ cs := by
  induction h with
  | done => simp
  | _ h ih => simp [ih, or_assoc, or_left_comm]

theorem Interleaves.eq_nil_iff {α : Type} {as bs cs ds : List α} (h : Interleaves as bs cs ds) :
    ds = [] ↔ as = [] ∧ bs = [] ∧ cs = [] := by
  cases h <;> simp

namespace Session
variable {trees outputs judgments es fs : List Event}

theorem filter_lane (h : Interleaves trees outputs judgments es)
    (ht : ∀ e ∈ trees, e.lane? = some .trees) (ho : ∀ e ∈ outputs, e.lane? = some .outputs)
    (hj : ∀ e ∈ judgments, e.lane? = some .judgments) (lane : Lane) :
    es.filter (·.lane? = some lane) =
      match lane with
      | .trees => trees
      | .outputs => outputs
      | .judgments => judgments := by
  induction h with
  | done => cases lane <;> rfl
  | first h ih =>
    have hrest := ih (fun e he => ht e (List.mem_cons_of_mem _ he)) ho hj
    have hhead := ht _ List.mem_cons_self
    cases lane <;> simp [hhead, hrest]
  | second h ih =>
    have hrest := ih ht (fun e he => ho e (List.mem_cons_of_mem _ he)) hj
    have hhead := ho _ List.mem_cons_self
    cases lane <;> simp [hhead, hrest]
  | third h ih =>
    have hrest := ih ht ho (fun e he => hj e (List.mem_cons_of_mem _ he))
    have hhead := hj _ List.mem_cons_self
    cases lane <;> simp [hhead, hrest]

theorem published_of_lane {s : Session} (hs : s.channel.phase ≠ .closed) {e : Event} {lane : Lane}
    (he : e.lane? = some lane) : (s.step e).published ≠ none := by
  rw [ne_eq, published_eq_none_iff]
  cases e with
  | frame text =>
    rintro (hclosed | ⟨kind, hd⟩)
    · exact hs hclosed
    · simp [Event.lane?, hd] at he
  | judge a => exact fun h => h
  | _ => cases he

theorem snapshot_after_lanes {s : Session} (hs : s.channel.phase ≠ .closed)
    (hes : ∀ e ∈ es, e.lane?.isSome) (hne : es ≠ []) :
    (s.after es).snapshot = (s.after es).view := by
  cases es with
  | nil => exact absurd rfl hne
  | cons e es =>
    obtain ⟨lane, he⟩ := Option.isSome_iff_exists.mp (hes e List.mem_cons_self)
    exact snapshot_eq_view_after (snapshot_of_published (published_of_lane hs he)) es

/-- Trees, outputs and judgments do not meet. On a channel that is not closed, any
two interleavings of the same three lanes give every event the same result and leave
the same state, the same outbox and the same last snapshot. -/
theorem lanes_are_independent (s : Session) (hs : s.channel.phase ≠ .closed)
    (ht : ∀ e ∈ trees, e.lane? = some .trees) (ho : ∀ e ∈ outputs, e.lane? = some .outputs)
    (hj : ∀ e ∈ judgments, e.lane? = some .judgments)
    (he : Interleaves trees outputs judgments es) (hf : Interleaves trees outputs judgments fs) :
    (∀ lane, s.answers lane es = s.answers lane fs) ∧
      (s.after es).state = (s.after fs).state ∧
      (s.after es).outbox = (s.after fs).outbox ∧
      (s.after es).snapshot = (s.after fs).snapshot := by
  have hlane {gs : List Event} (hg : Interleaves trees outputs judgments gs) :
      ∀ e ∈ gs, e.lane?.isSome := by
    intro e h
    rcases (hg.mem_iff e).mp h with h | h | h
    · simp [ht e h]
    · simp [ho e h]
    · simp [hj e h]
  have hrun (lane : Lane) {gs : List Event} (hg : Interleaves trees outputs judgments gs) :=
    (agrees_refl lane s).run (hlane hg)
  have hfilter (lane : Lane) :
      es.filter (·.lane? = some lane) = fs.filter (·.lane? = some lane) := by
    rw [filter_lane he ht ho hj, filter_lane hf ht ho hj]
  have hstate : (s.after es).state = (s.after fs).state := by
    apply SessionState.eq_of_part_eq
    intro lane
    rw [(hrun lane he).2.part, (hrun lane hf).2.part, hfilter]
  have houtbox : (s.after es).outbox = (s.after fs).outbox := by
    rw [(hrun .judgments he).2.outbox rfl, (hrun .judgments hf).2.outbox rfl, hfilter]
  have hchannel : (s.after es).channel = (s.after fs).channel := by
    rw [(hrun .judgments he).2.channel, (hrun .judgments hf).2.channel, hfilter]
  refine ⟨fun lane => ?_, hstate, houtbox, ?_⟩
  · rw [(hrun lane he).1, (hrun lane hf).1, hfilter]
  · by_cases hnil : es = []
    · have hnil' : fs = [] := hf.eq_nil_iff.mpr (he.eq_nil_iff.mp hnil)
      rw [hnil, hnil']
    · have hnil' : fs ≠ [] := fun h => hnil (he.eq_nil_iff.mpr (hf.eq_nil_iff.mp h))
      rw [snapshot_after_lanes hs (hlane he) hnil, snapshot_after_lanes hs (hlane hf) hnil']
      simp only [view, id_after, options_after, hstate, hchannel]

def oneTree : Event :=
  .frame "\x7b\"type\":\"tree\",\"tree\":\x7b\"nodes\":[\x7b\"id\":5\x7d]\x7d\x7d"

def oneOutput : Event := .frame "\x7b\"type\":\"cmd\",\"cmd\":\x7b\"output\":null\x7d\x7d"

def oneQuestion : Event := .frame "\x7b\"type\":\"id\",\"id\":5\x7d"

theorem late_tree_and_output_agree :
    let s := ((fresh "sess_0" .standard).step .opened).session
    let judged : List Event := [oneQuestion, .frame "not-json", .judge .yes]
    s.channel.phase ≠ .closed ∧
      Interleaves [oneTree] [oneOutput] judged (oneTree :: oneOutput :: judged) ∧
      Interleaves [oneTree] [oneOutput] judged (judged ++ [oneOutput, oneTree]) ∧
      (s.after (oneTree :: oneOutput :: judged)).state =
        (s.after (judged ++ [oneOutput, oneTree])).state ∧
      (s.after (oneTree :: oneOutput :: judged)).outbox =
        (s.after (judged ++ [oneOutput, oneTree])).outbox := by
  intro s judged
  have hs : s.channel.phase ≠ .closed := by decide
  have ht : ∀ e ∈ [oneTree], e.lane? = some .trees := by decide +kernel
  have ho : ∀ e ∈ [oneOutput], e.lane? = some .outputs := by decide +kernel
  have hj : ∀ e ∈ judged, e.lane? = some .judgments := by decide +kernel
  have he : Interleaves [oneTree] [oneOutput] judged (oneTree :: oneOutput :: judged) :=
    .first (.second (.third (.third (.third .done))))
  have hf : Interleaves [oneTree] [oneOutput] judged (judged ++ [oneOutput, oneTree]) :=
    .third (.third (.third (.second (.first .done))))
  obtain ⟨-, hstate, houtbox, -⟩ := lanes_are_independent s hs ht ho hj he hf
  exact ⟨hs, he, hf, hstate, houtbox⟩

end Session
end TreeJudge

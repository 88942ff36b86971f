import TreeJudge.Session.Channel

/-!
# The life of a channel

Three calls move a channel: it is opened, it is closed for a reason, and it is torn
down, which closes it as well unless that was done before. Whatever their order, the
channel only goes forward, the first of them that closes it gives the reason that
stays, and opening and tearing down each succeed once at most.
-/

set_option autoImplicit false

namespace TreeJudge

inductive ChannelCall where
  | opening
  | close (reason : CloseReason)
  | teardown
deriving Repr, DecidableEq

def ChannelCall.reason? : ChannelCall → Option CloseReason
  | .opening => none
  | .close r => some r
  | .teardown => some .teardown

namespace Channel

def call (c : Channel) : ChannelCall → Option Bool × Channel
  | .opening => (some c.opening.1, c.opening.2)
  | .close r => (none, c.close r)
  | .teardown => (some c.teardown.1, c.teardown.2)

def through (c : Channel) (calls : List ChannelCall) : Channel :=
  calls.foldl (fun c e => (c.call e).2) c

def answers (c : Channel) : List ChannelCall → List (Option Bool)
  | [] => []
  | e :: calls => (c.call e).1 :: answers (c.call e).2 calls

theorem through_cons (c : Channel) (e : ChannelCall) (calls : List ChannelCall) :
    c.through (e :: calls) = (c.call e).2.through calls := rfl

/-- There is a reason exactly when the channel is closed, and a channel that was torn
down is closed. -/
structure Sound (c : Channel) : Prop where
  reason_iff : c.reason.isSome ↔ c.phase = .closed
  closed_of_tornDown : c.tornDown = true → c.phase = .closed

theorem sound_fresh : fresh.Sound := ⟨by decide, by decide⟩

section
variable (c : Channel) (e : ChannelCall)

theorem opening_answer : (c.call .opening).1 = some (decide (c.phase = .connecting)) := by
  cases hp : c.phase <;> simp [call, Channel.opening, hp]

theorem teardown_answer : (c.call .teardown).1 = some (!c.tornDown) := by
  cases ht : c.tornDown <;> simp [call, Channel.teardown, ht]

theorem tornDown_call : (c.call e).2.tornDown = (c.tornDown || decide (e = .teardown)) := by
  cases e with
  | opening => cases hp : c.phase <;> simp [call, Channel.opening, hp]
  | close r => simp [call, tornDown_close]
  | teardown => cases ht : c.tornDown <;> simp [call, Channel.teardown, ht, tornDown_close]

theorem connecting_of_call (h : (c.call e).2.phase = .connecting) :
    c.phase = .connecting ∧ e ≠ .opening := by
  cases e with
  | opening => cases hp : c.phase <;> simp [call, Channel.opening, hp] at h
  | close r =>
    rw [call, phase_close] at h
    cases h
  | teardown =>
    cases ht : c.tornDown <;> simp [call, Channel.teardown, ht, phase_close] at h
    exact ⟨h, nofun⟩

end

section
variable {c : Channel} {e : ChannelCall}

theorem call_of_closed (h : c.phase = .closed) :
    (c.call e).2.phase = .closed ∧ (c.call e).2.reason = c.reason := by
  obtain ⟨phase, reason, tornDown⟩ := c
  obtain rfl : phase = .closed := h
  cases e with
  | opening => exact ⟨rfl, rfl⟩
  | close r => exact ⟨rfl, rfl⟩
  | teardown => cases tornDown <;> exact ⟨rfl, rfl⟩

/-- A channel that is open, or is to be, is closed by every call that has a reason, and
for that reason. -/
theorem call_of_not_closed (hs : c.Sound) (h : c.phase ≠ .closed) :
    ((c.call e).2.phase = .closed ↔ e.reason?.isSome) ∧ (c.call e).2.reason = e.reason? := by
  obtain ⟨phase, reason, tornDown⟩ := c
  obtain rfl : reason = none := by
    simpa using fun hr => h (hs.reason_iff.mp hr)
  obtain rfl : tornDown = false := by
    simpa using fun ht => h (hs.closed_of_tornDown ht)
  cases phase with
  | closed => exact absurd rfl h
  | _ =>
    cases e <;>
      simp [call, Channel.opening, Channel.close, Channel.teardown, ChannelCall.reason?]

theorem sound_call (hs : c.Sound) (e : ChannelCall) : (c.call e).2.Sound := by
  by_cases h : c.phase = .closed
  · obtain ⟨hphase, hreason⟩ := c.call_of_closed h (e := e)
    refine ⟨?_, fun _ => hphase⟩
    rw [hphase, hreason, hs.reason_iff, h]
  · obtain ⟨hphase, hreason⟩ := call_of_not_closed hs h (e := e)
    refine ⟨by rw [hphase, hreason], ?_⟩
    intro ht
    rw [tornDown_call, Bool.or_eq_true, decide_eq_true_eq] at ht
    rcases ht with ht | rfl
    · exact absurd (hs.closed_of_tornDown ht) h
    · exact hphase.mpr rfl

theorem rank_call (c : Channel) (e : ChannelCall) :
    c.phase.rank ≤ (c.call e).2.phase.rank := by
  cases hp : c.phase with
  | connecting => exact Nat.zero_le _
  | opened =>
    cases hn : (c.call e).2.phase with
    | connecting => exact absurd (hp.symm.trans (connecting_of_call c e hn).1) (by decide)
    | opened => exact Nat.le_refl 1
    | closed => exact Nat.le_succ 1
  | closed => exact Nat.le_of_eq (congrArg Phase.rank (call_of_closed hp).1.symm)

end

section
variable {c : Channel}

theorem sound_through (hs : c.Sound) (calls : List ChannelCall) : (c.through calls).Sound := by
  induction calls generalizing c with
  | nil => exact hs
  | cons e calls ih => exact ih (sound_call hs e)

theorem rank_through (c : Channel) (calls : List ChannelCall) :
    c.phase.rank ≤ (c.through calls).phase.rank := by
  induction calls generalizing c with
  | nil => exact Nat.le_refl _
  | cons e calls ih => exact Nat.le_trans (c.rank_call e) (ih _)

theorem through_of_closed (h : c.phase = .closed) (calls : List ChannelCall) :
    (c.through calls).phase = .closed ∧ (c.through calls).reason = c.reason := by
  induction calls generalizing c with
  | nil => exact ⟨h, rfl⟩
  | cons e calls ih =>
    obtain ⟨hphase, hreason⟩ := call_of_closed h (e := e)
    obtain ⟨hphase', hreason'⟩ := ih hphase
    exact ⟨hphase', hreason'.trans hreason⟩

theorem tornDown_through (c : Channel) (calls : List ChannelCall) :
    (c.through calls).tornDown = (c.tornDown || decide (.teardown ∈ calls)) := by
  induction calls generalizing c with
  | nil => simp [through]
  | cons e calls ih =>
    rw [through_cons, ih, tornDown_call, Bool.or_assoc, ← Bool.decide_or]
    simp [eq_comm]

def openings (c : Channel) (calls : List ChannelCall) : Nat :=
  (calls.zip (c.answers calls)).count (.opening, some true)

theorem openings_cons (c : Channel) (e : ChannelCall) (calls : List ChannelCall) :
    c.openings (e :: calls) =
      (c.call e).2.openings calls + if e = .opening ∧ c.phase = .connecting then 1 else 0 := by
  rw [openings, answers, List.zip_cons_cons, List.count_cons]
  congr 1
  by_cases he : e = .opening
  · subst he
    simp [opening_answer]
  · simp [he]

theorem openings_le (c : Channel) (calls : List ChannelCall) :
    c.openings calls ≤ if c.phase = .connecting then 1 else 0 := by
  induction calls generalizing c with
  | nil => exact Nat.zero_le _
  | cons e calls ih =>
    have hrest := ih (c.call e).2
    have hnext := c.connecting_of_call e
    rw [openings_cons]
    by_cases hn : (c.call e).2.phase = .connecting
    · obtain ⟨hc, he⟩ := hnext hn
      simpa [hn, hc, he] using hrest
    · rw [if_neg hn] at hrest
      split <;> split <;> simp_all

end

/-- However a new channel is opened, closed and torn down, it only moves forward. A call
to open it succeeds only while it connects, and once at most. A call to close it or to
tear it down closes it. It has a reason for being closed exactly when it is closed, which
is that of the call which closed it and stays.
The first call to tear it down answers true and every later one false, and after it the
channel is closed. -/
theorem lifecycle_of_calls (calls : List ChannelCall) :
    let c := fresh.through calls
    (∀ later, c.phase.rank ≤ (c.through later).phase.rank) ∧
      fresh.openings calls ≤ 1 ∧
      (c.call .opening).1 = some (decide (c.phase = .connecting)) ∧
      (c.reason.isSome ↔ c.phase = .closed) ∧
      (∀ e r, c.phase ≠ .closed → e.reason? = some r →
        (c.call e).2.phase = .closed ∧ (c.call e).2.reason = some r) ∧
      (∀ e, c.phase ≠ .closed → (c.call e).2.phase = .closed →
        ∃ r, e.reason? = some r ∧ ∀ later, (c.through (e :: later)).reason = some r) ∧
      (c.call .teardown).1 = some (decide (.teardown ∉ calls)) ∧
      (.teardown ∈ calls → c.phase = .closed) := by
  intro c
  have hs : c.Sound := sound_through sound_fresh calls
  have htorn : c.tornDown = decide (.teardown ∈ calls) := tornDown_through fresh calls
  refine ⟨c.rank_through, fresh.openings_le calls, c.opening_answer, hs.reason_iff, ?_, ?_, ?_, ?_⟩
  · intro e r hopen hr
    obtain ⟨hphase, hreason⟩ := call_of_not_closed hs hopen (e := e)
    exact ⟨hphase.mpr (by rw [hr]; rfl), hreason.trans hr⟩
  · intro e hopen hclosed
    obtain ⟨hphase, hreason⟩ := call_of_not_closed hs hopen (e := e)
    obtain ⟨r, hr⟩ := Option.isSome_iff_exists.mp (hphase.mp hclosed)
    refine ⟨r, hr, fun later => ?_⟩
    rw [through_cons, (through_of_closed hclosed later).2, hreason, hr]
  · rw [teardown_answer, htorn, decide_not]
  · intro ht
    exact hs.closed_of_tornDown (htorn.trans (decide_eq_true ht))

end Channel
end TreeJudge

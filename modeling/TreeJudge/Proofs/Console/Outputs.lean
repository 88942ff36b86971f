import TreeJudge.Proofs.Console.Pictures
import TreeJudge.Proofs.Session.History
import TreeJudge.Proofs.Wire.RoundTrip
import TreeJudge.Proofs.Wire.Values

/-!
# Which outputs are shown

The console does not see the frames, only the snapshots with the output that came last. An
output is printed when it comes in, alone, unless it equals the one before it; then nothing
is. No other event prints it again, because what a frame brought equals itself.
-/

set_option autoImplicit false

namespace TreeJudge
namespace Session

/-- The event is a frame that brings the output of a command and is taken in. -/
def Brings (s : Session) (e : Event) (v : Json) : Prop :=
  ∃ text, e = .frame text ∧ s.channel.phase ≠ .closed ∧ Inbound.decode text = .ok (.output v)

theorem note?_eq_output {s : Session} {e : Event} {v : Json} :
    s.note? e = some (.output v) ↔ s.Brings e v := by
  cases e with
  | frame text =>
    by_cases hc : s.channel.phase = .closed
    · simp [note?, Brings, hc]
    · simp only [note?, Brings, hc, if_false, Note.ofFrame?, Event.frame.injEq, ne_eq,
        not_false_eq_true, true_and, exists_eq_left']
      cases hd : Inbound.decode text with
      | error f => simp
      | ok i => cases i <;> simp
  | judge a => cases a <;> cases hf : s.state.focus <;> simp [note?, Brings, Note.ofAnswer?, hf]
  | _ => simp [note?, Brings]

theorem output_after (id : String) (options : SessionOptions) (es : List Event) :
    ((fresh id options).after es).state.output =
      (((fresh id options).notes es).filterMap Note.output?).getLast? := by
  have hlast := SessionState.last_note (·.output) Note.output? options.flagOnFault
    (fun s n => s.output_noted options.flagOnFault n) ((fresh id options).notes es) .fresh
  rw [state_after]
  exact hlast.trans Option.or_none

theorem output_step_of_not_brings {s : Session} {e : Event} (h : ∀ v, ¬ s.Brings e v) :
    (s.step e).session.state.output = s.state.output := by
  rw [state_step, heard]
  cases hn : s.note? e with
  | none => rfl
  | some n =>
    have hsilent : n.output? = none := by
      cases n with
      | output v => exact absurd (note?_eq_output.mp hn) (h v)
      | _ => rfl
    rw [SessionState.output_noted, hsilent, Option.none_or]

theorem step_of_brings {s : Session} {e : Event} {v : Json} (h : s.Brings e v) :
    (s.step e).published = some { s.view with output := some v } := by
  obtain ⟨text, rfl, hphase, hdecode⟩ := h
  have haccepts : s.channel.acceptsFrames = true := by simpa [Channel.acceptsFrames] using hphase
  simp [step, receive, Update.map, haccepts, hdecode, publish, view, Snapshot.of,
    SessionState.withOutput]

theorem regular_output_step {s : Session} {e : Event}
    (h : ∀ v, s.state.output = some v → v.Regular) :
    ∀ v, (s.step e).session.state.output = some v → v.Regular := by
  by_cases hbrings : ∃ v, s.Brings e v
  · obtain ⟨v, hv⟩ := hbrings
    intro w hw
    have hstate : (s.step e).session.state.output = some v := by
      rw [state_step, heard, note?_eq_output.mpr hv]
      rfl
    obtain ⟨text, -, -, hdecode⟩ := hv
    obtain rfl : v = w := Option.some.inj (hstate.symm.trans hw)
    exact Inbound.decode_regular hdecode
  · rw [output_step_of_not_brings fun v hv => hbrings ⟨v, hv⟩]
    exact h

theorem regular_output_after {s : Session} (es : List Event)
    (h : ∀ v, s.state.output = some v → v.Regular) :
    ∀ v, (s.after es).state.output = some v → v.Regular := by
  induction es generalizing s with
  | nil => exact h
  | cons e es ih => exact ih (regular_output_step h)

end Session

namespace Console

theorem sameOutput_self {output : Option Json} (h : ∀ v, output = some v → v.Regular) :
    sameOutput output output = true := by
  cases output with
  | none => rfl
  | some v => exact (h v rfl).same_self

theorem outputPart_some (previous : Option Snapshot) (current : Snapshot) {v : Json}
    (h : current.output = some v) :
    outputPart previous current =
      if sameOutput (some v) (previous.bind (·.output)) then []
      else [.plain (Render.output v ++ "\n")] := by
  rw [outputPart, h]

/-- A snapshot that differs from the one before it in its output only, or that is the first
and has neither a tree nor a fault, prints its output only. -/
theorem changes_with_output (previous : Option Snapshot) {seen : Snapshot}
    (htree : seen.tree = none) (hfault : seen.fault = none) (output : Option Json) :
    changes previous { previous.getD seen with output := output } =
      outputPart previous { previous.getD seen with output := output } := by
  have htreePart : treePart previous { previous.getD seen with output := output } = [] := by
    cases previous with
    | none => simp [treePart, htree]
    | some p => simp [treePart, viewChanged]
  have hfaultPart : faultPart previous { previous.getD seen with output := output } = [] := by
    cases previous with
    | none => simp [faultPart, hfault]
    | some p => simp [faultPart]
  rw [changes, htreePart, hfaultPart, List.nil_append, List.append_nil]

theorem showAll_published_concat (s : Session) (es : List Event) (e : Event) :
    showAll none (s.published (es ++ [e])) =
      showAll none (s.published es) ++
        (((s.after es).step e).published.map (changes (s.published es).getLast?)).toList := by
  rw [Session.published_concat, showAll_append, Option.or_none]
  cases ((s.after es).step e).published <;> rfl

section
variable (id : String) (options : SessionOptions) (es : List Event)

theorem output_of_last_published :
    (((Session.fresh id options).published es).getLast?.bind (·.output)) =
      ((Session.fresh id options).after es).state.output := by
  change _ = ((Session.fresh id options).after es).view.output
  rw [Session.view_after]
  cases ((Session.fresh id options).published es).getLast? <;> rfl

theorem changes_of_brings {e : Event} {v : Json}
    (h : ((Session.fresh id options).after es).Brings e v) :
    ∃ shot, (((Session.fresh id options).after es).step e).published = some shot ∧
      changes ((Session.fresh id options).published es).getLast? shot =
        if sameOutput (some v)
          (((Session.fresh id options).notes es).filterMap Note.output?).getLast? then []
        else [.plain (Render.output v ++ "\n")] := by
  refine ⟨_, Session.step_of_brings h, ?_⟩
  rw [Session.view_after, changes_with_output _ rfl rfl, outputPart_some _ _ rfl,
    output_of_last_published, Session.output_after]

theorem outputPart_of_not_brings {e : Event} {shot : Snapshot}
    (h : ∀ v, ¬ ((Session.fresh id options).after es).Brings e v)
    (hshot : (((Session.fresh id options).after es).step e).published = some shot) :
    outputPart ((Session.fresh id options).published es).getLast? shot = [] := by
  have hregular : ∀ v, ((Session.fresh id options).after es).state.output = some v → v.Regular :=
    Session.regular_output_after es nofun
  have hsame : shot.output = ((Session.fresh id options).after es).state.output := by
    rw [Session.shows_step _ e shot hshot]
    exact Session.output_step_of_not_brings h
  rw [outputPart, output_of_last_published, hsame, if_pos (sameOutput_self hregular)]

/-- Show the snapshots of a run as they are published, each beside the one before it, and
let one more event come. When it is a frame with the output of a command that is taken in,
then that output is printed, once and with nothing else, unless it equals the output that
was taken in before it, and then nothing is printed. Any other event prints no output of a
command. -/
theorem output_is_shown_unless_repeated (e : Event) :
    let begun := Session.fresh id options
    let s := begun.after es
    let previous := (begun.published es).getLast?
    let said := ((begun.notes es).filterMap Note.output?).getLast?
    showAll none (begun.published (es ++ [e])) =
        showAll none (begun.published es) ++
          ((s.step e).published.map (changes previous)).toList ∧
      (∀ v, s.Brings e v → ∃ shot, (s.step e).published = some shot ∧
        changes previous shot =
          if sameOutput (some v) said then [] else [.plain (Render.output v ++ "\n")]) ∧
      ((∀ v, ¬ s.Brings e v) → ∀ shot, (s.step e).published = some shot →
        outputPart previous shot = [] ∧
          changes previous shot = treePart previous shot ++ faultPart previous shot) := by
  intro begun s previous said
  refine ⟨showAll_published_concat begun es e, fun v => changes_of_brings id options es,
    fun hnot shot hshot => ?_⟩
  have hpart : outputPart previous shot = [] :=
    outputPart_of_not_brings id options es hnot hshot
  exact ⟨hpart, by rw [changes, hpart, List.append_nil]⟩

end

def bringing (v : Json) : Event :=
  .frame ("\x7b\"type\":\"cmd\",\"cmd\":\x7b\"output\":" ++ v.compact ++ "\x7d\x7d")

theorem brings_bringing {s : Session} {v : Json} (hphase : s.channel.phase ≠ .closed)
    (hv : v.faithful = true) (hn : v.nesting + 2 ≤ Json.deepest) : s.Brings (bringing v) v :=
  ⟨_, rfl, hphase, Inbound.decode_output hv hn⟩

theorem second_output_is_shown :
    let begun := Session.fresh "sess_0" .standard
    let told := [.opened, bringing (.str "a")]
    let previous := (begun.published told).getLast?
    (begun.after told).Brings (bringing (.str "b")) (.str "b") ∧
      (∃ shot, ((begun.after told).step (bringing (.str "b"))).published = some shot ∧
        changes previous shot = [.plain (Render.output (.str "b") ++ "\n")]) ∧
      (∀ v, ¬ (begun.after told).Brings (.judge .no) v) ∧
      ∃ shot, ((begun.after told).step (.judge .no)).published = some shot ∧
        outputPart previous shot = [] := by
  intro begun told previous
  have hbrings : (begun.after told).Brings (bringing (.str "b")) (.str "b") :=
    brings_bringing (by decide +kernel) (by decide) (by decide)
  have hnot : ∀ v, ¬ (begun.after told).Brings (.judge .no) v := by simp [Session.Brings]
  have hnew : sameOutput (some (.str "b")) ((begun.notes told).filterMap Note.output?).getLast? =
      false := by decide +kernel
  obtain ⟨-, hshown, -⟩ :=
    output_is_shown_unless_repeated "sess_0" .standard told (bringing (.str "b"))
  obtain ⟨-, -, hquiet⟩ := output_is_shown_unless_repeated "sess_0" .standard told (.judge .no)
  obtain ⟨shot, hshot, hprinted⟩ := hshown (.str "b") hbrings
  rw [if_neg (by rw [hnew]; decide)] at hprinted
  exact ⟨hbrings, ⟨shot, hshot, hprinted⟩, hnot, _, rfl, (hquiet hnot _ rfl).1⟩

theorem repeated_output_is_not_shown :
    ¬ ∀ (id : String) (options : SessionOptions) (es : List Event) (e : Event) (v : Json),
      ((Session.fresh id options).after es).Brings e v →
      ∃ shot, (((Session.fresh id options).after es).step e).published = some shot ∧
        .plain (Render.output v ++ "\n") ∈
          changes ((Session.fresh id options).published es).getLast? shot := by
  intro hclaimed
  let begun := Session.fresh "sess_0" .standard
  let told := [.opened, bringing (.str "a")]
  have hbrings : (begun.after told).Brings (bringing (.str "a")) (.str "a") :=
    brings_bringing (by decide +kernel) (by decide) (by decide)
  have hagain : sameOutput (some (.str "a"))
      ((begun.notes told).filterMap Note.output?).getLast? = true := by decide +kernel
  obtain ⟨shot, hshot, hprinted⟩ := hclaimed _ _ _ _ _ hbrings
  obtain ⟨shot', hshot', hnothing⟩ := changes_of_brings _ _ _ hbrings
  obtain rfl : shot = shot' := Option.some.inj (hshot.symm.trans hshot')
  rw [hnothing, if_pos hagain] at hprinted
  cases hprinted

end Console
end TreeJudge

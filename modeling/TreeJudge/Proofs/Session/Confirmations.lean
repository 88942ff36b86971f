import Mathlib.Data.List.Nodup
import TreeJudge.Proofs.Session.Coherence
import TreeJudge.Proofs.Text.Encoded
import TreeJudge.Render.Panels

/-!
# Confirmations in order

A session keeps its confirmations in order: integers by their value, and texts behind them
by their bytes. An answer puts the focus into its place, or finds it there, so what has been
confirmed decides what is shown, and neither the order nor the number of the answers does.
-/

set_option autoImplicit false

namespace TreeJudge

namespace NodeId

/-- Integers by value, then texts by their bytes. -/
def Precedes : NodeId → NodeId → Prop
  | .number a, .number b => a.toInt < b.toInt
  | .number _, .text _ => True
  | .text _, .number _ => False
  | .text a, .text b => Text.bytes a < Text.bytes b

theorem before_iff_precedes (a b : NodeId) : a.Before b ↔ a.Precedes b := by
  cases a with
  | number a => cases b <;> rfl
  | text a =>
    cases b with
    | number b => rfl
    | text b => exact (Text.bytes_lt_iff a b).symm

theorem before_irrefl (a : NodeId) : ¬ a.Before a := by
  cases a with
  | number a => exact Int.lt_irrefl a.toInt
  | text a => exact String.lt_irrefl a

theorem before_trans {a b c : NodeId} (hab : a.Before b) (hbc : b.Before c) : a.Before c := by
  cases a with
  | number a =>
    cases c with
    | text c => trivial
    | number c =>
      cases b with
      | number b => exact Int.lt_trans hab hbc
      | text b => exact hbc.elim
  | text a =>
    cases b with
    | number b => exact hab.elim
    | text b =>
      cases c with
      | number c => exact hbc.elim
      | text c => exact String.lt_trans hab hbc

theorem before_trichotomy (a b : NodeId) : a.Before b ∨ a = b ∨ b.Before a := by
  cases a with
  | number a =>
    cases b with
    | text b => exact .inl trivial
    | number b =>
      rcases Int.lt_trichotomy a.toInt b.toInt with h | h | h
      · exact .inl h
      · exact .inr (.inl (congrArg number (Int64.toInt_inj.mp h)))
      · exact .inr (.inr h)
  | text a =>
    cases b with
    | number b => exact .inr (.inr trivial)
    | text b =>
      by_cases hlt : a < b
      · exact .inl hlt
      · by_cases hgt : b < a
        · exact .inr (.inr hgt)
        · have heq := String.le_antisymm (String.not_lt.mp hgt) (String.not_lt.mp hlt)
          exact .inr (.inl (congrArg text heq))

end NodeId

namespace IdSet

def Increasing (s : IdSet) : Prop := s.toList.Pairwise NodeId.Before

theorem increasing_empty : empty.Increasing := .nil

theorem pairwise_insertInto {ys : List NodeId} (h : ys.Pairwise NodeId.Before) (x : NodeId) :
    (insertInto x ys).Pairwise NodeId.Before := by
  induction ys with
  | nil => exact List.pairwise_singleton _ x
  | cons y ys ih =>
    obtain ⟨hy, hys⟩ := List.pairwise_cons.mp h
    rw [insertInto]
    split
    · exact h
    · next hne =>
      split
      · next hxy =>
        refine List.pairwise_cons.mpr ⟨fun z hz => ?_, h⟩
        rcases List.mem_cons.mp hz with rfl | hz
        · exact hxy
        · exact NodeId.before_trans hxy (hy z hz)
      · next hxy =>
        -- what is inserted further back does not come before `y`
        have hyx : y.Before x := by
          rcases NodeId.before_trichotomy x y with h | h | h
          · exact absurd h hxy
          · exact absurd h hne
          · exact h
        refine List.pairwise_cons.mpr ⟨fun z hz => ?_, ih hys⟩
        rcases (mem_insertInto z x ys).mp hz with rfl | hz
        · exact hyx
        · exact hy z hz

theorem Increasing.insert {s : IdSet} (h : s.Increasing) (x : NodeId) :
    (s.insert x).Increasing := pairwise_insertInto h x

theorem Increasing.nodup {s : IdSet} (h : s.Increasing) : s.toList.Nodup := by
  apply List.Pairwise.imp _ h
  intro a b hab heq
  subst heq
  exact NodeId.before_irrefl a hab

theorem Increasing.ext {s t : IdSet} (hs : s.Increasing) (ht : t.Increasing)
    (h : ∀ x, x ∈ s ↔ x ∈ t) : s = t := by
  have hperm : s.toList.Perm t.toList := (List.perm_ext_iff_of_nodup hs.nodup ht.nodup).mpr h
  have hlist := List.Perm.eq_of_pairwise
    (fun a b _ _ hab hba => absurd (NodeId.before_trans hab hba) (NodeId.before_irrefl a))
    hs ht hperm
  exact congrArg IdSet.mk hlist

end IdSet

namespace Session

def accepts? (s : Session) : Event → Option NodeId
  | .judge .yes => s.state.focus
  | _ => none

def accepted (s : Session) : List Event → List NodeId
  | [] => []
  | e :: es => (s.accepts? e).toList ++ accepted (s.step e).session es

theorem confirmed_step (s : Session) (e : Event) :
    (s.step e).session.state.confirmed =
      (s.accepts? e).elim s.state.confirmed s.state.confirmed.insert := by
  rw [state_step]
  cases e with
  | judge a =>
    cases a <;> cases hf : s.state.focus <;>
      simp [heard, note?, Note.ofAnswer?, accepts?, SessionState.noted, hf]
  | frame text =>
    by_cases hc : s.channel.phase = .closed
    · simp [heard, note?, hc, accepts?]
    · cases hd : Inbound.decode text with
      | error f => simp [heard, note?, hc, Note.ofFrame?, hd, accepts?, SessionState.noted]
      | ok i =>
        cases i <;> simp [heard, note?, hc, Note.ofFrame?, hd, accepts?, SessionState.noted]
  | _ => rfl

theorem mem_confirmed_step (s : Session) (e : Event) (x : NodeId) :
    x ∈ (s.step e).session.state.confirmed ↔
      x ∈ (s.accepts? e).toList ∨ x ∈ s.state.confirmed := by
  rw [confirmed_step]
  cases s.accepts? e with
  | none => simp
  | some y => simp [IdSet.mem_insert]

theorem mem_confirmed_after (s : Session) (es : List Event) (x : NodeId) :
    x ∈ (s.after es).state.confirmed ↔ x ∈ s.accepted es ∨ x ∈ s.state.confirmed := by
  induction es generalizing s with
  | nil => simp [after, accepted]
  | cons e es ih =>
    rw [after_cons, ih, mem_confirmed_step, accepted, List.mem_append, or_left_comm, or_assoc]

theorem increasing_step {s : Session} (h : s.state.confirmed.Increasing) (e : Event) :
    (s.step e).session.state.confirmed.Increasing := by
  rw [confirmed_step]
  cases s.accepts? e with
  | none => exact h
  | some x => exact h.insert x

theorem increasing_after {s : Session} (h : s.state.confirmed.Increasing) (es : List Event) :
    (s.after es).state.confirmed.Increasing := by
  induction es generalizing s with
  | nil => exact h
  | cons e es ih => exact ih (increasing_step h e)

section
variable (id : String) (options : SessionOptions) (es : List Event)

theorem mem_confirmed_iff_accepted (x : NodeId) :
    x ∈ ((fresh id options).after es).state.confirmed ↔ x ∈ (fresh id options).accepted es := by
  rw [mem_confirmed_after]
  exact or_iff_left (List.not_mem_nil (a := x))

theorem confirmed_eq_of_accepted (id' : String) (options' : SessionOptions) (es' : List Event)
    (h : ∀ x, x ∈ (fresh id' options').accepted es' ↔ x ∈ (fresh id options).accepted es) :
    ((fresh id' options').after es').state.confirmed =
      ((fresh id options).after es).state.confirmed := by
  apply IdSet.Increasing.ext
  · exact increasing_after IdSet.increasing_empty es'
  · exact increasing_after IdSet.increasing_empty es
  · intro x
    rw [mem_confirmed_iff_accepted, mem_confirmed_iff_accepted, h]

end

theorem status_after (id : String) (options : SessionOptions) (es : List Event) (colors : Bool) :
    ((Render.status ((fresh id options).after es).snapshot)[4]?).map (Piece.write colors) =
      some ("confirmed: [" ++ ", ".intercalate
        (((fresh id options).after es).state.confirmed.toList.map NodeId.shown) ++ "]\n") := by
  have hview : ((fresh id options).after es).snapshot = ((fresh id options).after es).view :=
    snapshot_eq_view_after rfl es
  rw [hview]
  exact congrArg some (Piece.write_plain colors _)

/-- The status lists what has been accepted, each identifier once: integers by their value
and then texts by their bytes, an integer in decimal and a text as it is. Any other run in
which the same was accepted, in whatever order, as often and with whatever else in between,
has the same line in its status. -/
theorem confirmations_are_ordered (id : String) (options : SessionOptions) (es : List Event)
    (colors : Bool) :
    ∃ (ids : List NodeId) (line : String),
      line = "confirmed: [" ++ ", ".intercalate (ids.map NodeId.shown) ++ "]\n" ∧
        (∀ n : Int64, (NodeId.number n).shown = toString n.toInt) ∧
        (∀ text : String, (NodeId.text text).shown = text) ∧
        ((Render.status ((fresh id options).after es).snapshot)[4]?).map (Piece.write colors) =
          some line ∧
        ids.Pairwise NodeId.Precedes ∧
        ids.Nodup ∧
        (∀ x, x ∈ ids ↔ x ∈ (fresh id options).accepted es) ∧
        ∀ (id' : String) (options' : SessionOptions) (es' : List Event),
          (∀ x, x ∈ (fresh id' options').accepted es' ↔ x ∈ (fresh id options).accepted es) →
          ((Render.status ((fresh id' options').after es').snapshot)[4]?).map
              (Piece.write colors) = some line := by
  have hincreasing : ((fresh id options).after es).state.confirmed.Increasing :=
    increasing_after IdSet.increasing_empty es
  refine ⟨((fresh id options).after es).state.confirmed.toList, _, rfl, fun _ => rfl,
    fun _ => rfl, status_after id options es colors, ?_, hincreasing.nodup,
    mem_confirmed_iff_accepted id options es, ?_⟩
  · exact hincreasing.imp fun {a b} => (NodeId.before_iff_precedes a b).mp
  · intro id' options' es' h
    rw [status_after, confirmed_eq_of_accepted id options es id' options' es' h]

def confirmedTwice : List Event :=
  [.opened,
    .frame "\x7b\"type\":\"id\",\"id\":\"é\"\x7d", .judge .yes, .judge .yes,
    .frame "\x7b\"type\":\"id\",\"id\":10\x7d", .judge .yes,
    .frame "\x7b\"type\":\"id\",\"id\":\"10\"\x7d", .judge .yes,
    .frame "\x7b\"type\":\"id\",\"id\":-3\x7d", .judge .yes]

def confirmedEarly : List Event :=
  [.judge .yes,
    .frame "\x7b\"type\":\"id\",\"id\":-3\x7d", .judge .yes, .judge .no,
    .frame "\x7b\"type\":\"id\",\"id\":\"10\"\x7d", .judge .yes,
    .frame "\x7b\"type\":\"id\",\"id\":\"é\"\x7d", .judge .yes,
    .frame "\x7b\"type\":\"id\",\"id\":10\x7d", .judge .yes]

theorem confirmed_alike :
    let line := "confirmed: [-3, 10, 10, é]\n"
    ((Render.status ((fresh "sess_0" .standard).after confirmedTwice).snapshot)[4]?).map
        (Piece.write true) = some line ∧
      ((Render.status ((fresh "sess_1" .standard).after confirmedEarly).snapshot)[4]?).map
        (Piece.write true) = some line := by
  intro line
  obtain ⟨-, shown, -, -, -, hshown, -, -, -, halike⟩ :=
    confirmations_are_ordered "sess_0" .standard confirmedTwice true
  have hline : ((Render.status ((fresh "sess_0" .standard).after confirmedTwice).snapshot)[4]?).map
      (Piece.write true) = some line := by decide +kernel
  have htwice : (fresh "sess_0" .standard).accepted confirmedTwice =
      [.text "é", .text "é", .number 10, .text "10", .number (-3)] := by decide +kernel
  have hearly : (fresh "sess_1" .standard).accepted confirmedEarly =
      [.number (-3), .text "10", .text "é", .number 10] := by decide +kernel
  have hsame : ∀ x, x ∈ (fresh "sess_1" .standard).accepted confirmedEarly ↔
      x ∈ (fresh "sess_0" .standard).accepted confirmedTwice := by
    intro x
    rw [htwice, hearly]
    simp only [List.mem_cons, List.not_mem_nil, or_false]
    grind
  exact ⟨hline, (halike "sess_1" .standard confirmedEarly hsame).trans (hshown.symm.trans hline)⟩

end Session
end TreeJudge

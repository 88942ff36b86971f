import TreeJudge.Proofs.Session.Step

/-!
# The history behind a session's state

The notes of a run are what its events told the state, in order. They determine
the state: each field is what the last note about it says, the confirmations are
what all notes say, and an event without a note leaves no trace.
-/

set_option autoImplicit false

namespace TreeJudge
namespace Note

def tree? : Note → Option ExecutionTree
  | .tree t => some t
  | _ => none

def focus? : Note → Option NodeId
  | .focus id => some id
  | _ => none

def output? : Note → Option Json
  | .output v => some v
  | _ => none

def raw? : Note → Option String
  | .fault raw _ => some raw
  | _ => none

def flagged? (flagOnFault : Bool) : Note → Option NodeId
  | .no held => some held
  | .fault _ held => if flagOnFault then held else none
  | _ => none

end Note

namespace SessionState
variable (s : SessionState) (flagOnFault : Bool) (n : Note)

theorem tree_noted : (s.noted flagOnFault n).tree = n.tree?.or s.tree := by
  cases n <;> rfl

theorem focus_noted : (s.noted flagOnFault n).focus = n.focus?.or s.focus := by
  cases n <;> rfl

theorem output_noted : (s.noted flagOnFault n).output = n.output?.or s.output := by
  cases n <;> rfl

theorem fault_noted : (s.noted flagOnFault n).fault = n.raw?.or s.fault := by
  cases n <;> rfl

theorem flagged_noted :
    (s.noted flagOnFault n).flagged = (n.flagged? flagOnFault).or s.flagged := by
  cases n <;> cases flagOnFault <;> rfl

theorem mem_confirmed_noted (x : NodeId) :
    x ∈ (s.noted flagOnFault n).confirmed ↔ n = .yes x ∨ x ∈ s.confirmed := by
  cases n with
  | yes held => simpa [noted, eq_comm] using IdSet.mem_insert s.confirmed x held
  | _ => simp [noted]

end SessionState

namespace Session

def notes (s : Session) : List Event → List Note
  | [] => []
  | e :: es => (s.note? e).toList ++ notes (s.step e).session es

theorem state_after (s : Session) (es : List Event) :
    (s.after es).state =
      (s.notes es).foldl (fun state n => state.noted s.options.flagOnFault n) s.state := by
  induction es generalizing s with
  | nil => rfl
  | cons e es ih =>
    rw [after_cons, ih, options_step, state_step, notes, List.foldl_append]
    congr 1
    unfold heard
    cases s.note? e <;> rfl

end Session

/-- A field that each note replaces or leaves is in the end what the last note
that speaks of it says. -/
theorem SessionState.last_note {α : Type} (field : SessionState → Option α)
    (told : Note → Option α) (flagOnFault : Bool)
    (h : ∀ s n, field (s.noted flagOnFault n) = (told n).or (field s))
    (ns : List Note) (s : SessionState) :
    field (ns.foldl (fun state n => state.noted flagOnFault n) s) =
      (ns.filterMap told).getLast?.or (field s) := by
  -- a note that says nothing of the field passes on what an earlier one said
  induction ns generalizing s with
  | nil => rfl
  | cons n ns ih =>
    rw [List.foldl_cons, ih, h, List.filterMap_cons]
    cases told n with
    | none => rfl
    | some a =>
      rw [List.getLast?_cons]
      cases (ns.filterMap told).getLast? <;> rfl

theorem SessionState.mem_confirmed_foldl (flagOnFault : Bool) (ns : List Note)
    (s : SessionState) (x : NodeId) :
    x ∈ (ns.foldl (fun state n => state.noted flagOnFault n) s).confirmed ↔
      Note.yes x ∈ ns ∨ x ∈ s.confirmed := by
  induction ns generalizing s with
  | nil => simp
  | cons n ns ih =>
    rw [List.foldl_cons, ih, mem_confirmed_noted, List.mem_cons, or_left_comm, ← or_assoc,
      eq_comm (a := n)]

/-- The state is the history. Of the tree, the focus, the output and the fault it
holds what was said last; confirmed is every focus that was held at a Yes; flagged
is the focus that was held at the last No or, where faults flag, at the last fault
if that came later. Events that leave no note play no part. -/
theorem Session.state_told_by_notes (id : String) (options : SessionOptions)
    (es : List Event) :
    let notes := (fresh id options).notes es
    let state := ((fresh id options).after es).state
    state.tree = (notes.filterMap Note.tree?).getLast? ∧
      state.focus = (notes.filterMap Note.focus?).getLast? ∧
      state.output = (notes.filterMap Note.output?).getLast? ∧
      state.fault = (notes.filterMap Note.raw?).getLast? ∧
      (∀ x, x ∈ state.confirmed ↔ Note.yes x ∈ notes) ∧
      state.flagged = (notes.filterMap (Note.flagged? options.flagOnFault)).getLast? ∧
      state = notes.foldl (fun st n => st.noted options.flagOnFault n) .fresh := by
  intro notes state
  have hstate : state = notes.foldl (fun st n => st.noted options.flagOnFault n) .fresh :=
    state_after (fresh id options) es
  have last {α : Type} (field : SessionState → Option α) (told : Note → Option α)
      (hf : field .fresh = none)
      (h : ∀ s n, field (s.noted options.flagOnFault n) = (told n).or (field s)) :
      field state = (notes.filterMap told).getLast? := by
    rw [hstate, SessionState.last_note field told options.flagOnFault h, hf, Option.or_none]
  refine ⟨?_, ?_, ?_, ?_, ?_, ?_, hstate⟩
  · exact last (·.tree) _ rfl fun s n => s.tree_noted options.flagOnFault n
  · exact last (·.focus) _ rfl fun s n => s.focus_noted options.flagOnFault n
  · exact last (·.output) _ rfl fun s n => s.output_noted options.flagOnFault n
  · exact last (·.fault) _ rfl fun s n => s.fault_noted options.flagOnFault n
  · intro x
    rw [hstate, SessionState.mem_confirmed_foldl]
    exact or_iff_left (List.not_mem_nil (a := x))
  · exact last (·.flagged) _ rfl fun s n => s.flagged_noted options.flagOnFault n

end TreeJudge

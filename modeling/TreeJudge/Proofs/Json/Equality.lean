import TreeJudge.Proofs.Json.Keys

/-!
# What is read equals itself

Equality of values looks members up by their keys and compares floats as numbers, so it
is not reflexive in general: a member named twice may differ from the first of its name,
and the float that is no number differs from itself. Neither is ever read of a text.
-/

set_option autoImplicit false

namespace TreeJudge.Json

/-- Equal to itself, with no member named twice. -/
structure Regular (v : Json) : Prop where
  distinct : v.Distinct
  same_self : v.same v = true

section
variable {vs : List Json} {ms : List (String × Json)}

theorem sameItems_self : sameItems vs vs = true ↔ ∀ v ∈ vs, v.same v = true := by
  induction vs with
  | nil => simp [sameItems]
  | cons v vs ih => rw [sameItems, Bool.and_eq_true, ih, List.forall_mem_cons]

theorem lookup?_of_mem (hkeys : (ms.map Prod.fst).Nodup) {m : String × Json} (hm : m ∈ ms) :
    lookup? m.1 ms = some m.2 := by
  induction ms with
  | nil => simp at hm
  | cons n ms ih =>
    obtain ⟨hn, hkeys⟩ := List.nodup_cons.mp hkeys
    rcases List.mem_cons.mp hm with rfl | hm
    · simp [lookup?]
    · have hne : n.1 ≠ m.1 := fun heq => hn (heq ▸ List.mem_map_of_mem hm)
      simp only [lookup?, hne, if_false]
      exact ih hkeys hm

theorem sameMembers_iff {ns : List (String × Json)} :
    sameMembers ms ns = true ↔ ∀ m ∈ ms, ∃ v, lookup? m.1 ns = some v ∧ m.2.same v = true := by
  induction ms with
  | nil => simp [sameMembers]
  | cons m ms ih =>
    rw [sameMembers, Bool.and_eq_true, ih, List.forall_mem_cons]
    cases lookup? m.1 ns <;> simp

theorem sameMembers_self (hkeys : (ms.map Prod.fst).Nodup) :
    sameMembers ms ms = true ↔ ∀ m ∈ ms, m.2.same m.2 = true := by
  rw [sameMembers_iff]
  refine forall₂_congr fun m hm => ?_
  simp [lookup?_of_mem hkeys hm]

theorem regular_arr : (arr vs).Regular ↔ ∀ v ∈ vs, v.Regular := by
  constructor
  · rintro ⟨hdistinct, hsame⟩ v hv
    rw [same, sameItems_self] at hsame
    exact ⟨distinctItems_iff.mp hdistinct v hv, hsame v hv⟩
  · intro h
    refine ⟨distinctItems_iff.mpr fun v hv => (h v hv).distinct, ?_⟩
    rw [same, sameItems_self]
    exact fun v hv => (h v hv).same_self

theorem regular_obj :
    (obj ms).Regular ↔ (ms.map Prod.fst).Nodup ∧ ∀ m ∈ ms, m.2.Regular := by
  constructor
  · rintro ⟨⟨hkeys, hdistinct⟩, hsame⟩
    rw [same, beq_self_eq_true, Bool.true_and, sameMembers_self hkeys] at hsame
    exact ⟨hkeys, fun m hm => ⟨distinctMembers_iff.mp hdistinct m hm, hsame m hm⟩⟩
  · rintro ⟨hkeys, hvalues⟩
    refine ⟨⟨hkeys, distinctMembers_iff.mpr fun m hm => (hvalues m hm).distinct⟩, ?_⟩
    rw [same, beq_self_eq_true, Bool.true_and, sameMembers_self hkeys]
    exact fun m hm => (hvalues m hm).same_self

end

theorem Plain.regular {v : Json} (h : v.Plain) : v.Regular := by
  refine ⟨h.distinct, ?_⟩
  cases v with
  | null => rfl
  | bool b => simp [same]
  | int n => simp [same]
  | float x => exact beq_self_of_isNaN (h.number x rfl)
  | str s => simp [same]
  | arr vs => exact h.scalar.elim
  | obj ms => exact h.scalar.elim

theorem regular_parse {text : String} {v : Json} (h : parse text = .ok v) : v.Regular :=
  parse_induction (fun _ hplain => hplain.regular) (fun _ => regular_arr.mpr)
    (fun _ hkeys hvalues => regular_obj.mpr ⟨hkeys, hvalues⟩) h

theorem Regular.inside {v : Json} (h : v.Regular) : v.Inside Regular := by
  cases v with
  | arr vs => exact regular_arr.mp h
  | obj ms => exact (regular_obj.mp h).2
  | _ => trivial

end TreeJudge.Json

import TreeJudge.Proofs.Json.Reading

/-!
# What is read names no member twice

A text may name a member of an object several times. The value that is read of it
keeps the first place and the last value, so in values that come from text the keys
of every object are distinct.
-/

set_option autoImplicit false

namespace TreeJudge.Json

mutual

def Distinct : Json → Prop
  | .arr vs => DistinctItems vs
  | .obj ms => (ms.map Prod.fst).Nodup ∧ DistinctMembers ms
  | _ => True

def DistinctItems : List Json → Prop
  | [] => True
  | v :: vs => Distinct v ∧ DistinctItems vs

def DistinctMembers : List (String × Json) → Prop
  | [] => True
  | (_, v) :: ms => Distinct v ∧ DistinctMembers ms

end

theorem distinctItems_iff {vs : List Json} : DistinctItems vs ↔ ∀ v ∈ vs, v.Distinct := by
  induction vs with
  | nil => simp [DistinctItems]
  | cons v vs ih => rw [DistinctItems, ih, List.forall_mem_cons]

theorem distinctMembers_iff {ms : List (String × Json)} :
    DistinctMembers ms ↔ ∀ m ∈ ms, m.2.Distinct := by
  induction ms with
  | nil => simp [DistinctMembers]
  | cons m ms ih => rw [DistinctMembers, ih, List.forall_mem_cons]

theorem Plain.distinct {v : Json} (h : v.Plain) : v.Distinct := by
  cases v with
  | arr vs => exact h.scalar.elim
  | obj ms => exact h.scalar.elim
  | _ => trivial

/-- In a value that is read of a text the keys of every object are distinct. -/
theorem distinct_parse {text : String} {v : Json} (h : parse text = .ok v) : v.Distinct :=
  parse_induction (fun _ hplain => hplain.distinct) (fun _ => distinctItems_iff.mpr)
    (fun _ hkeys hvalues => ⟨hkeys, distinctMembers_iff.mpr hvalues⟩) h

end TreeJudge.Json

import TreeJudge.Shape.OfJson

/-!
# Reading a record from its own members

An object is read member by member: the member of a field that was not seen
before changes the record as its field says, any other key is passed over.
-/

set_option autoImplicit false

namespace TreeJudge.Shape.OfJson
variable {α β : Type}

theorem read_field {read : OfJson β} {put : β → α → α} {v : Json} {b : β}
    (h : read.read v = .ok b) : (Source.map put read : OfJson (α → α)).read v = .ok (put b) := by
  change put <$> read.read v = _
  rw [h]
  rfl

theorem identifier_toJson (i : NodeId) : identifier.read i.toJson = .ok i := by
  simp only [identifier, i.ofJson?_toJson]

theorem list_map {γ : Type} {item : OfJson β} {print : γ → Json} {keep : γ → β}
    (h : ∀ c, item.read (print c) = .ok (keep c)) (cs : List γ) :
    (list item).read (.arr (cs.map print)) = .ok (cs.map keep) := by
  change all item.read (cs.map print) = _
  induction cs with
  | nil => rfl
  | cons c cs ih =>
    rw [List.map_cons, all, h, ih]
    rfl

section
variable {r : Record OfJson α} {key : String} {v : Json} {ms : List (String × Json)}
  {seen : List String} {a : α}

theorem fieldMembers_field {f : Field OfJson α} {change : α → α}
    (hf : r.fields.find? (·.name == key) = some f) (hs : seen.contains key = false)
    (hv : f.read.read v = .ok change) :
    fieldMembers r ((key, v) :: ms) seen a = fieldMembers r ms (key :: seen) (change a) := by
  rw [fieldMembers, hf]
  simp only [hs]
  rw [hv]
  rfl

theorem fieldMembers_unknown (h : r.fields.find? (·.name == key) = none) :
    fieldMembers r ((key, v) :: ms) seen a = fieldMembers r ms seen a := by
  rw [fieldMembers, h]

theorem fieldMembers_end (h : missing? r.fields seen = none) :
    fieldMembers r [] seen a = .ok a := by
  rw [fieldMembers, h]

end

end TreeJudge.Shape.OfJson

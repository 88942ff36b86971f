import TreeJudge.Proofs.Json.Equality
import TreeJudge.Proofs.Wire.Uncolored

/-!
# Outputs equal themselves

The output of a command is a value that stands in the frame it came with. So it has what
every value of a text has and passes on to the values in it, and in particular it equals
itself.
-/

set_option autoImplicit false

namespace TreeJudge.Inbound
open Shape OfJson

section
variable {Q : Json → Prop} {v w : Json}

theorem payload_keeps (hnull : Q .null) (hv : v.Inside Q)
    (h : (OfJson.record payload).read v = .ok w) : Q w := by
  refine record_keepsOn (P := Q) hnull (fun f hf => ?_) hv h
  obtain rfl := List.mem_singleton.mp hf
  refine keepsOn_field fun v hv b hb _ _ => ?_
  cases hb
  exact hv

theorem outputMessage_keeps (hnull : Q .null) (hinside : ∀ v, Q v → v.Inside Q)
    (hv : v.Inside Q) (h : (OfJson.record outputMessage).read v = .ok w) : Q w := by
  refine record_keepsOn (P := Q) hnull (fun f hf => ?_) hv h
  obtain rfl := List.mem_singleton.mp hf
  exact keepsOn_field fun v hv b hb _ _ => payload_keeps hnull (hinside v hv) hb

end

theorem decode_regular {frame : String} {v : Json} (h : decode frame = .ok (.output v)) :
    v.Regular := by
  obtain ⟨w, hw, hv⟩ := decode_eq_ok.mp h
  rcases ofJson_cases hv with ⟨_, ⟨⟩, _⟩ | ⟨v', ⟨⟩, hv'⟩ | ⟨_, ⟨⟩, _⟩ | ⟨_, ⟨⟩⟩
  have hnull : Json.null.Regular := Json.Plain.regular ⟨trivial, nofun, nofun⟩
  exact outputMessage_keeps hnull (fun _ => Json.Regular.inside) (Json.regular_parse hw).inside hv'

end TreeJudge.Inbound

import TreeJudge.Proofs.Shape.Documents
import TreeJudge.Proofs.Wire.Uncolored

/-!
# Messages as documents

No two fields of a record of the wire change the same place, so each record is read by
lookups. A frame with the document of a message is decoded to what the reader of the
message answers for the document.
-/

set_option autoImplicit false

namespace TreeJudge
open Shape OfJson

theorem apart_node : (Node.record (m := OfJson)).fields.Pairwise Apart := by
  refine .cons ?_ (.cons ?_ (.cons ?_ .nil))
  · refine List.forall_mem_cons.mpr ⟨apart_fields (by decide) fun _ _ _ => rfl, ?_⟩
    exact List.forall_mem_singleton.mpr (apart_fields (by decide) fun _ _ _ => rfl)
  · exact List.forall_mem_singleton.mpr (apart_fields (by decide) fun _ _ _ => rfl)
  · nofun

theorem apart_edge : (Edge.record (m := OfJson)).fields.Pairwise Apart :=
  List.pairwise_pair.mpr (apart_fields (by decide) fun _ _ _ => rfl)

theorem apart_tree : (ExecutionTree.record (m := OfJson)).fields.Pairwise Apart :=
  List.pairwise_pair.mpr (apart_fields (by decide) fun _ _ _ => rfl)

namespace Inbound
open Json (last?)

section
variable {text kind : String} {ms : List (String × Json)} {reader : OfJson Inbound} {m : Inbound}

/-- The type of a message is the last that it names. -/
theorem ofJson_resolved {v : Json} (hv : (Json.obj ms).resolve = some v)
    (htype : last? "type" ms = some (.str kind)) (hknown : known? kind = some reader) :
    ofJson v = .ok m ↔ reader.read v = .ok m := by
  obtain ⟨ns, hns, rfl⟩ := Option.map_eq_some_iff.mp hv
  obtain ⟨done, hdone, -, hlookup⟩ := Json.exists_ofMembers ns
  have hget : (Json.ofMembers ns).get? "type" = some (.str kind) := by
    have hlast := Json.last?_resolve "type" (Json.resolveMembers_eq_some.mp hns)
    rw [hdone, Json.get?, hlookup]
    rw [htype] at hlast
    generalize last? "type" ns = last at hlast ⊢
    cases hlast with
    | some hkind => exact hkind.symm
  rw [ofJson, hget]
  simp only [hknown]
  exact mapError_eq_ok

theorem decode_document (hdoc : Json.document text = .ok (.obj ms))
    (htype : last? "type" ms = some (.str kind)) (hknown : known? kind = some reader) :
    decode text = .ok m ↔ reader.answer? (.obj ms) = some m := by
  simp only [decode_eq_ok, Json.parse_eq_ok_iff, answer?_eq_some, hdoc]
  constructor
  · rintro ⟨v, ⟨d, hd, hv⟩, hm⟩
    cases hd
    exact ⟨v, hv, (ofJson_resolved hv htype hknown).mp hm⟩
  · rintro ⟨v, hv, hm⟩
    exact ⟨v, ⟨_, rfl, hv⟩, (ofJson_resolved hv htype hknown).mpr hm⟩

theorem decode_fault_iff : (∃ fault, decode text = .error fault) ↔ ∀ m, decode text ≠ .ok m := by
  cases decode text <;> simp

end

end Inbound
end TreeJudge

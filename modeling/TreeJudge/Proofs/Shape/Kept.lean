import TreeJudge.Shape.OfJson

/-!
# What a record keeps

A property of the start of a record that no field breaks holds of everything
that is read, whether the record stands as an object or as a list of its fields.
What the fields keep may rest on a property of the values that they are read from.
-/

set_option autoImplicit false

namespace TreeJudge

def Json.Inside (P : Json → Prop) : Json → Prop
  | .arr vs => ∀ v ∈ vs, P v
  | .obj ms => ∀ m ∈ ms, P m.2
  | _ => True

namespace Shape

section
variable {ε α β : Type} {x : Except ε α}

theorem bind_eq_ok {f : α → Except ε β} {b : β} :
    (do let a ← x; f a) = .ok b ↔ ∃ a, x = .ok a ∧ f a = .ok b := by
  cases x <;> simp [bind, Except.bind]

theorem map_eq_ok {f : α → β} {b : β} : f <$> x = .ok b ↔ ∃ a, x = .ok a ∧ f a = b := by
  cases x <;> simp [Functor.map, Except.map]

theorem mapError_eq_ok {ε' : Type} {f : ε → ε'} {a : α} : x.mapError f = .ok a ↔ x = .ok a := by
  cases x with
  | error e => constructor <;> exact nofun
  | ok b =>
    constructor
    · rintro ⟨⟩
      rfl
    · rintro ⟨⟩
      rfl

end

namespace OfJson
variable {α β : Type}

/-- No change that the field makes breaks `P`. -/
def Keeps (P : α → Prop) (f : Field OfJson α) : Prop :=
  ∀ v change, f.read.read v = .ok change → ∀ a, P a → P (change a)

def KeepsOn (Q : Json → Prop) (P : α → Prop) (f : Field OfJson α) : Prop :=
  ∀ v, Q v → ∀ change, f.read.read v = .ok change → ∀ a, P a → P (change a)

theorem keepsOn_field {Q : Json → Prop} {P : α → Prop} {name : String} {needed : Bool}
    {read : OfJson β} {put : β → α → α}
    (h : ∀ v, Q v → ∀ b, read.read v = .ok b → ∀ a, P a → P (put b a)) :
    KeepsOn Q P ⟨name, needed, Source.map put read⟩ := by
  intro v hv change hr
  obtain ⟨b, hb, rfl⟩ := map_eq_ok.mp hr
  exact h v hv b hb

theorem keepsOn_true {P : α → Prop} {f : Field OfJson α} :
    KeepsOn (fun _ => True) P f ↔ Keeps P f := by
  simp [KeepsOn, Keeps]

theorem keeps_field {P : α → Prop} {name : String} {needed : Bool} {read : OfJson β}
    {put : β → α → α} (h : ∀ v b, read.read v = .ok b → ∀ a, P a → P (put b a)) :
    Keeps P ⟨name, needed, Source.map put read⟩ :=
  keepsOn_true.mp (keepsOn_field fun v _ => h v)

section
variable {Q : Json → Prop} {P : α → Prop}

theorem fieldItems_keeps (r : Record OfJson α) (total : Nat)
    {fs : List (Field OfJson α)} (hf : ∀ f ∈ fs, KeepsOn Q P f) {vs : List Json}
    (hvs : ∀ v ∈ vs, Q v) {a b : α} (ha : P a) (h : fieldItems r total fs vs a = .ok b) :
    P b := by
  induction fs generalizing vs a with
  | nil =>
    cases vs with
    | nil =>
      cases h
      exact ha
    | cons v vs => cases h
  | cons f fs ih =>
    have hfs : ∀ g ∈ fs, KeepsOn Q P g := fun g hg => hf g (by simp [hg])
    cases vs with
    | nil =>
      rw [fieldItems] at h
      split at h
      · cases h
      · exact ih hfs hvs ha h
    | cons v vs =>
      obtain ⟨hv, hvs⟩ := List.forall_mem_cons.mp hvs
      obtain ⟨change, hc, hrest⟩ := bind_eq_ok.mp h
      exact ih hfs hvs (hf f (by simp) v hv change hc a ha) hrest

theorem fieldMembers_keeps {r : Record OfJson α} (hf : ∀ f ∈ r.fields, KeepsOn Q P f)
    {ms : List (String × Json)} (hms : ∀ m ∈ ms, Q m.2) {seen : List String} {a b : α}
    (ha : P a) (h : fieldMembers r ms seen a = .ok b) : P b := by
  induction ms generalizing seen a with
  | nil =>
    rw [fieldMembers] at h
    split at h
    · cases h
    · cases h
      exact ha
  | cons m ms ih =>
    obtain ⟨hm, hms⟩ := List.forall_mem_cons.mp hms
    rw [fieldMembers] at h
    split at h
    · exact ih hms ha h
    · next f hfind =>
      split at h
      · cases h
      · obtain ⟨change, hc, hrest⟩ := bind_eq_ok.mp h
        have hmem : f ∈ r.fields := List.mem_of_find?_eq_some hfind
        exact ih hms (hf f hmem m.2 hm change hc a ha) hrest

theorem record_keepsOn {r : Record OfJson α} (hs : P r.start)
    (hf : ∀ f ∈ r.fields, KeepsOn Q P f) {v : Json} (hv : v.Inside Q) {a : α}
    (h : (record r).read v = .ok a) : P a := by
  cases v with
  | obj ms => exact fieldMembers_keeps hf hv hs h
  | arr vs => exact fieldItems_keeps r vs.length hf hv hs h
  | _ => cases h

theorem record_keeps {r : Record OfJson α} (hs : P r.start)
    (hf : ∀ f ∈ r.fields, Keeps P f) {v : Json} {a : α} (h : (record r).read v = .ok a) :
    P a := by
  have hinside : v.Inside fun _ => True := by
    cases v <;> simp [Json.Inside]
  exact record_keepsOn hs (fun f hmem => keepsOn_true.mpr (hf f hmem)) hinside h

end

theorem all_forall {P : α → Prop} {read : Json → Except Fault α}
    (hr : ∀ v a, read v = .ok a → P a) {vs : List Json} {as : List α}
    (h : all read vs = .ok as) : ∀ a ∈ as, P a := by
  induction vs generalizing as with
  | nil =>
    cases h
    simp
  | cons v vs ih =>
    obtain ⟨b, hb, hrest⟩ := bind_eq_ok.mp h
    obtain ⟨bs, hbs, hok⟩ := bind_eq_ok.mp hrest
    cases hok
    intro a ha
    rcases List.mem_cons.mp ha with rfl | ha
    · exact hr v a hb
    · exact ih hbs a ha

theorem list_forall {P : α → Prop} {item : OfJson α} (hr : ∀ v a, item.read v = .ok a → P a)
    {v : Json} {as : List α} (h : (list item).read v = .ok as) : ∀ a ∈ as, P a := by
  cases v with
  | arr vs => exact all_forall hr h
  | _ => cases h

end OfJson
end Shape
end TreeJudge

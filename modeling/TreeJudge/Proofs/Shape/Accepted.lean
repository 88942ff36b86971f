import Mathlib.Data.List.Forall2
import Mathlib.Data.List.Nodup
import TreeJudge.Proofs.Json.Keys
import TreeJudge.Proofs.Shape.Kept

/-!
# What a record accepts

A record is described without its reader, by slots: their names, which of them are
required, and what holds of their values. Such a record may be written with the names,
as an object, or without them, as the array of the values in order. Of the values whose
objects name no member twice, the reader accepts exactly these two.
-/

set_option autoImplicit false

namespace TreeJudge

namespace Json
variable {key : String} {ms : List (String × Json)} {v : Json}

theorem mem_of_lookup? (h : lookup? key ms = some v) : (key, v) ∈ ms := by
  induction ms with
  | nil => cases h
  | cons m ms ih =>
    by_cases hk : m.1 = key
    · simp only [lookup?, hk, if_true, Option.some.injEq] at h
      exact List.mem_cons.mpr (.inl (by rw [← hk, ← h]))
    · simp only [lookup?, hk, if_false] at h
      exact List.mem_cons_of_mem m (ih h)

theorem lookup?_eq_none (h : key ∉ ms.map Prod.fst) : lookup? key ms = none := by
  cases hv : lookup? key ms with
  | none => rfl
  | some v => exact absurd (List.mem_map_of_mem (mem_of_lookup? hv)) h

theorem Distinct.lookup? (h : (obj ms).Distinct) (hv : Json.lookup? key ms = some v) :
    v.Distinct :=
  distinctMembers_iff.mp h.2 (key, v) (mem_of_lookup? hv)

end Json

namespace Shape
open Json (lookup?)

structure Slot where
  name : String
  required : Bool
  Holds : Json → Prop

def Named (slots : List Slot) (v : Json) : Prop :=
  ∃ members, v = .obj members ∧ ∀ s ∈ slots,
    (∀ w, lookup? s.name members = some w → s.Holds w) ∧
    (s.required = true → (lookup? s.name members).isSome = true)

/-- An array with the values of the first slots in order, where the slots without
a value are not required. -/
def Listed (slots : List Slot) (v : Json) : Prop :=
  ∃ items, v = .arr items ∧ items.length ≤ slots.length ∧
    (∀ p ∈ slots.zip items, p.1.Holds p.2) ∧
    ∀ s ∈ slots.drop items.length, s.required = false

def NamedOrListed (slots : List Slot) (v : Json) : Prop :=
  Named slots v ∨ Listed slots v

def ListOf (Holds : Json → Prop) (v : Json) : Prop :=
  ∃ items, v = .arr items ∧ ∀ w ∈ items, Holds w

theorem ListOf.imp {Holds Holds' : Json → Prop} (h : ∀ w, Holds w → Holds' w) {v : Json} :
    ListOf Holds v → ListOf Holds' v := by
  rintro ⟨items, rfl, hitems⟩
  exact ⟨items, rfl, fun w hw => h w (hitems w hw)⟩

structure Slot.Within (s s' : Slot) : Prop where
  name : s.name = s'.name
  required : s.required = s'.required
  holds : ∀ w, w.Distinct → s.Holds w → s'.Holds w

section
variable {slots slots' : List Slot} {v : Json}

theorem exists_within (h : List.Forall₂ Slot.Within slots slots') {s' : Slot}
    (hs' : s' ∈ slots') : ∃ s ∈ slots, s.Within s' := by
  induction h with
  | nil => simp at hs'
  | cons hwithin _ ih =>
    rcases List.mem_cons.mp hs' with rfl | hs'
    · exact ⟨_, List.mem_cons_self, hwithin⟩
    · obtain ⟨s, hs, hwithin⟩ := ih hs'
      exact ⟨s, List.mem_cons_of_mem _ hs, hwithin⟩

theorem Named.imp (h : List.Forall₂ Slot.Within slots slots') (hv : v.Distinct) :
    Named slots v → Named slots' v := by
  rintro ⟨members, rfl, hall⟩
  refine ⟨members, rfl, fun s' hs' => ?_⟩
  obtain ⟨s, hs, hwithin⟩ := exists_within h hs'
  obtain ⟨hholds, hrequired⟩ := hall s hs
  rw [← hwithin.name, ← hwithin.required]
  exact ⟨fun w hw => hwithin.holds w (hv.lookup? hw) (hholds w hw), hrequired⟩

theorem holds_zip (h : List.Forall₂ Slot.Within slots slots') {items : List Json}
    (hitems : ∀ w ∈ items, w.Distinct) (hall : ∀ p ∈ slots.zip items, p.1.Holds p.2) :
    ∀ p ∈ slots'.zip items, p.1.Holds p.2 := by
  induction h generalizing items with
  | nil => simp
  | cons hwithin _ ih =>
    cases items with
    | nil => simp
    | cons w items =>
      simp only [List.zip_cons_cons, List.forall_mem_cons] at hitems hall ⊢
      exact ⟨hwithin.holds w hitems.1 hall.1, ih hitems.2 hall.2⟩

theorem Listed.imp (h : List.Forall₂ Slot.Within slots slots') (hv : v.Distinct) :
    Listed slots v → Listed slots' v := by
  rintro ⟨items, rfl, hlength, hall, hrest⟩
  refine ⟨items, rfl, h.length_eq ▸ hlength,
    holds_zip h (Json.distinctItems_iff.mp hv) hall, fun s' hs' => ?_⟩
  obtain ⟨s, hs, hwithin⟩ := exists_within (List.forall₂_drop items.length h) hs'
  rw [← hwithin.required]
  exact hrest s hs

theorem NamedOrListed.imp (h : List.Forall₂ Slot.Within slots slots') (hv : v.Distinct) :
    NamedOrListed slots v → NamedOrListed slots' v :=
  Or.imp (Named.imp h hv) (Listed.imp h hv)

end

theorem bind_ok_iff {ε α β : Type} {x : Except ε α} {f : α → Except ε β} :
    (∃ b, (do let a ← x; f a) = .ok b) ↔ ∃ a, x = .ok a ∧ ∃ b, f a = .ok b := by
  simp only [bind_eq_ok]
  exact ⟨fun ⟨b, a, ha, hb⟩ => ⟨a, ha, b, hb⟩, fun ⟨a, ha, b, hb⟩ => ⟨b, a, ha, hb⟩⟩

namespace OfJson
variable {α β : Type}

def Accepts (r : OfJson α) (v : Json) : Prop := ∃ a, r.read v = .ok a

theorem accepts_map {f : α → β} {r : OfJson α} {v : Json} :
    (Source.map f r : OfJson β).Accepts v ↔ r.Accepts v := by
  constructor
  · rintro ⟨b, hb⟩
    obtain ⟨a, ha, -⟩ := map_eq_ok.mp hb
    exact ⟨a, ha⟩
  · rintro ⟨a, ha⟩
    exact ⟨f a, map_eq_ok.mpr ⟨a, ha, rfl⟩⟩

theorem accepts_all {read : Json → Except Fault α} {vs : List Json} :
    (∃ as, all read vs = .ok as) ↔ ∀ v ∈ vs, ∃ a, read v = .ok a := by
  induction vs with
  | nil => simp [all]
  | cons v vs ih =>
    rw [all, bind_ok_iff, List.forall_mem_cons, ← ih]
    constructor
    · rintro ⟨a, ha, as, has⟩
      obtain ⟨bs, hbs, -⟩ := bind_eq_ok.mp has
      exact ⟨⟨a, ha⟩, bs, hbs⟩
    · rintro ⟨⟨a, ha⟩, bs, hbs⟩
      exact ⟨a, ha, a :: bs, bind_eq_ok.mpr ⟨bs, hbs, rfl⟩⟩

theorem accepts_list {item : OfJson α} {Holds : Json → Prop}
    (h : ∀ w, w.Distinct → (item.Accepts w ↔ Holds w)) {v : Json} (hv : v.Distinct) :
    (list item).Accepts v ↔ ListOf Holds v := by
  constructor
  · rintro ⟨as, has⟩
    cases v with
    | arr items =>
      exact ⟨items, rfl, fun w hw =>
        (h w (Json.distinctItems_iff.mp hv w hw)).mp (accepts_all.mp ⟨as, has⟩ w hw)⟩
    | _ => cases has
  · rintro ⟨items, rfl, hitems⟩
    exact accepts_all.mpr fun w hw =>
      (h w (Json.distinctItems_iff.mp hv w hw)).mpr (hitems w hw)

def slot (f : Field OfJson α) : Slot := ⟨f.name, f.required, f.read.Accepts⟩

/-- The members that are left suit the fields, when those in `seen` have been read.
This is what the loop over the members keeps track of. -/
def Suit (fields : List (Field OfJson α)) (ms : List (String × Json)) (seen : List String) :
    Prop :=
  ∀ f ∈ fields, (∀ w, lookup? f.name ms = some w → f.read.Accepts w) ∧
    (f.required = true → f.name ∈ seen ∨ (lookup? f.name ms).isSome = true)

section
variable {fields : List (Field OfJson α)} {ms : List (String × Json)} {seen : List String}
  {key : String} {v : Json}

theorem suit_nil : Suit fields [] seen ↔ missing? fields seen = none := by
  simp [Suit, missing?, lookup?]

theorem suit_unknown (h : ∀ f ∈ fields, f.name ≠ key) :
    Suit fields ((key, v) :: ms) seen ↔ Suit fields ms seen := by
  refine forall₂_congr fun f hf => ?_
  simp only [lookup?, (h f hf).symm, if_false]

theorem suit_field (hnames : (fields.map (·.name)).Nodup) {f : Field OfJson α} (hf : f ∈ fields)
    (hkey : f.name = key) (hnew : key ∉ ms.map Prod.fst) :
    Suit fields ((key, v) :: ms) seen ↔ f.read.Accepts v ∧ Suit fields ms (key :: seen) := by
  have hself : ∀ g ∈ fields, g.name = key → g = f := fun g hg hgk =>
    List.inj_on_of_nodup_map hnames hg hf (hgk.trans hkey.symm)
  have hlookup := Json.lookup?_eq_none hnew
  constructor
  · intro h
    refine ⟨(h f hf).1 v (by simp [lookup?, hkey]), fun g hg => ?_⟩
    by_cases hgk : g.name = key
    · simp [hgk, hlookup]
    · simpa [lookup?, hgk, Ne.symm hgk] using h g hg
  · rintro ⟨haccepts, h⟩ g hg
    by_cases hgk : g.name = key
    · obtain rfl := hself g hg hgk
      simpa [lookup?, hgk] using haccepts
    · simpa [lookup?, hgk, Ne.symm hgk] using h g hg

end

theorem accepts_fieldMembers {r : Record OfJson α} (hnames : (r.fields.map (·.name)).Nodup)
    {ms : List (String × Json)} (hkeys : (ms.map Prod.fst).Nodup) {seen : List String}
    (hseen : ∀ m ∈ ms, m.1 ∉ seen) {a : α} :
    (∃ b, fieldMembers r ms seen a = .ok b) ↔ Suit r.fields ms seen := by
  -- what was read before is known by the names in `seen`, whatever the record is by now
  induction ms generalizing seen a with
  | nil =>
    rw [fieldMembers, suit_nil]
    cases missing? r.fields seen <;> simp
  | cons m ms ih =>
    obtain ⟨key, v⟩ := m
    obtain ⟨hnew, hkeys⟩ := List.nodup_cons.mp hkeys
    obtain ⟨hfresh, hseen⟩ := List.forall_mem_cons.mp hseen
    rw [fieldMembers]
    split
    · next hfind =>
      have hunknown : ∀ f ∈ r.fields, f.name ≠ key := fun f hf hk =>
        List.find?_eq_none.mp hfind f hf (by simp [hk])
      rw [suit_unknown hunknown, ih hkeys hseen]
    · next f hfind =>
      have hf : f ∈ r.fields := List.mem_of_find?_eq_some hfind
      have hkey : f.name = key := by simpa using List.find?_some hfind
      have hseen' : ∀ m ∈ ms, m.1 ∉ key :: seen := fun m hm hmem =>
        (List.mem_cons.mp hmem).elim (fun hk => hnew (List.mem_map.mpr ⟨m, hm, hk⟩))
          (hseen m hm)
      rw [if_neg (by simpa using hfresh), bind_ok_iff, suit_field hnames hf hkey hnew]
      simp only [ih hkeys hseen', exists_and_right, Accepts]

theorem accepts_fieldItems {r : Record OfJson α} {total : Nat} {fs : List (Field OfJson α)}
    {vs : List Json} {a : α} :
    (∃ b, fieldItems r total fs vs a = .ok b) ↔
      vs.length ≤ (fs.map slot).length ∧ (∀ p ∈ (fs.map slot).zip vs, p.1.Holds p.2) ∧
      ∀ s ∈ (fs.map slot).drop vs.length, s.required = false := by
  induction fs generalizing vs a with
  | nil =>
    cases vs with
    | nil => simp [fieldItems]
    | cons v vs => simp [fieldItems]
  | cons f fs ih =>
    cases vs with
    | nil =>
      by_cases hr : f.required = true
      · simp [fieldItems, hr, slot]
      · simp [fieldItems, hr, ih, slot]
    | cons v vs =>
      rw [fieldItems, bind_ok_iff]
      simp only [ih, List.map_cons, List.length_cons, List.zip_cons_cons, List.forall_mem_cons,
        List.drop_succ_cons, Nat.add_le_add_iff_right]
      constructor
      · rintro ⟨change, hchange, hlength, hall, hrest⟩
        exact ⟨hlength, ⟨⟨change, hchange⟩, hall⟩, hrest⟩
      · rintro ⟨hlength, ⟨⟨change, hchange⟩, hall⟩, hrest⟩
        exact ⟨change, hchange, hlength, hall, hrest⟩

theorem accepts_record {r : Record OfJson α} (hnames : (r.fields.map (·.name)).Nodup)
    {v : Json} (hv : v.Distinct) :
    (record r).Accepts v ↔ NamedOrListed (r.fields.map slot) v := by
  cases v with
  | obj ms =>
    change (∃ b, fieldMembers r ms [] r.start = .ok b) ↔ _
    rw [accepts_fieldMembers hnames hv.1 (by simp)]
    simp [Suit, NamedOrListed, Named, Listed, slot]
  | arr vs =>
    change (∃ b, fieldItems r vs.length r.fields vs r.start = .ok b) ↔ _
    rw [accepts_fieldItems]
    simp [NamedOrListed, Named, Listed]
  | _ =>
    simp [Accepts, record, NamedOrListed, Named, Listed]

structure Describes (s : Slot) (f : Field OfJson α) : Prop where
  name : s.name = f.name
  required : s.required = f.required
  holds : ∀ w, w.Distinct → (f.read.Accepts w ↔ s.Holds w)

theorem describes_field {name : String} {needed : Bool} {Holds : Json → Prop} {read : OfJson β}
    {put : β → α → α} (h : ∀ w, w.Distinct → (read.Accepts w ↔ Holds w)) :
    Describes ⟨name, needed, Holds⟩ ⟨name, needed, Source.map put read⟩ :=
  ⟨rfl, rfl, fun w hw => accepts_map.trans (h w hw)⟩

theorem names_of_describes {slots : List Slot} {fields : List (Field OfJson α)}
    (h : List.Forall₂ Describes slots fields) :
    fields.map (·.name) = slots.map (·.name) := by
  induction h with
  | nil => rfl
  | cons hf _ ih => rw [List.map_cons, List.map_cons, hf.name, ih]

/-- The reader of a record accepts what its description allows. -/
theorem accepts_described {r : Record OfJson α} {slots : List Slot}
    (hr : List.Forall₂ Describes slots r.fields) (hnames : (slots.map (·.name)).Nodup)
    {v : Json} (hv : v.Distinct) : (record r).Accepts v ↔ NamedOrListed slots v := by
  rw [accepts_record (names_of_describes hr ▸ hnames) hv]
  constructor
  · refine NamedOrListed.imp ?_ hv
    rw [List.forall₂_map_left_iff]
    exact hr.flip.imp fun f s h => ⟨h.name.symm, h.required.symm, fun w hw => (h.holds w hw).mp⟩
  · refine NamedOrListed.imp ?_ hv
    rw [List.forall₂_map_right_iff]
    exact hr.imp fun s f h => ⟨h.name, h.required, fun w hw => (h.holds w hw).mpr⟩

end OfJson
end Shape
end TreeJudge

import TreeJudge.Proofs.Json.Document
import TreeJudge.Proofs.Shape.Lookups

/-!
# What a document is read as

A reader answers for a document what it answers for its value. Of the members with one
name only the last counts, but a member that cannot be resolved spoils the document
wherever it stands.
-/

set_option autoImplicit false

namespace TreeJudge

namespace Json
variable {key : String} {ms ns before after : List (String × Json)} {v w : Json}

def last? (key : String) : List (String × Json) → Option Json
  | [] => none
  | (k, v) :: ms => (last? key ms).or (if k = key then some v else none)

theorem last?_append : last? key (ms ++ ns) = (last? key ns).or (last? key ms) := by
  induction ms with
  | nil => simp [last?]
  | cons m ms ih => rw [List.cons_append, last?, ih, last?, Option.or_assoc]

theorem last?_eq_none_iff : last? key ms = none ↔ key ∉ ms.map Prod.fst := by
  induction ms with
  | nil => simp [last?]
  | cons m ms ih =>
    rw [last?, Option.or_eq_none_iff, ih, List.map_cons, List.mem_cons, not_or, and_comm]
    refine and_congr_left' ?_
    simp [eq_comm]

theorem last?_isSome_iff : (last? key ms).isSome = true ↔ key ∈ ms.map Prod.fst := by
  rw [← not_iff_not, Bool.not_eq_true, Option.isSome_eq_false_iff, Option.isNone_iff_eq_none,
    last?_eq_none_iff]

theorem last?_middle_of_ne {k : String} (h : k ≠ key) :
    last? key (before ++ (k, v) :: after) = last? key (before ++ after) := by
  simp [last?_append, last?, h]

theorem last?_middle_of_mem (h : key ∈ after.map Prod.fst) :
    last? key (before ++ (key, v) :: after) = last? key (before ++ after) := by
  obtain ⟨w, hw⟩ := Option.isSome_iff_exists.mp (last?_isSome_iff.mpr h)
  simp [last?_append, last?, hw]

theorem last?_middle_of_not_mem (h : key ∉ after.map Prod.fst) :
    last? key (before ++ (key, v) :: after) = some v := by
  simp [last?_append, last?, last?_eq_none_iff.mpr h]

theorem lookup?_eq_lookup (key : String) (ms : List (String × Json)) :
    lookup? key ms = ms.lookup key := by
  induction ms with
  | nil => rfl
  | cons m ms ih =>
    obtain ⟨k, v⟩ := m
    by_cases h : k = key
    · simp [lookup?, h]
    · have hne : (key == k) = false := by simpa using Ne.symm h
      rw [lookup?, if_neg h, List.lookup_cons, hne, ih]

theorem lookup?_put {k : String} :
    lookup? key (put ms k v) = if k = key then some v else lookup? key ms := by
  induction ms with
  | nil => rfl
  | cons m ms ih =>
    obtain ⟨l, w⟩ := m
    by_cases hl : l = k
    · subst hl
      by_cases hkey : l = key <;> simp [put, lookup?, hkey]
    · by_cases hkey : k = key
      · subst hkey
        simp [put, lookup?, hl, ih]
      · simp [put, lookup?, hl, hkey, ih]

theorem lookup?_foldl_put (done : List (String × Json)) :
    lookup? key (ms.foldl (fun done m => put done m.1 m.2) done) =
      (last? key ms).or (lookup? key done) := by
  induction ms generalizing done with
  | nil => rfl
  | cons m ms ih =>
    rw [List.foldl_cons, ih, lookup?_put, last?, Option.or_assoc]
    split <;> rfl

theorem exists_ofMembers (ms : List (String × Json)) :
    ∃ done, ofMembers ms = .obj done ∧ (done.map Prod.fst).Nodup ∧
      ∀ key, lookup? key done = last? key ms := by
  obtain ⟨done, hdone, hkeys, -⟩ :=
    forall_ofMembers (P := fun _ => True) fun m (_ : m ∈ ms) => trivial
  refine ⟨done, hdone, hkeys, fun key => ?_⟩
  cases hdone
  rw [lookup?_foldl_put]
  simp [lookup?]

theorem last?_resolve (key : String) (h : List.Forall₂ ResolvesMember ms ns) :
    Option.Rel Resolves (last? key ms) (last? key ns) := by
  induction h with
  | nil => exact .none
  | @cons m n ms ns hm _ ih =>
    obtain ⟨hkey, hv⟩ := hm
    rw [last?, last?, hkey]
    generalize last? key ms = x at ih ⊢
    generalize last? key ns = y at ih ⊢
    cases ih with
    | some hvw => exact .some hvw
    | none =>
      simp only [Option.none_or]
      split
      · exact .some hv
      · exact .none

end Json

namespace Shape.OfJson
open Json (last? resolveMembers resolveItems)

variable {α β : Type}

def answer? (r : OfJson α) (d : Json) : Option α := d.resolve.bind (read? r)

theorem answer?_map {f : α → β} {r : OfJson α} {d : Json} :
    (Source.map f r : OfJson β).answer? d = (r.answer? d).map f := by
  unfold answer?
  cases d.resolve with
  | none => rfl
  | some v => exact read?_map f r v

theorem answer?_eq_some {r : OfJson α} {d : Json} {a : α} :
    r.answer? d = some a ↔ ∃ v, d.resolve = some v ∧ r.read v = .ok a := by
  simp only [answer?, Option.bind_eq_some_iff, read?_eq_some]

theorem read?_all {item : OfJson α} {vs : List Json} {as : List α} :
    all item.read vs = .ok as ↔ vs.map (read? item) = as.map some := by
  induction vs generalizing as with
  | nil => cases as <;> simp [all]
  | cons v vs ih =>
    rw [all, bind_eq_ok]
    simp only [bind_eq_ok, ih, List.map_cons]
    constructor
    · rintro ⟨a, ha, as, has, ⟨⟩⟩
      rw [read?_eq_some.mpr ha, has, List.map_cons]
    · intro h
      cases as with
      | nil => cases h
      | cons a as =>
        obtain ⟨ha, has⟩ := List.cons.inj h
        exact ⟨a, read?_eq_some.mp ha, as, has, rfl⟩

theorem answer?_list {item : OfJson α} {ds : List Json} {as : List α} :
    (list item).answer? (.arr ds) = some as ↔ ds.map item.answer? = as.map some := by
  have hall : (list item).answer? (.arr ds) = some as ↔
      ∃ vs, resolveItems ds = some vs ∧ vs.map (read? item) = as.map some := by
    simp only [answer?_eq_some, Json.resolve, Option.map_eq_some_iff, ← read?_all]
    constructor
    · rintro ⟨_, ⟨vs, hvs, rfl⟩, has⟩
      exact ⟨vs, hvs, has⟩
    · rintro ⟨vs, hvs, has⟩
      exact ⟨_, ⟨vs, hvs, rfl⟩, has⟩
  rw [hall]
  clear hall
  induction ds generalizing as with
  | nil => simp [resolveItems]
  | cons d ds ih =>
    simp only [resolveItems, Option.bind_eq_some_iff, Option.map_eq_some_iff]
    constructor
    · rintro ⟨_, ⟨v, hv, vs, hvs, rfl⟩, has⟩
      cases as with
      | nil => cases has
      | cons a as =>
        obtain ⟨ha, has⟩ := List.cons.inj has
        rw [List.map_cons, List.map_cons, ih.mp ⟨vs, hvs, has⟩, answer?, hv, Option.bind_some, ha]
    · intro h
      cases as with
      | nil => cases h
      | cons a as =>
        obtain ⟨ha, has⟩ := List.cons.inj h
        obtain ⟨v, hv, hread⟩ := Option.bind_eq_some_iff.mp ha
        obtain ⟨vs, hvs, has⟩ := ih.mpr has
        exact ⟨_, ⟨v, hv, vs, hvs, rfl⟩, by rw [List.map_cons, List.map_cons, hread, has]⟩

/-- The change of a field: that of the last member with its name, or none at all. -/
def effect (ms : List (String × Json)) (f : Field OfJson α) : Option (α → α) :=
  match last? f.name ms with
  | some d => f.read.answer? d
  | none => if f.required then none else some id

theorem madeBy_effect {ms : List (String × Json)} {f : Field OfJson α} :
    MadeBy f (effect ms f) := by
  intro c h
  unfold effect at h
  split at h
  · obtain ⟨v, -, hv⟩ := Option.bind_eq_some_iff.mp h
    exact .inr ⟨v, hv⟩
  · split at h
    · cases h
    · exact .inl (Option.some.inj h).symm

/-- A record in an object that can be resolved is its start after the changes of all its
fields. -/
theorem answer?_record {r : Record OfJson α} (hr : r.fields.Pairwise Apart)
    (ms : List (String × Json)) :
    (record r).answer? (.obj ms) = (resolveMembers ms).bind fun _ =>
      (r.fields.map (effect ms)).foldl applied (some r.start) := by
  unfold answer?
  rw [Json.resolve]
  cases hres : resolveMembers ms with
  | none => rfl
  | some ns =>
    obtain ⟨done, hdone, hkeys, hlookup⟩ := Json.exists_ofMembers ns
    rw [Option.map_some, Option.bind_some, Option.bind_some, hdone, read?_record hr hkeys]
    congr 1
    refine List.map_congr_left fun f _ => ?_
    have hlast := Json.last?_resolve f.name (Json.resolveMembers_eq_some.mp hres)
    unfold part effect
    rw [← Json.lookup?_eq_lookup, hlookup]
    generalize last? f.name ms = x at hlast ⊢
    generalize last? f.name ns = y at hlast ⊢
    cases hlast with
    | none => simp
    | some hv => simp [answer?, hv]

end Shape.OfJson
end TreeJudge

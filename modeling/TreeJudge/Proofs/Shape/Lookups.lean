import Mathlib.Data.List.Pairwise
import TreeJudge.Proofs.Shape.Accepted

/-!
# Records are read by lookups

The loop over the members meets the fields of a record in the order of the members. When
the fields change different places of the record, the order is of no account: the record
is what the changes of all fields make of its start, each looked up by its name. This is
so for every source whose readers answer for one input at a time.
-/

set_option autoImplicit false

namespace TreeJudge.Shape

section
variable {ε α β : Type} {x : Except ε α}

theorem toOption_eq_some {a : α} : x.toOption = some a ↔ x = .ok a := by
  cases x <;> simp [Except.toOption]

theorem toOption_map (f : α → β) (x : Except ε α) : (f <$> x).toOption = x.toOption.map f := by
  cases x <;> rfl

theorem toOption_bind (x : Except ε α) (f : α → Except ε β) :
    (x >>= f).toOption = x.toOption.bind fun a => (f a).toOption := by
  cases x <;> rfl

end

/-- A source whose readers have an answer for an input or have none. -/
class Answers (m : Type → Type) [Source m] (ι : outParam Type) where
  read? : {α : Type} → m α → ι → Option α
  read?_map : ∀ {α β : Type} (f : α → β) (r : m α) (i : ι),
    read? (Source.map f r) i = (read? r i).map f

export Answers (read? read?_map)

section
variable {α : Type}

def applied (a : Option α) (change : Option (α → α)) : Option α :=
  change.bind fun c => a.map c

@[simp] theorem applied_none (a : Option α) : applied a none = none := rfl

@[simp] theorem none_applied (change : Option (α → α)) : applied none change = none := by
  cases change <;> rfl

@[simp] theorem applied_some (a : Option α) (c : α → α) : applied a (some c) = a.map c := rfl

theorem foldl_applied_none (changes : List (Option (α → α))) :
    changes.foldl applied none = none := by
  induction changes with
  | nil => rfl
  | cons c changes ih => rw [List.foldl_cons, none_applied, ih]

theorem foldl_applied_of_none_mem {changes : List (Option (α → α))} (h : none ∈ changes)
    (a : Option α) : changes.foldl applied a = none := by
  induction changes generalizing a with
  | nil => cases h
  | cons c changes ih =>
    rcases List.mem_cons.mp h with rfl | h
    · exact foldl_applied_none changes
    · exact ih h _

theorem foldl_applied_id {changes : List (Option (α → α))} (h : ∀ c ∈ changes, c = some id)
    (a : Option α) : changes.foldl applied a = a := by
  induction changes with
  | nil => rfl
  | cons c changes ih =>
    obtain ⟨rfl, hrest⟩ := List.forall_mem_cons.mp h
    rw [List.foldl_cons, applied_some, Option.map_id, id, ih hrest]

def Commute (c d : Option (α → α)) : Prop :=
  ∀ f g, c = some f → d = some g → ∀ a, f (g a) = g (f a)

theorem Commute.applied {c d : Option (α → α)} (h : Commute c d) (a : Option α) :
    applied (applied a c) d = applied (applied a d) c := by
  cases c with
  | none => simp
  | some f =>
    cases d with
    | none => simp
    | some g =>
      cases a with
      | none => rfl
      | some a => exact congrArg some (h f g rfl rfl a).symm

end

section
variable {m : Type → Type} [Source m] {ι : Type} [Answers m ι] {α β γ : Type}

/-- The fields have different names and change different places of the record. -/
structure Apart (f g : Field m α) : Prop where
  name : f.name ≠ g.name
  commute : ∀ v w, Commute (read? f.read v) (read? g.read w)

theorem Apart.symm {f g : Field m α} (h : Apart f g) : Apart g f :=
  ⟨h.name.symm, fun v w d c hd hc a => (h.commute w v c d hc hd a).symm⟩

instance : Std.Symm (@Apart m _ ι _ α) := ⟨fun _ _ => Apart.symm⟩

theorem apart_fields {name name' : String} {needed needed' : Bool} {read : m β} {read' : m γ}
    {put : β → α → α} {put' : γ → α → α} (hname : name ≠ name')
    (hput : ∀ b c a, put b (put' c a) = put' c (put b a)) :
    @Apart m _ ι _ α ⟨name, needed, Source.map put read⟩
      ⟨name', needed', Source.map put' read'⟩ := by
  refine ⟨hname, fun v w c d hc hd a => ?_⟩
  rw [read?_map, Option.map_eq_some_iff] at hc hd
  obtain ⟨b, -, rfl⟩ := hc
  obtain ⟨b', -, rfl⟩ := hd
  exact hput b b' a

/-- What a field may make of a record: the change of some value, or none at all. -/
def MadeBy (f : Field m α) (change : Option (α → α)) : Prop :=
  ∀ c, change = some c → c = id ∨ ∃ v, read? f.read v = some c

theorem Apart.commute_made {f g : Field m α} (h : Apart f g) {c d : Option (α → α)}
    (hc : MadeBy f c) (hd : MadeBy g d) : Commute c d := by
  intro x y hx hy a
  rcases hc x hx with rfl | ⟨v, hv⟩
  · rfl
  · rcases hd y hy with rfl | ⟨w, hw⟩
    · rfl
    · exact h.commute v w x y hv hw a

theorem exists_perm_cons {fields : List (Field m α)} (h : fields.Pairwise Apart)
    {f : Field m α} (hf : f ∈ fields) :
    ∃ others, (f :: others).Perm fields ∧ ∀ g ∈ others, Apart f g := by
  obtain ⟨before, after, rfl⟩ := List.append_of_mem hf
  have hperm : (f :: (before ++ after)).Perm (before ++ f :: after) := List.perm_middle.symm
  exact ⟨before ++ after, hperm,
    (List.pairwise_cons.mp (hperm.symm.pairwise h fun h => h.symm)).1⟩

theorem foldl_applied_perm {fields others : List (Field m α)} (h : fields.Pairwise Apart)
    (hperm : others.Perm fields) {change : Field m α → Option (α → α)}
    (hchange : ∀ f, MadeBy f (change f)) (a : Option α) :
    (others.map change).foldl applied a = (fields.map change).foldl applied a := by
  refine (hperm.map change).foldl_eq' (fun c hc d hd a => ?_) a
  obtain ⟨f, hf, rfl⟩ := List.mem_map.mp hc
  obtain ⟨g, hg, rfl⟩ := List.mem_map.mp hd
  by_cases hfg : f = g
  · rw [hfg]
  · have hapart := h.forall (hperm.mem_iff.mp hf) (hperm.mem_iff.mp hg) hfg
    exact (hapart.commute_made (hchange f) (hchange g)).applied a

def part (ms : List (String × ι)) (seen : List String) (f : Field m α) : Option (α → α) :=
  match ms.lookup f.name with
  | some v => read? f.read v
  | none => if f.required && !seen.contains f.name then none else some id

section
variable {ms : List (String × ι)} {seen : List String} {f : Field m α}

theorem madeBy_part : MadeBy f (part ms seen f) := by
  intro c h
  unfold part at h
  split at h
  · next v _ => exact .inr ⟨v, h⟩
  · split at h
    · cases h
    · exact .inl (Option.some.inj h).symm

theorem part_nil :
    part [] seen f = if f.required && !seen.contains f.name then none else some id := rfl

theorem part_same {key : String} (v : ι) (h : f.name = key) :
    part ((key, v) :: ms) seen f = read? f.read v := by
  simp [part, h]

theorem part_seen (hnew : f.name ∉ ms.map Prod.fst) :
    part ms (f.name :: seen) f = some id := by
  have hnone : ms.lookup f.name = none := by
    rw [List.lookup_eq_none_iff]
    intro m hm
    simpa using fun h => hnew (List.mem_map.mpr ⟨m, hm, h.symm⟩)
  simp [part, hnone]

theorem part_other {key : String} {v : ι} (h : f.name ≠ key) :
    part ((key, v) :: ms) seen f = part ms seen f := by
  have hne : (f.name == key) = false := by simpa using h
  simp only [part, List.lookup_cons, hne]

theorem part_other_seen {key : String} (h : f.name ≠ key) :
    part ms (key :: seen) f = part ms seen f := by
  simp [part, h]

end

def taken (r : Record m α) : List (String × ι) → List String → α → Option α
  | [], seen, a =>
    if r.fields.any fun f => f.required && !seen.contains f.name then none else some a
  | (key, v) :: ms, seen, a =>
    match r.fields.find? (·.name == key) with
    | none => taken r ms seen a
    | some f => (read? f.read v).bind fun change => taken r ms (key :: seen) (change a)

/-- The loop over members with different keys is a fold over the fields. -/
theorem taken_eq {r : Record m α} (hr : r.fields.Pairwise Apart) {ms : List (String × ι)}
    (hkeys : (ms.map Prod.fst).Nodup) (seen : List String) (a : α) :
    taken r ms seen a = (r.fields.map (part ms seen)).foldl applied (some a) := by
  induction ms generalizing seen a with
  | nil =>
    rw [taken]
    split
    · next hmissing =>
      obtain ⟨f, hf, hneeded⟩ := List.any_eq_true.mp hmissing
      rw [foldl_applied_of_none_mem]
      exact List.mem_map.mpr ⟨f, hf, by rw [part_nil, if_pos hneeded]⟩
    · next hnone =>
      rw [foldl_applied_id]
      intro c hc
      obtain ⟨f, hf, rfl⟩ := List.mem_map.mp hc
      rw [part_nil, if_neg fun hneeded => hnone (List.any_eq_true.mpr ⟨f, hf, hneeded⟩)]
  | cons m ms ih =>
    obtain ⟨key, v⟩ := m
    obtain ⟨hnew, hlater⟩ := List.nodup_cons.mp hkeys
    rw [taken]
    split
    · next hfind =>
      have hother : ∀ f ∈ r.fields, f.name ≠ key := fun f hf hk =>
        List.find?_eq_none.mp hfind f hf (by simp [hk])
      rw [ih hlater, List.map_congr_left fun f hf => part_other (hother f hf)]
    · next f hfind =>
      have hf : f ∈ r.fields := List.mem_of_find?_eq_some hfind
      obtain rfl : f.name = key := by simpa using List.find?_some hfind
      -- the field of the member may come first, and the others do not notice that it was seen
      obtain ⟨others, hperm, hapart⟩ := exists_perm_cons hr hf
      have hothers : others.map (part ((f.name, v) :: ms) seen) =
          others.map (part ms (f.name :: seen)) := List.map_congr_left fun g hg => by
        rw [part_other (hapart g hg).name.symm, part_other_seen (hapart g hg).name.symm]
      rw [← foldl_applied_perm hr hperm fun _ => madeBy_part, List.map_cons, List.foldl_cons,
        part_same v rfl, hothers]
      cases read? f.read v with
      | none => simp [foldl_applied_none]
      | some change =>
        rw [Option.bind_some, ih hlater, ← foldl_applied_perm hr hperm fun _ => madeBy_part,
          List.map_cons, List.foldl_cons, part_seen hnew, applied_some, applied_some,
          Option.map_some, Option.map_some, id]

end

namespace OfJson
variable {α : Type}

instance : Answers OfJson Json where
  read? r v := (r.read v).toOption
  read?_map f r v := toOption_map f (r.read v)

theorem read?_eq_some {r : OfJson α} {v : Json} {a : α} :
    read? r v = some a ↔ r.read v = .ok a := toOption_eq_some

theorem toOption_fieldMembers (r : Record OfJson α) {ms : List (String × Json)}
    (hkeys : (ms.map Prod.fst).Nodup) {seen : List String} (hseen : ∀ m ∈ ms, m.1 ∉ seen)
    (a : α) : (fieldMembers r ms seen a).toOption = taken r ms seen a := by
  induction ms generalizing seen a with
  | nil =>
    rw [fieldMembers, taken, missing?, ← List.isSome_find?]
    cases r.fields.find? fun f => f.required && !seen.contains f.name <;> rfl
  | cons m ms ih =>
    obtain ⟨key, v⟩ := m
    obtain ⟨hnew, hlater⟩ := List.nodup_cons.mp hkeys
    obtain ⟨hfresh, hunseen⟩ := List.forall_mem_cons.mp hseen
    have hunseen' : ∀ m ∈ ms, m.1 ∉ key :: seen := fun m hm hmem =>
      (List.mem_cons.mp hmem).elim (fun hk => hnew (List.mem_map.mpr ⟨m, hm, hk⟩)) (hunseen m hm)
    rw [fieldMembers, taken]
    cases r.fields.find? (·.name == key) with
    | none => exact ih hlater hunseen a
    | some f =>
      simp only [if_neg (show ¬seen.contains key = true by simpa using hfresh), toOption_bind,
        ih hlater hunseen']
      rfl

theorem read?_record {r : Record OfJson α} (hr : r.fields.Pairwise Apart)
    {ms : List (String × Json)} (hkeys : (ms.map Prod.fst).Nodup) :
    read? (record r) (.obj ms) = (r.fields.map (part ms [])).foldl applied (some r.start) :=
  (toOption_fieldMembers r hkeys (by simp) r.start).trans (taken_eq hr hkeys [] r.start)

end OfJson
end TreeJudge.Shape

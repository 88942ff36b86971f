import Mathlib.Data.List.Basic
import TreeJudge.Proofs.Shape.Documents

/-!
# What stands in one place of a document

A document with a gap is read with anything that is put into the gap. When it is read at
all with one thing, then it is read with any other iff this is what belongs there, and
what is read differs at that place only.
-/

set_option autoImplicit false

namespace TreeJudge.Shape
open Json (last? resolveMembers)

inductive Step where
  | member (key : String)
  | item (index : Nat)
deriving Repr, DecidableEq

/-- The documents with a gap at the end of a path. The path goes through the members that
count, the last ones with their keys. -/
inductive Gap : List Step → (Json → Json) → Prop
  | here : Gap [] fun x => x
  | member {before after : List (String × Json)} {key : String} {path : List Step}
      {fill : Json → Json} (hlast : key ∉ after.map Prod.fst) (h : Gap path fill) :
      Gap (.member key :: path) fun x => .obj (before ++ (key, fill x) :: after)
  | item {before after : List Json} {path : List Step} {fill : Json → Json}
      (h : Gap path fill) :
      Gap (.item before.length :: path) fun x => .arr (before ++ fill x :: after)

variable {α β γ : Type}

/-- A part of what is read: how it is taken out, if it is there, and how another is put in
its place. -/
structure Part (α β : Type) where
  get? : α → Option β
  put : β → α → α

namespace Part

def field (get : α → β) (put : β → α → α) : Part α β := ⟨fun a => some (get a), put⟩

def item (index : Nat) : Part (List α) α := ⟨fun as => as[index]?, fun a as => as.set index a⟩

def comp (p : Part α β) (q : Part β γ) : Part α γ where
  get? a := (p.get? a).bind q.get?
  put c a := ((p.get? a).map fun b => p.put (q.put c b) a).getD a

end Part

namespace OfJson

/-- When a document can be read with something in its gap, this is read as the part, and
whatever else stands in the gap takes the place of the part, if it can be read itself. -/
def Replaces (r : OfJson α) (fill : Json → Json) (s : OfJson β) (p : Part α β) : Prop :=
  ∀ x a, r.answer? (fill x) = some a →
    (∃ b, s.answer? x = some b ∧ p.get? a = some b ∧ p.put b a = a) ∧
    ∀ y, r.answer? (fill y) = (s.answer? y).map (p.put · a)

section
variable {r : OfJson α} {s : OfJson β} {fill : Json → Json} {p : Part α β}

theorem Replaces.comp (h : Replaces r fill s p) {t : OfJson γ} {fill' : Json → Json}
    {q : Part β γ} (h' : Replaces s fill' t q) :
    Replaces r (fun x => fill (fill' x)) t (p.comp q) := by
  intro x a ha
  obtain ⟨⟨b, hb, hget, hself⟩, hall⟩ := h _ a ha
  obtain ⟨⟨c, hc, hget', hself'⟩, hall'⟩ := h' x b hb
  have hput : ∀ c, (p.comp q).put c a = p.put (q.put c b) a := fun c => by
    simp [Part.comp, hget]
  refine ⟨⟨c, hc, ?_, ?_⟩, fun y => ?_⟩
  · simp [Part.comp, hget, hget']
  · rw [hput, hself', hself]
  · rw [hall, hall', Option.map_map]
    simp only [hput, Function.comp_def]

theorem answer?_member {r : Record OfJson α} (hr : r.fields.Pairwise Apart) {key : String}
    {needed : Bool} {read : OfJson β} {put : β → α → α}
    (hf : ⟨key, needed, Source.map put read⟩ ∈ r.fields) (before : List (String × Json))
    {after : List (String × Json)} (hlast : key ∉ after.map Prod.fst) :
    ∃ others : Option α, ∀ x, (record r).answer? (.obj (before ++ (key, x) :: after)) =
      (read.answer? x).bind fun b => others.map (put b) := by
  obtain ⟨others, hperm, hapart⟩ := exists_perm_cons hr hf
  have hperm' := (List.perm_append_singleton _ others).trans hperm
  refine ⟨(resolveMembers (before ++ after)).bind fun _ =>
    (others.map (effect (before ++ after))).foldl applied (some r.start), fun x => ?_⟩
  have hothers : others.map (effect (before ++ (key, x) :: after)) =
      others.map (effect (before ++ after)) := List.map_congr_left fun g hg => by
    rw [effect, effect, Json.last?_middle_of_ne (hapart g hg).name]
  -- the member in the gap is the last one with its key, and no other field reads it
  have hself : effect (before ++ (key, x) :: after) (⟨key, needed, Source.map put read⟩ :
      Field OfJson α) = (read.answer? x).map put := by
    simp only [effect, Json.last?_middle_of_not_mem hlast, answer?_map]
  rw [answer?_record hr, ← foldl_applied_perm hr hperm' fun _ => madeBy_effect,
    List.map_append, List.foldl_append, hothers, List.map_singleton, hself]
  cases hx : read.answer? x with
  | none => simp
  | some b =>
    obtain ⟨v, hv, -⟩ := answer?_eq_some.mp hx
    have hresolve : (resolveMembers (before ++ (key, x) :: after)).isSome =
        (resolveMembers (before ++ after)).isSome := by
      rw [Bool.eq_iff_iff]
      simp only [Json.isSome_resolveMembers, List.forall_mem_append, List.forall_mem_cons, hv,
        Option.isSome_some, true_and]
    cases hms : resolveMembers (before ++ after) <;>
      cases hms' : resolveMembers (before ++ (key, x) :: after) <;> simp_all

theorem replaces_member {r : Record OfJson α} (hr : r.fields.Pairwise Apart) {key : String}
    {needed : Bool} {read : OfJson β} {get : α → β} {put : β → α → α}
    (hf : ⟨key, needed, Source.map put read⟩ ∈ r.fields) (hget : ∀ b a, get (put b a) = b)
    (hput : ∀ b c a, put b (put c a) = put b a) {before after : List (String × Json)}
    (hlast : key ∉ after.map Prod.fst) :
    Replaces (record r) (fun x => .obj (before ++ (key, x) :: after)) read
      (.field get put) := by
  obtain ⟨others, hall⟩ := answer?_member hr hf before hlast
  intro x a ha
  rw [hall, Option.bind_eq_some_iff] at ha
  obtain ⟨b, hb, ha⟩ := ha
  obtain ⟨a, rfl, rfl⟩ := Option.map_eq_some_iff.mp ha
  refine ⟨⟨b, hb, congrArg some (hget b a), hput b b a⟩, fun y => ?_⟩
  simp only [hall, Part.field, Option.map_some, hput]
  cases read.answer? y <;> rfl

theorem replaces_item (item : OfJson α) (before after : List Json) :
    Replaces (list item) (fun x => .arr (before ++ x :: after)) item
      (.item before.length) := by
  intro x as has
  rw [answer?_list, List.map_append, List.map_cons, eq_comm, List.map_eq_append_iff] at has
  obtain ⟨bs, cs, rfl, hbefore, hrest⟩ := has
  obtain ⟨b, cs, rfl, hb, hafter⟩ := List.map_eq_cons_iff.mp hrest
  have hlength : bs.length = before.length := by
    simpa using congrArg List.length hbefore
  have hput : ∀ c, (Part.item before.length).put c (bs ++ b :: cs) = bs ++ c :: cs := fun c => by
    simp [Part.item, ← hlength]
  refine ⟨⟨b, hb.symm, by simp [Part.item, ← hlength], hput b⟩, fun y => ?_⟩
  simp only [hput]
  ext as
  rw [answer?_list, List.map_append, List.map_cons, ← hbefore, ← hafter]
  cases hy : item.answer? y with
  | none =>
    have hnone : bs.map some ++ none :: cs.map some ≠ as.map some := fun h => by
      have hmem : none ∈ as.map some := h ▸ by simp
      simp at hmem
    simp [hnone]
  | some c =>
    rw [Option.map_some, Option.some.injEq, ← List.map_cons, ← List.map_append,
      List.map_inj_right fun _ _ h => Option.some.inj h]

end

end OfJson
end TreeJudge.Shape

import TreeJudge.Proofs.Shape.Lookups
import TreeJudge.Proofs.Toml.Tables
import TreeJudge.Shape.OfToml

/-!
# Records in tables are read by lookups

A record whose fields change different places of it is read from a table with different
keys as what the changes of its fields make of the start, each looked up by its name. Keys
of no field are passed over, and one value of a wrong type is enough for nothing to be read.
-/

set_option autoImplicit false

namespace TreeJudge.Shape.OfToml
open Toml

variable {α β : Type}

instance : Answers OfToml Item where
  read? r i := (r.read i).toOption
  read?_map f r i := toOption_map f (r.read i)

theorem read?_eq_some {r : OfToml α} {i : Item} {a : α} :
    read? r i = some a ↔ r.read i = .ok a := toOption_eq_some

def members (es : List (Key × Item)) : List (String × Item) := es.map fun e => (e.1.name, e.2)

theorem lookup_members (es : List (Key × Item)) (name : String) :
    (members es).lookup name = (es.find? (·.1.name == name)).map (·.2) := by
  induction es with
  | nil => rfl
  | cons e es ih =>
    by_cases h : e.1.name = name
    · simp [members, h]
    · have hne : (name == e.1.name) = false := by simpa using Ne.symm h
      rw [members, List.map_cons, List.lookup_cons, hne, List.find?_cons_of_neg (by simpa using h)]
      exact ih

theorem toOption_fieldEntries (r : Record OfToml α) (es : List (Key × Item))
    (seen : List String) (a : α) :
    (fieldEntries r es seen a).toOption = taken r (members es) seen a := by
  induction es generalizing seen a with
  | nil =>
    rw [fieldEntries, members, List.map_nil, taken, ← List.isSome_find?]
    cases r.fields.find? fun f => f.required && !seen.contains f.name <;> rfl
  | cons e es ih =>
    rw [fieldEntries, members, List.map_cons, taken]
    cases r.fields.find? (·.name == e.1.name) with
    | none => exact ih seen a
    | some f =>
      have hkey : (atKey e.1 (f.read.read e.2)).toOption = read? f.read e.2 := by
        change ((f.read.read e.2).mapError _).toOption = (f.read.read e.2).toOption
        cases f.read.read e.2 <;> rfl
      simp only [toOption_bind, hkey, ih]
      rfl

/-- A record in a table is its start after the changes of all its fields. -/
theorem read?_record {r : Record OfToml α} (hr : r.fields.Pairwise Apart) {t : Table}
    (ht : t.names.Nodup) :
    read? (record r) (.table t) =
      (r.fields.map (part (members t.entries) [])).foldl applied (some r.start) := by
  have hkeys : ((members t.entries).map Prod.fst).Nodup := by
    rw [members, List.map_map]
    exact ht
  exact (toOption_fieldEntries r t.entries [] r.start).trans (taken_eq hr hkeys [] r.start)

def lookup (t : Table) (name : String) (read : OfToml β) (standard : β) : Option β :=
  match t.find? name with
  | some i => read? read i
  | none => some standard

theorem applied_part {t : Table} {name : String} {read : OfToml β} {put : β → α → α} {a : α}
    (standard : β) (h : put standard a = a) :
    applied (some a) (part (members t.entries) [] (optional name read put)) =
      (lookup t name read standard).map (put · a) := by
  have hread (i : Item) : read? (optional name read put).read i = (read? read i).map put :=
    read?_map put read i
  have hname : (optional name read put).name = name := rfl
  have hrequired : (optional name read put).required = false := rfl
  unfold part lookup Table.find?
  simp only [hname, hread, hrequired, lookup_members]
  cases t.entries.find? (·.1.name == name) with
  | none => simp [h]
  | some e =>
    cases he : read? read e.2 with
    | none => simp [he]
    | some b => simp [he]

theorem read?_only {r : Record OfToml α} {name : String} {read : OfToml α}
    (hr : r.fields = [optional name read fun b _ => b]) {t : Table} (ht : t.names.Nodup) :
    read? (record r) (.table t) = lookup t name read r.start := by
  have hapart : r.fields.Pairwise Apart := hr ▸ List.pairwise_singleton _ _
  rw [read?_record hapart ht, hr]
  exact (applied_part r.start rfl).trans Option.map_id'

end TreeJudge.Shape.OfToml

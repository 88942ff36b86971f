import TreeJudge.Shape.Record
import TreeJudge.Tree.Identifier

/-!
# Records from JSON values

A record stands as an object or as the list of its fields. Members are looked
at in their order, so the first bad one is reported, and a missing field only
when all that are there are good.
-/

set_option autoImplicit false

namespace TreeJudge.Shape

structure OfJson (α : Type) where
  read : Json → Except Fault α

namespace OfJson

def text : OfJson String := ⟨fun
  | .str s => .ok s
  | v => .error (.wrongType v.found expectedText)⟩

def flag : OfJson Bool := ⟨fun
  | .bool b => .ok b
  | v => .error (.wrongType v.found expectedFlag)⟩

def identifier : OfJson NodeId := ⟨fun v =>
  match NodeId.ofJson? v with
  | some id => .ok id
  | none => .error .noIdentifier⟩

def anything : OfJson Json := ⟨.ok⟩

section
variable {α : Type}

def all (read : Json → Except Fault α) : List Json → Except Fault (List α)
  | [] => .ok []
  | v :: vs => do
    let a ← read v
    let as ← all read vs
    .ok (a :: as)

def list (item : OfJson α) : OfJson (List α) := ⟨fun
  | .arr vs => all item.read vs
  | v => .error (.wrongType v.found expectedList)⟩

def fieldItems (r : Record OfJson α) (total : Nat) :
    List (Field OfJson α) → List Json → α → Except Fault α
  | [], [], a => .ok a
  | [], _ :: _, _ => .error (.tooLong total r.fields.length)
  | f :: fs, [], a =>
    if f.required then .error (.tooShort total r.name r.fields.length)
    else fieldItems r total fs [] a
  | f :: fs, v :: vs, a => do
    let change ← f.read.read v
    fieldItems r total fs vs (change a)

def missing? (fields : List (Field OfJson α)) (seen : List String) : Option String :=
  (fields.find? fun f => f.required && !seen.contains f.name).map (·.name)

def fieldMembers (r : Record OfJson α) :
    List (String × Json) → List String → α → Except Fault α
  | [], seen, a =>
    match missing? r.fields seen with
    | some name => .error (.missing name)
    | none => .ok a
  | (key, v) :: rest, seen, a =>
    match r.fields.find? (·.name == key) with
    | none => fieldMembers r rest seen a
    | some f =>
      if seen.contains key then .error (.repeated key)
      else do
        let change ← f.read.read v
        fieldMembers r rest (key :: seen) (change a)

def record (r : Record OfJson α) : OfJson α := ⟨fun
  | .obj members => fieldMembers r members [] r.start
  | .arr items => fieldItems r items.length r.fields items r.start
  | v => .error (.wrongType v.found r.expected)⟩

end

instance : TreeSource OfJson where
  map f r := ⟨fun v => f <$> r.read v⟩
  text := text
  flag := flag
  record := record
  identifier := identifier
  list := list

end OfJson
end TreeJudge.Shape

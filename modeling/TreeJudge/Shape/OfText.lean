import TreeJudge.Shape.Record
import TreeJudge.Json.Reader
import TreeJudge.Json.Skip
import TreeJudge.Tree.Identifier

/-!
# Records from JSON text

Text is read straight into records, so that a fault is known by its place. A
record stands as an object or as the list of its fields; members of other names
are passed over.
-/

set_option autoImplicit false

namespace TreeJudge.Shape
open Json

structure OfText (α : Type) where
  read : Nat → Reader α

namespace OfText

def wrong {α : Type} (expected : String) (found : Found) (rest : List Char) : Reads α :=
  .error (.here (.shape (.wrongType found expected)) rest)

/-- What else stands at the first character. A scalar is read over, a container
is not entered. -/
def mismatch {α : Type} (expected : String) (cs : List Char) : Reads α :=
  match cs with
  | '[' :: _ => wrong expected .sequence cs
  | '{' :: _ => wrong expected .map cs
  | cs => do
    let (v, rest) ← scalar cs
    wrong expected v.found rest

def text : OfText String := ⟨fun _ cs =>
  match skipSpace cs with
  | '"' :: r => string r
  | r => mismatch expectedText r⟩

def flag : OfText Bool := ⟨fun _ cs =>
  match skipSpace cs with
  | 't' :: r => (true, ·) <$> word ['r', 'u', 'e'] r
  | 'f' :: r => (false, ·) <$> word ['a', 'l', 's', 'e'] r
  | r => mismatch expectedFlag r⟩

def identifier : OfText NodeId := ⟨fun allowed cs => do
  let (v, rest) ← value allowed cs
  match NodeId.ofJson? v with
  | some id => .ok (id, rest)
  | none => .error (.pending (.shape .noIdentifier) rest)⟩

section
variable {α : Type}

/-- A container is left at its end whether or not its items could be read; a
problem with them comes first and, if it has no place yet, gets this one. -/
def leave (result : Reads (α × List Char)) (finish : List Char → Option Problem × List Char) :
    Reads (α × List Char) :=
  match result with
  | .ok (v, cs) => closing v (finish cs)
  | .error (.pending c cs) => .error (.here c (finish cs).2)
  | .error p => .error p

def list (item : OfText α) : OfText (List α) := ⟨fun allowed cs =>
  match skipSpace cs with
  | '[' :: r =>
    match allowed with
    | 0 => .error (.next .tooDeep ('[' :: r))
    | n + 1 => leave (items (item.read n) r) endList
  | r => mismatch expectedList r⟩

def fieldItems (record : Record OfText α) (allowed : Nat) :
    List (Field OfText α) → Nat → Bool → α → List Char → Reads (α × List Char)
  | [], _, _, v, cs => .ok (v, cs)
  | f :: fs, n, first, v, cs => do
    match ← atItem first cs with
    | (true, cs) =>
      let (change, cs) ← f.read.read allowed cs
      fieldItems record allowed fs (n + 1) false (change v) cs
    | (false, cs) =>
      if f.required then
        .error (.pending (.shape (.tooShort n record.name record.fields.length)) cs)
      else fieldItems record allowed fs (n + 1) first v cs

def missing? (fields : List (Field OfText α)) (seen : List String) : Option String :=
  (fields.find? fun f => f.required && !seen.contains f.name).map (·.name)

/-- The members of a record, with the names of the fields seen so far. The first
text is a clock that ticks with each member. -/
def fieldMembers (record : Record OfText α) (allowed : Nat) :
    List Char → Bool → List String → α → List Char → Reads (α × List Char)
  | [], _, _, _, _ => .error (.next .endInObject [])
  | _ :: clock, first, seen, v, cs => do
    match ← atKey first cs with
    | (none, cs) =>
      match missing? record.fields seen with
      | some name => .error (.pending (.shape (.missing name)) cs)
      | none => .ok (v, cs)
    | (some key, cs) =>
      match record.fields.find? (·.name == key) with
      | none =>
        let cs ← colon cs
        let cs ← skipValue cs
        fieldMembers record allowed clock false seen v cs
      | some f =>
        if seen.contains key then .error (.pending (.shape (.repeated key)) cs)
        else
          let cs ← colon cs
          let (change, cs) ← f.read.read allowed cs
          fieldMembers record allowed clock false (key :: seen) (change v) cs

def record (r : Record OfText α) : OfText α := ⟨fun allowed cs =>
  match skipSpace cs with
  | '[' :: rest =>
    match allowed with
    | 0 => .error (.next .tooDeep ('[' :: rest))
    | n + 1 => leave (fieldItems r n r.fields 0 true r.start rest) endList
  | '{' :: rest =>
    match allowed with
    | 0 => .error (.next .tooDeep ('{' :: rest))
    | n + 1 => leave (fieldMembers r n rest true [] r.start rest) endObject
  | rest => mismatch r.expected rest⟩

end

instance : TreeSource OfText where
  map f r := ⟨fun allowed cs => (fun p => (f p.1, p.2)) <$> r.read allowed cs⟩
  text := text
  flag := flag
  record := record
  identifier := identifier
  list := list

def parse {α : Type} (r : OfText α) (text : String) : Reads α :=
  complete (r.read deepest) text

end OfText
end TreeJudge.Shape

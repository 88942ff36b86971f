import TreeJudge.Shape.Fault
import TreeJudge.Shape.Record
import TreeJudge.Decimal.Layout
import TreeJudge.Toml.Basic

/-!
# Records from TOML items

A record stands as a table or as an array of its fields, whose further items
are passed over. A date counts as a table with nothing in it. A fault comes with
the span of the item, or of its key when the item has none.
-/

set_option autoImplicit false

namespace TreeJudge.Shape
open Toml

structure SpannedFault where
  fault : Fault
  span : Option Span
deriving Repr, DecidableEq

structure OfToml (α : Type) where
  read : Item → Except SpannedFault α

namespace OfToml

/-- A number with a fraction as a message shows it: never with an exponent. -/
def floatText (x : Float) : String :=
  if x.isNaN then "NaN"
  else if x.isInf then if x < 0 then "-inf" else "inf"
  else String.ofList (Layout.plain.writeFloat x)

def found : Item → Found
  | .scalar (.text s) _ => .text s
  | .scalar (.integer n) _ => .integer n
  | .scalar (.float x) _ => .float (floatText x)
  | .scalar (.boolean b) _ => .boolean b
  | .scalar .date _ => .map
  | .array _ _ => .sequence
  | .table _ => .map
  | .tables _ => .sequence

def mismatch {α : Type} (expected : String) (i : Item) : Except SpannedFault α :=
  .error ⟨.wrongType (found i) expected, i.span?⟩

def text : OfToml String := ⟨fun
  | .scalar (.text s) _ => .ok s
  | i => mismatch expectedText i⟩

def flag : OfToml Bool := ⟨fun
  | .scalar (.boolean b) _ => .ok b
  | i => mismatch expectedFlag i⟩

section
variable {α : Type}

def fieldItems (r : Record OfToml α) (total : Nat) :
    List (Field OfToml α) → List Item → α → Except SpannedFault α
  | [], _, a => .ok a
  | f :: fs, [], a =>
    if f.required then .error ⟨.tooShort total r.name r.fields.length, none⟩
    else fieldItems r total fs [] a
  | f :: fs, i :: is, a => do
    let change ← f.read.read i
    fieldItems r total fs is (change a)

def atKey {β : Type} (k : Key) (result : Except SpannedFault β) : Except SpannedFault β :=
  result.mapError fun e => { e with span := e.span <|> some k.span }

def fieldEntries (r : Record OfToml α) :
    List (Key × Item) → List String → α → Except SpannedFault α
  | [], seen, a =>
    match r.fields.find? fun f => f.required && !seen.contains f.name with
    | some f => .error ⟨.missing f.name, none⟩
    | none => .ok a
  | (k, i) :: rest, seen, a =>
    match r.fields.find? (·.name == k.name) with
    | none => fieldEntries r rest seen a
    | some f => do
      let change ← atKey k (f.read.read i)
      fieldEntries r rest (k.name :: seen) (change a)

def record (r : Record OfToml α) : OfToml α := ⟨fun i =>
  match i with
  | .table t => fieldEntries r t.entries [] r.start
  | .scalar .date _ => fieldEntries r [] [] r.start
  | .array items _ => fieldItems r items.length r.fields items r.start
  | .tables ts => fieldItems r ts.length r.fields (ts.map .table) r.start
  | i => mismatch r.expected i⟩

end

instance : Source OfToml where
  map f r := ⟨fun i => f <$> r.read i⟩
  text := text
  flag := flag
  record := record

end OfToml
end TreeJudge.Shape

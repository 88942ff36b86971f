import TreeJudge.Json.Writer
import TreeJudge.Shape.OfText

/-!
# Answers

The operator answers Yes or No. On the wire an answer is a JSON string without
any envelope.
-/

set_option autoImplicit false

namespace TreeJudge
open Shape

inductive Answer where
  | yes
  | no
deriving Repr, DecidableEq

namespace Answer

def token : Answer → String
  | .yes => "Yes"
  | .no => "No"

def ofToken? (s : String) : Option Answer :=
  if s = "Yes" then some .yes else if s = "No" then some .no else none

def encode (a : Answer) : String := Json.compact (.str a.token)

def decode? (frame : String) : Option Answer :=
  match OfText.parse OfText.text frame with
  | .ok s => ofToken? s
  | .error _ => none

theorem encode_yes : yes.encode = "\"Yes\"" := by decide +kernel

theorem encode_no : no.encode = "\"No\"" := by decide +kernel

theorem ofToken?_token (a : Answer) : ofToken? a.token = some a := by
  cases a <;> rfl

open Json

def named (cs : List Char) : Reads (Answer × List Char) := do
  let (s, rest) ← Json.string cs
  match ofToken? s with
  | some a => .ok (a, rest)
  | none => .error (.here (.shape (.unknownAnswer s)) rest)

def unit (cs : List Char) : Reads (List Char) :=
  match skipSpace cs with
  | 'n' :: r => word ['u', 'l', 'l'] r
  | r => OfText.mismatch "unit" r

/-- An answer is its name, or an object with that name as its only key and null
as the value. -/
def reader : OfText Answer := ⟨fun allowed cs =>
  match skipSpace cs with
  | '"' :: r => named r
  | '{' :: r =>
    if allowed = 0 then .error (.next .tooDeep ('{' :: r))
    else
      match skipSpace r with
      | '"' :: r => do
        let (a, r) ← named r
        let r ← colon r
        let r ← unit r
        match skipSpace r with
        | '}' :: r => .ok (a, r)
        | [] => .error (.here .endInObject [])
        | r => .error (.here .expectedValue r)
      | '}' :: r => .error (.next .expectedValue ('}' :: r))
      | [] => .error (.here .endInObject [])
      | r => .error (.next .keyNotString r)
  | [] => .error (.next .endInValue [])
  | r => .error (.next .expectedValue r)⟩

end Answer
end TreeJudge

import TreeJudge.Text.Quoted

/-!
# Shape faults

A value may be well formed and still not have the shape that is asked for.
This module lists the ways and gives each its wording.
-/

set_option autoImplicit false

namespace TreeJudge.Shape

/-- What stood where another kind of value was expected. A number with a
fraction comes as the text of its own format. -/
inductive Found where
  | null
  | boolean (value : Bool)
  | integer (value : Int)
  | float (written : String)
  | text (value : String)
  | sequence
  | map
deriving Repr, DecidableEq

def Found.describe : Found → String
  | .null => "null"
  | .boolean b => "boolean `" ++ toString b ++ "`"
  | .integer n => "integer `" ++ toString n ++ "`"
  | .float w => "floating point `" ++ w ++ "`"
  | .text s => "string " ++ Text.quoted s
  | .sequence => "sequence"
  | .map => "map"

inductive Fault where
  | wrongType (found : Found) (expected : String)
  | missing (field : String)
  | repeated (field : String)
  | tooShort (length : Nat) (record : String) (fields : Nat)
  | tooLong (length used : Nat)
  | noIdentifier
  | unknownAnswer (name : String)
deriving Repr, DecidableEq

def counted (n : Nat) : String := toString n ++ if n = 1 then " element" else " elements"

def Fault.message : Fault → String
  | .wrongType found expected =>
    "invalid type: " ++ found.describe ++ ", expected " ++ expected
  | .missing field => "missing field `" ++ field ++ "`"
  | .repeated field => "duplicate field `" ++ field ++ "`"
  | .tooShort length record fields =>
    "invalid length " ++ toString length ++ ", expected struct " ++ record ++ " with " ++
      counted fields
  | .tooLong length used =>
    "invalid length " ++ toString length ++ ", expected " ++ counted used ++ " in sequence"
  | .noIdentifier => "data did not match any variant of untagged enum NodeId"
  | .unknownAnswer name => "unknown variant `" ++ name ++ "`, expected `Yes` or `No`"

end TreeJudge.Shape

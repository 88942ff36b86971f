import TreeJudge.Shape.Fault
import TreeJudge.Decimal.Layout

/-!
# JSON values

Objects keep their members in order of first appearance. Numbers are integers
or binary64 values, and the two kinds are never equal.
-/

set_option autoImplicit false

namespace TreeJudge

inductive Json where
  | null
  | bool (value : Bool)
  | int (value : Int)
  | float (value : Float)
  | str (value : String)
  | arr (items : List Json)
  | obj (members : List (String × Json))
deriving Repr, Inhabited

namespace Json

def lookup? (key : String) : List (String × Json) → Option Json
  | [] => none
  | (k, v) :: rest => if k = key then some v else lookup? key rest

def get? (key : String) : Json → Option Json
  | .obj members => lookup? key members
  | _ => none

/-- A key that is already present keeps its place and takes the new value. -/
def put (members : List (String × Json)) (key : String) (value : Json) :
    List (String × Json) :=
  match members with
  | [] => [(key, value)]
  | (k, v) :: rest => if k = key then (k, value) :: rest else (k, v) :: put rest key value

def ofMembers (members : List (String × Json)) : Json :=
  .obj (members.foldl (fun done m => put done m.1 m.2) [])

mutual

/-- Equality as readers of a value see it: the order of members does not
count, and floats are compared as numbers. -/
def same : Json → Json → Bool
  | .null, .null => true
  | .bool a, .bool b => a == b
  | .int a, .int b => a == b
  | .float a, .float b => a == b
  | .str a, .str b => a == b
  | .arr as, .arr bs => sameItems as bs
  | .obj as, .obj bs => as.length == bs.length && sameMembers as bs
  | _, _ => false

def sameItems : List Json → List Json → Bool
  | [], [] => true
  | a :: as, b :: bs => same a b && sameItems as bs
  | _, _ => false

def sameMembers : List (String × Json) → List (String × Json) → Bool
  | [], _ => true
  | (k, a) :: as, bs =>
    (match lookup? k bs with
     | some b => same a b
     | none => false) && sameMembers as bs

end

def numberLayout : Layout := .between (-5) 15

def floatText (x : Float) : String := String.ofList (numberLayout.writeFloat x)

def found : Json → Shape.Found
  | .null => .null
  | .bool b => .boolean b
  | .int n => .integer n
  | .float x => .float (floatText x)
  | .str s => .text s
  | .arr _ => .sequence
  | .obj _ => .map

end Json
end TreeJudge

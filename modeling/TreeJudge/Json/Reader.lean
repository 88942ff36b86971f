import TreeJudge.Json.Scan
import TreeJudge.Json.Number

/-!
# Reading JSON text

Arrays and objects nest at most 127 deep. The readers of items and members take
the reader of one element, so that the depth is the only recursion and the same
loops serve typed reading.
-/

set_option autoImplicit false

namespace TreeJudge.Json

def deepest : Nat := 127

def atItem (first : Bool) (cs : List Char) : Reads (Bool × List Char) :=
  match skipSpace cs with
  | [] => .error (.next .endInList [])
  | ']' :: r => .ok (false, ']' :: r)
  | c :: r =>
    if first then .ok (true, c :: r)
    else if c = ',' then
      match skipSpace r with
      | [] => .error (.next .endInValue [])
      | ']' :: r => .error (.next .trailingComma (']' :: r))
      | r => .ok (true, r)
    else .error (.next .expectedCommaOrBracket (c :: r))

def atKey (first : Bool) (cs : List Char) : Reads (Option String × List Char) :=
  match skipSpace cs with
  | [] => .error (.next .endInObject [])
  | '}' :: r => .ok (none, '}' :: r)
  | c :: r =>
    if first then
      if c = '"' then (fun p => (some p.1, p.2)) <$> string r
      else .error (.next .keyNotString (c :: r))
    else if c = ',' then
      match skipSpace r with
      | [] => .error (.next .endInValue [])
      | '"' :: r => (fun p => (some p.1, p.2)) <$> string r
      | '}' :: r => .error (.next .trailingComma ('}' :: r))
      | r => .error (.next .keyNotString r)
    else .error (.next .expectedCommaOrBrace (c :: r))

def colon (cs : List Char) : Reads (List Char) :=
  match skipSpace cs with
  | [] => .error (.next .endInObject [])
  | ':' :: r => .ok r
  | r => .error (.next .expectedColon r)

def endList (cs : List Char) : Option Problem × List Char :=
  match skipSpace cs with
  | [] => (some (.next .endInList []), [])
  | ']' :: r => (none, r)
  | ',' :: r =>
    match skipSpace r with
    | ']' :: r => (some (.next .trailingComma (']' :: r)), ']' :: r)
    | r => (some (.next .trailingCharacters r), r)
  | r => (some (.next .trailingCharacters r), r)

def endObject (cs : List Char) : Option Problem × List Char :=
  match skipSpace cs with
  | [] => (some (.next .endInObject []), [])
  | '}' :: r => (none, r)
  | ',' :: r => (some (.next .trailingComma (',' :: r)), ',' :: r)
  | r => (some (.next .trailingCharacters r), r)

section
variable {α : Type}

/-- Items up to the closing bracket, which stays. The first text is a clock that
ticks with each item. -/
def itemLoop (item : Reader α) : List Char → Bool → Reader (List α)
  | [], _, _ => .error (.next .endInList [])
  | _ :: clock, first, cs => do
    match ← atItem first cs with
    | (false, cs) => .ok ([], cs)
    | (true, cs) =>
      let (v, cs) ← item cs
      let (vs, cs) ← itemLoop item clock false cs
      .ok (v :: vs, cs)

def items (item : Reader α) (cs : List Char) : Reads (List α × List Char) :=
  itemLoop item cs true cs

def memberLoop (item : Reader α) : List Char → Bool → Reader (List (String × α))
  | [], _, _ => .error (.next .endInObject [])
  | _ :: clock, first, cs => do
    match ← atKey first cs with
    | (none, cs) => .ok ([], cs)
    | (some k, cs) =>
      let cs ← colon cs
      let (v, cs) ← item cs
      let (ms, cs) ← memberLoop item clock false cs
      .ok ((k, v) :: ms, cs)

def members (item : Reader α) (cs : List Char) :
    Reads (List (String × α) × List Char) :=
  memberLoop item cs true cs

def closing (v : α) : Option Problem × List Char → Reads (α × List Char)
  | (none, cs) => .ok (v, cs)
  | (some p, _) => .error p

end

def scalar (cs : List Char) : Reads (Json × List Char) :=
  match cs with
  | [] => .error (.next .endInValue [])
  | 'n' :: r => (Json.null, ·) <$> word ['u', 'l', 'l'] r
  | 't' :: r => (Json.bool true, ·) <$> word ['r', 'u', 'e'] r
  | 'f' :: r => (Json.bool false, ·) <$> word ['a', 'l', 's', 'e'] r
  | '-' :: r => number true r
  | '"' :: r => (fun p => (Json.str p.1, p.2)) <$> string r
  | c :: r =>
    if isDigit c then number false (c :: r) else .error (.next .expectedValue (c :: r))

/-- A value whose items are read by `item`; without it no container may open. -/
def valueWith (item : Option (Reader Json)) (cs : List Char) : Reads (Json × List Char) :=
  match skipSpace cs with
  | '[' :: r =>
    match item with
    | none => .error (.next .tooDeep ('[' :: r))
    | some item => do
      let (vs, r) ← items item r
      closing (.arr vs) (endList r)
  | '{' :: r =>
    match item with
    | none => .error (.next .tooDeep ('{' :: r))
    | some item => do
      let (ms, r) ← members item r
      closing (ofMembers ms) (endObject r)
  | r => scalar r

def value : Nat → Reader Json
  | 0 => valueWith none
  | n + 1 => valueWith (some (value n))

def atEnd (cs : List Char) : Reads Unit :=
  match skipSpace cs with
  | [] => .ok ()
  | r => .error (.next .trailingCharacters r)

def complete {α : Type} (read : Reader α) (text : String) : Reads α := do
  let (v, rest) ← read text.toList
  atEnd rest
  .ok v

def parse (text : String) : Reads Json := complete (value deepest) text

end TreeJudge.Json

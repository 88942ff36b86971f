import TreeJudge.Json.Number
import TreeJudge.Json.Scan

/-!
# Passing over JSON text

A value that nobody asked for is only checked for its grammar: it may nest to
any depth, its numbers may be too large and its escapes may name half a
surrogate pair. The open containers are kept on a stack.
-/

set_option autoImplicit false

namespace TreeJudge.Json

def skipStringBody : List Char → List Char → Reads (List Char)
  | [], _ => .error (.here .endInString [])
  | _ :: _, [] => .error (.here .endInString [])
  | _ :: _, '"' :: cs => .ok cs
  | _ :: _, ['\\'] => .error (.here .endInString [])
  | _ :: clock, '\\' :: 'u' :: cs => do
    let (_, cs) ← hexQuad cs
    skipStringBody clock cs
  | _ :: clock, '\\' :: c :: cs =>
    if (letterEscape? c).isSome then skipStringBody clock cs
    else .error (.next .invalidEscape (c :: cs))
  | _ :: clock, c :: cs =>
    if c.toNat < 0x20 then .error (.here .controlInString (c :: cs))
    else skipStringBody clock cs

def skipString (cs : List Char) : Reads (List Char) := skipStringBody cs cs

def skipExponent (cs : List Char) : Reads (List Char) :=
  let cs := match cs with
    | '+' :: r | '-' :: r => r
    | r => r
  match cs with
  | c :: r => if isDigit c then .ok (r.dropWhile isDigit) else .error (.next .invalidNumber cs)
  | [] => .error (.here .invalidNumber [])

def skipPower (cs : List Char) : Reads (List Char) :=
  match cs with
  | 'e' :: r | 'E' :: r => skipExponent r
  | r => .ok r

def skipFraction (cs : List Char) : Reads (List Char) :=
  match cs with
  | '.' :: r =>
    match r with
    | c :: _ =>
      if isDigit c then skipPower (r.dropWhile isDigit) else .error (.next .invalidNumber r)
    | [] => .error (.next .invalidNumber [])
  | r => skipPower r

def skipNumber (cs : List Char) : Reads (List Char) :=
  match cs with
  | '0' :: c :: r =>
    if isDigit c then .error (.next .invalidNumber (c :: r)) else skipFraction (c :: r)
  | c :: r =>
    if isDigit c then skipFraction (if c = '0' then r else r.dropWhile isDigit)
    else .error (.next .invalidNumber cs)
  | [] => .error (.here .invalidNumber [])

inductive Container where
  | list
  | object
deriving Repr, DecidableEq

def skipScalar (cs : List Char) : Reads (List Char) :=
  match cs with
  | [] => .error (.next .endInValue [])
  | 'n' :: r => word ['u', 'l', 'l'] r
  | 't' :: r => word ['r', 'u', 'e'] r
  | 'f' :: r => word ['a', 'l', 's', 'e'] r
  | '-' :: r => skipNumber r
  | '"' :: r => skipString r
  | c :: r => if isDigit c then skipNumber (c :: r) else .error (.next .expectedValue (c :: r))

def skipKey (top : Container) (cs : List Char) : Reads (List Char) :=
  match top with
  | .list => .ok cs
  | .object =>
    match skipSpace cs with
    | [] => .error (.next .endInObject [])
    | '"' :: r => do
      let r ← skipString r
      match skipSpace r with
      | [] => .error (.next .endInObject [])
      | ':' :: r => .ok r
      | r => .error (.next .expectedColon r)
    | r => .error (.next .keyNotString r)

def Container.close : Container → Char
  | .list => ']'
  | .object => '}'

def Container.endInside : Container → Cause
  | .list => .endInList
  | .object => .endInObject

def Container.expectedComma : Container → Cause
  | .list => .expectedCommaOrBracket
  | .object => .expectedCommaOrBrace

/-- The start of a value, which opens a container or is a whole scalar. A container
that has just opened comes with the flag that its first item is due. -/
def skipStart (stack : List Container) (cs : List Char) :
    Reads (List Container × Bool × List Char) :=
  match skipSpace cs with
  | '[' :: r => .ok (.list :: stack, true, r)
  | '{' :: r => .ok (.object :: stack, true, r)
  | r => (stack, false, ·) <$> skipScalar r

def skipStep (top : Container) (below : List Container) (first : Bool) (cs : List Char) :
    Reads (List Container × Bool × List Char) :=
  match skipSpace cs with
  | [] => .error (.next top.endInside [])
  | c :: r =>
    if c = top.close then .ok (below, false, r)
    else if first then do
      let r ← skipKey top (c :: r)
      skipStart (top :: below) r
    else if c = ',' then do
      let r ← skipKey top r
      skipStart (top :: below) r
    else .error (.next top.expectedComma (c :: r))

/-- Steps until no container is open. The first text is a clock that ticks with
each step. -/
def skipLoop : List Char → List Container → Bool → List Char → Reads (List Char)
  | _, [], _, cs => .ok cs
  | [], top :: _, _, _ => .error (.next top.endInside [])
  | _ :: clock, top :: below, first, cs => do
    let (stack, first, cs) ← skipStep top below first cs
    skipLoop clock stack first cs

def skipValue (cs : List Char) : Reads (List Char) := do
  let (stack, first, rest) ← skipStart [] cs
  skipLoop cs stack first rest

end TreeJudge.Json

/-!
# Writing TOML strings

A string takes the first of four plain forms that can hold it, and a form with
escapes when none can: on one line in double or single quotes, then on several
lines in three of them.
-/

set_option autoImplicit false

namespace TreeJudge.Toml

def isControl (c : Char) : Bool :=
  (c.toNat < 0x20 && c != '\t' && c != '\n') || c.toNat == 0x7F

def longestRun (x : Char) (cs : List Char) : Nat :=
  (cs.foldl (fun (run, best) c => if c == x then (run + 1, max best (run + 1)) else (0, best))
    (0, 0)).2

inductive Form where
  | basic
  | literal
  | basicLines
  | literalLines
deriving Repr, DecidableEq

/-- The form of a string, and whether it needs escapes. A tab is written as an
escape in every form with double quotes. -/
def formOf (cs : List Char) : Form × Bool :=
  let controls := cs.any isControl
  let lines := cs.contains '\n'
  let slashes := cs.contains '\\'
  if !controls && !slashes && !cs.contains '"' && !lines then (.basic, false)
  else if !controls && !cs.contains '\'' && !lines then (.literal, false)
  else if !controls && !slashes && longestRun '"' cs ≤ 2 then (.basicLines, false)
  else if !controls && longestRun '\'' cs ≤ 2 then (.literalLines, false)
  else (if lines then .basicLines else .basic, true)

def hexUpper (n : Nat) : Char :=
  if n < 10 then Char.ofNat ('0'.toNat + n) else Char.ofNat ('A'.toNat + (n - 10))

def writeChar (lines : Bool) (c : Char) : List Char :=
  match c with
  | '\x08' => ['\\', 'b']
  | '\t' => ['\\', 't']
  | '\x0c' => ['\\', 'f']
  | '\r' => ['\\', 'r']
  | '\\' => ['\\', '\\']
  | '\n' => if lines then ['\n'] else ['\\', 'n']
  | c =>
    if isControl c then ['\\', 'u', '0', '0', hexUpper (c.toNat / 16), hexUpper (c.toNat % 16)]
    else [c]

/-- Characters between double quotes. On one line every quote is escaped, on
several lines each third one of a run. -/
def writeBasic (lines : Bool) : Nat → List Char → List Char
  | _, [] => []
  | run, c :: cs =>
    if c = '"' then
      if !lines || run = 2 then '\\' :: '"' :: writeBasic lines 0 cs
      else '"' :: writeBasic lines (run + 1) cs
    else writeChar lines c ++ writeBasic lines 0 cs

def openLines (cs : List Char) : List Char := if cs.contains '\n' then ['\n'] else []

def quote (cs : List Char) : List Char :=
  match (formOf cs).1 with
  | .basic => ['"'] ++ writeBasic false 0 cs ++ ['"']
  | .literal => ['\''] ++ cs ++ ['\'']
  | .basicLines => ['"', '"', '"'] ++ openLines cs ++ writeBasic true 0 cs ++ ['"', '"', '"']
  | .literalLines => ['\'', '\'', '\''] ++ openLines cs ++ cs ++ ['\'', '\'', '\'']

end TreeJudge.Toml

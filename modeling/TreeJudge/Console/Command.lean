import TreeJudge.Text.Blank
import TreeJudge.Wire.Answer

/-!
# Operator commands

One command a line, by its name or its first letter, with blanks around it and
in letters of either case.
-/

set_option autoImplicit false

namespace TreeJudge

inductive View where
  | info
  | tree
  | status
deriving Repr, DecidableEq

inductive Command where
  | feedback (answer : Answer)
  | view (view : View)
  | quit
deriving Repr, DecidableEq

namespace Command

def help : String := "commands: y(es) | n(o) | i(nfo) | t(ree) | s(tatus) | q(uit)"

def words : List (String × Command) := [
  ("y", .feedback .yes), ("yes", .feedback .yes),
  ("n", .feedback .no), ("no", .feedback .no),
  ("i", .view .info), ("info", .view .info),
  ("t", .view .tree), ("tree", .view .tree),
  ("s", .view .status), ("status", .view .status),
  ("q", .quit), ("quit", .quit), ("exit", .quit)]

/-- The word of a line: trimmed, ASCII letters in lower case. -/
def word (line : String) : List Char := (Text.trim line.toList).map Text.lowerAscii

def parse? (line : String) : Option Command :=
  (words.find? fun w => w.1.toList == word line).map (·.2)

end Command

inductive Entry where
  | blank
  | unknown
  | command (command : Command)
deriving Repr, DecidableEq

def Entry.ofLine (line : String) : Entry :=
  if (Text.trim line.toList).isEmpty then .blank
  else
    match Command.parse? line with
    | some c => .command c
    | none => .unknown

/-- The entries that are acted on: those up to the first command to quit. -/
def Entry.untilQuit : List Entry → List Entry
  | [] => []
  | .command .quit :: _ => [.command .quit]
  | e :: es => e :: untilQuit es

def readLines (lines : List String) : List Command × Nat :=
  let entries := Entry.untilQuit (lines.map Entry.ofLine)
  (entries.filterMap fun
    | .command c => some c
    | _ => none,
   entries.countP (· == .unknown))

end TreeJudge

import TreeJudge.Console.Command
import TreeJudge.Render.Panels

/-!
# The console

Each published snapshot is compared with the one shown before it, and what
differs is printed. Views are answered from the latest snapshot.
-/

set_option autoImplicit false

namespace TreeJudge.Console

def sameOutput : Option Json → Option Json → Bool
  | none, none => true
  | some a, some b => a.same b
  | _, _ => false

/-- A difference that the picture of the tree can show. -/
def viewChanged (previous : Option Snapshot) (current : Snapshot) : Bool :=
  match previous with
  | none => true
  | some p =>
    p.tree != current.tree || p.focus != current.focus || p.flagged != current.flagged ||
      p.confirmed != current.confirmed

def treePart (previous : Option Snapshot) (current : Snapshot) : List Piece :=
  if viewChanged previous current && current.tree.isSome then Render.tree current else []

def outputPart (previous : Option Snapshot) (current : Snapshot) : List Piece :=
  if sameOutput current.output (previous.bind (·.output)) then []
  else
    match current.output with
    | some v => [.plain (Render.output v ++ "\n")]
    | none => []

def faultPart (previous : Option Snapshot) (current : Snapshot) : List Piece :=
  if current.fault.isSome && (previous.map (·.fault)) != some current.fault then
    Render.status current ++ [.plain "\n"]
  else []

def changes (previous : Option Snapshot) (current : Snapshot) : List Piece :=
  treePart previous current ++ outputPart previous current ++ faultPart previous current

def view (current : Snapshot) : View → List Piece
  | .tree => Render.tree current
  | .status => Render.status current
  | .info =>
    match current.focusDetails? with
    | some d => Render.details d
    | none => [.plain "(no focus node)\n"]

def showAll (previous : Option Snapshot) : List Snapshot → List (List Piece)
  | [] => []
  | s :: ss => changes previous s :: showAll (some s) ss

end TreeJudge.Console

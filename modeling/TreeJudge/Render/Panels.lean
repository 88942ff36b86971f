import TreeJudge.Json.Writer
import TreeJudge.Render.Styled
import TreeJudge.Session.Snapshot
import TreeJudge.Tree.Walk

/-!
# What the operator sees

The tree with its verdicts, the details of a node, the status of the session,
and the output of a command.
-/

set_option autoImplicit false

namespace TreeJudge.Render
open Piece

def guide : String := "│   "

def indent (depth : Nat) : String := String.join (List.replicate depth guide)

def caption (n : Node) : String := n.label ++ " [" ++ n.id.shown ++ "]"

def judged (verdict : Option Verdict) (n : Node) : List Piece :=
  match verdict with
  | some .rejected => [strongColored .red (caption n), plain " ", colored .red "✗"]
  | some .confirmed => [colored .green (caption n), plain " ", colored .green "✓"]
  | none => [plain (caption n)]

def arrow (here : Bool) : List Piece :=
  if here then [plain "\t", colored .cyan "<-"] else []

def line (s : Snapshot) (l : WalkLine) : List Piece :=
  [plain (indent l.depth)] ++ judged (s.verdict? l.node.id) l.node ++
    arrow (s.focus = some l.node.id) ++ [plain "\n"]

def tree (s : Snapshot) : List Piece :=
  match s.tree with
  | none => [plain "(waiting for execution tree)\n"]
  | some t => (Walk.of t).lines.flatMap (line s)

def details (d : NodeDetails) : List Piece :=
  [strong "Current Node", plain (" " ++ d.id.shown ++ "\n"),
   plain "  ", strong d.label, plain "\n"] ++
    d.fields.flatMap fun f =>
      [plain ("  " ++ f.label ++ " "), colored .blue f.value, plain "\n"]

def shownId : Option NodeId → String
  | some id => id.shown
  | none => "-"

def status (s : Snapshot) : List Piece :=
  [plain ("session:   " ++ s.sessionId ++ "\n"),
   plain ("channel:   " ++ s.channel.shown ++ "\n"),
   plain ("focus:     " ++ shownId s.focus ++ "\n"),
   plain ("flagged:   " ++ shownId s.flagged ++ "\n"),
   plain ("confirmed: [" ++ ", ".intercalate (s.confirmed.toList.map NodeId.shown) ++ "]\n")] ++
    match s.fault with
    | some f => [strongColored .red "fault:", plain (" " ++ f ++ "\n")]
    | none => []

def outputItem : Json → String
  | .str s => s
  | v => v.compact

def output : Json → String
  | .arr vs => "\n".intercalate (vs.map outputItem)
  | v => outputItem v

end TreeJudge.Render

import TreeJudge.Session.Channel
import TreeJudge.Session.State
import TreeJudge.Verdict

/-!
# Snapshots

What a session publishes: its state with a colored tree, and the phase of its
channel.
-/

set_option autoImplicit false

namespace TreeJudge

structure Snapshot where
  sessionId : String
  tree : Option ExecutionTree
  focus : Option NodeId
  flagged : Option NodeId
  confirmed : IdSet
  fault : Option String
  output : Option Json
  channel : Phase
deriving Repr

namespace Snapshot

def of (sessionId : String) (s : SessionState) (c : Channel) (p : Palette) : Snapshot where
  sessionId := sessionId
  tree := s.tree.map fun t => annotate t s.flagged s.confirmed p
  focus := s.focus
  flagged := s.flagged
  confirmed := s.confirmed
  fault := s.fault
  output := s.output
  channel := c.phase

def verdict? (s : Snapshot) (id : NodeId) : Option Verdict :=
  Verdict.of? s.flagged s.confirmed id

def focusDetails? (s : Snapshot) : Option NodeDetails := do
  let tree ← s.tree
  let focus ← s.focus
  tree.details? focus

end Snapshot
end TreeJudge

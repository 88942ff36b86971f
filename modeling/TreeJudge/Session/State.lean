import TreeJudge.Json.Basic
import TreeJudge.Tree.Basic

/-!
# Session state

What the peer has said and what the operator has judged. A new tree replaces
the old one and leaves the judgments alone; a fault is never taken back.
-/

set_option autoImplicit false

namespace TreeJudge

structure SessionState where
  tree : Option ExecutionTree
  focus : Option NodeId
  flagged : Option NodeId
  confirmed : IdSet
  fault : Option String
  output : Option Json
deriving Repr

namespace SessionState

def fresh : SessionState := ⟨none, none, none, .empty, none, none⟩

def withTree (s : SessionState) (t : ExecutionTree) : SessionState := { s with tree := some t }

def withFocus (s : SessionState) (id : NodeId) : SessionState := { s with focus := some id }

def withOutput (s : SessionState) (v : Json) : SessionState := { s with output := some v }

def withFault (s : SessionState) (raw : String) : SessionState := { s with fault := some raw }

/-- Confirms the focus. Without a focus there is nothing to confirm. -/
def accept (s : SessionState) : SessionState :=
  match s.focus with
  | some id => { s with confirmed := s.confirmed.insert id }
  | none => s

def reject (s : SessionState) : SessionState :=
  match s.focus with
  | some id => { s with flagged := some id }
  | none => s

def hasFault (s : SessionState) : Bool := s.fault.isSome

end SessionState
end TreeJudge

/-!
# Channel lifecycle

A channel connects, opens and closes, and never goes back. The first reason
for closing stays. The session lets go of its channel once.
-/

set_option autoImplicit false

namespace TreeJudge

inductive Phase where
  | connecting
  | opened
  | closed
deriving Repr, DecidableEq

def Phase.shown : Phase → String
  | .connecting => "Connecting"
  | .opened => "Open"
  | .closed => "Closed"

def Phase.rank : Phase → Nat
  | .connecting => 0
  | .opened => 1
  | .closed => 2

inductive CloseReason where
  | remote
  | failure (text : String)
  | teardown
deriving Repr, DecidableEq

structure Channel where
  phase : Phase
  reason : Option CloseReason
  tornDown : Bool
deriving Repr, DecidableEq

namespace Channel

def fresh : Channel := ⟨.connecting, none, false⟩

def isOpen (c : Channel) : Bool := c.phase == .opened

def acceptsFrames (c : Channel) : Bool := c.phase != .closed

def opening (c : Channel) : Bool × Channel :=
  match c.phase with
  | .connecting => (true, { c with phase := .opened })
  | _ => (false, c)

def close (c : Channel) (r : CloseReason) : Channel :=
  match c.phase with
  | .closed => c
  | _ => { c with phase := .closed, reason := some r }

/-- Answers whether the socket has to be closed now, which is so only once. -/
def teardown (c : Channel) : Bool × Channel :=
  if c.tornDown then (false, c)
  else (true, { c with tornDown := true }.close .teardown)

theorem phase_close (c : Channel) (r : CloseReason) : (c.close r).phase = .closed := by
  unfold close
  split <;> simp_all

theorem tornDown_close (c : Channel) (r : CloseReason) :
    (c.close r).tornDown = c.tornDown := by
  unfold close
  split <;> rfl

end Channel
end TreeJudge

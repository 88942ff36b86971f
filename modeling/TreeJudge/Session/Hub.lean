import TreeJudge.Session.Judgment
import TreeJudge.Session.Snapshot
import TreeJudge.Wire.Inbound

/-!
# Sessions

A session takes one event at a time. Every event answers a result, and most
publish a snapshot; those that publish none change nothing that a snapshot
shows.
-/

set_option autoImplicit false

namespace TreeJudge

structure SessionOptions where
  palette : Palette
  /-- An undecodable frame also moves the flag to the focus. -/
  flagOnFault : Bool
deriving Repr, DecidableEq

def SessionOptions.standard : SessionOptions := ⟨.standard, true⟩

inductive FrameOutcome where
  | treeReplaced (nodes edges : Nat)
  | focusChanged (id : NodeId)
  | outputChanged
  | ignored (kind : Option String)
  | fault (fault : DecodeFault)
  | discarded
deriving Repr, DecidableEq

structure Session where
  id : String
  options : SessionOptions
  state : SessionState
  channel : Channel
  outbox : List String
  snapshot : Snapshot
deriving Repr

/-- What an event did: its result, the session after it, and the snapshot that
it published. -/
structure Update (α : Type) where
  result : α
  session : Session
  published : Option Snapshot
deriving Repr

namespace Session

def view (s : Session) : Snapshot := .of s.id s.state s.channel s.options.palette

def fresh (id : String) (options : SessionOptions) : Session where
  id := id
  options := options
  state := .fresh
  channel := .fresh
  outbox := []
  snapshot := .of id .fresh .fresh options.palette

section
variable {α : Type}

def publish (s : Session) (result : α) : Update α :=
  ⟨result, { s with snapshot := s.view }, some s.view⟩

def quiet (s : Session) (result : α) : Update α := ⟨result, s, none⟩

end

def opened (s : Session) : Update Unit :=
  match s.channel.opening with
  | (true, c) => { s with channel := c }.publish ()
  | (false, _) => s.quiet ()

def closed (s : Session) (r : CloseReason) : Update Unit :=
  { s with channel := s.channel.close r }.publish ()

def teardown (s : Session) : Update Bool :=
  match s.channel.teardown with
  | (true, c) => { s with channel := c }.publish true
  | (false, _) => s.quiet false

def withFault (s : Session) (f : DecodeFault) : Session :=
  let marked := s.state.withFault f.raw
  { s with state := if s.options.flagOnFault then marked.reject else marked }

def receive (s : Session) (frame : String) : Update FrameOutcome :=
  if s.channel.acceptsFrames then
    match Inbound.decode frame with
    | .ok (.tree t) =>
      { s with state := s.state.withTree t }.publish
        (.treeReplaced t.nodes.length t.edges.length)
    | .ok (.focus id) => { s with state := s.state.withFocus id }.publish (.focusChanged id)
    | .ok (.output v) => { s with state := s.state.withOutput v }.publish .outputChanged
    | .ok (.unrecognized kind) => s.quiet (.ignored kind)
    | .error f => (s.withFault f).publish (.fault f)
  else s.quiet .discarded

def judge (s : Session) (a : Answer) : Update Judgment :=
  let j := Judgment.of a s.state s.channel
  { s with state := Judgment.record a s.state, outbox := s.outbox ++ j.frames }.publish j

def drain (s : Session) : Update (List String) :=
  { s with outbox := [] }.quiet s.outbox

end Session

inductive Event where
  | opened
  | closed (reason : CloseReason)
  | teardown
  | frame (text : String)
  | judge (answer : Answer)
  | drain
deriving Repr, DecidableEq

inductive Outcome where
  | done
  | tornDown (now : Bool)
  | frame (outcome : FrameOutcome)
  | judged (judgment : Judgment)
  | drained (frames : List String)
deriving Repr, DecidableEq

namespace Update

def map {α β : Type} (f : α → β) (u : Update α) : Update β := ⟨f u.result, u.session, u.published⟩

end Update

namespace Session

def step (s : Session) : Event → Update Outcome
  | .opened => s.opened.map fun _ => .done
  | .closed r => (s.closed r).map fun _ => .done
  | .teardown => s.teardown.map .tornDown
  | .frame text => (s.receive text).map .frame
  | .judge a => (s.judge a).map .judged
  | .drain => s.drain.map .drained

def run (s : Session) : List Event → List (Update Outcome)
  | [] => []
  | e :: es => s.step e :: run (s.step e).session es

def after (s : Session) (es : List Event) : Session :=
  es.foldl (fun s e => (s.step e).session) s

end Session
end TreeJudge

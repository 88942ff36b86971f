import TreeJudge.Console.Command
import TreeJudge.Failure
import TreeJudge.Session.Hub

/-!
# Relaying between peer and operator

A relay holds a session on a connection. It takes one arrival or one command at
a time and then writes what waits for the wire. The first close or failure ends
the arrivals; commands go on until the operator quits.
-/

set_option autoImplicit false

namespace TreeJudge

inductive Arrival where
  | text (frame : String)
  | binary
  | ping
  | pong
  | close
  | ended
  | failed (why : String)
deriving Repr, DecidableEq

inductive Turn where
  | arrival (arrival : Arrival)
  | command (command : Command)
deriving Repr, DecidableEq

structure Relay where
  session : Session
  live : Bool
  wire : List String
  views : List View
deriving Repr

namespace Relay

def start (s : Session) : Relay := ⟨s.opened.session, true, [], []⟩

def flush (r : Relay) : Relay :=
  let u := r.session.drain
  { r with session := u.session, wire := r.wire ++ u.result }

def closing (r : Relay) (why : CloseReason) : Relay :=
  { r with session := (r.session.closed why).session, live := false }

def take (r : Relay) : Arrival → Relay
  | .text frame => { r with session := (r.session.receive frame).session }
  | .close | .ended => r.closing .remote
  | .failed why => r.closing (.failure why)
  | .binary | .ping | .pong => r

def obey (r : Relay) : Command → Relay
  | .feedback a => { r with session := (r.session.judge a).session }
  | .view v => { r with views := r.views ++ [v] }
  | .quit => r

def turn (r : Relay) : Turn → Relay
  | .arrival a => if r.live then (r.take a).flush else r
  | .command c => (r.obey c).flush

/-- All turns up to a command to quit. -/
def run (r : Relay) : List Turn → Relay
  | [] => r
  | .command .quit :: _ => r
  | t :: ts => run (r.turn t) ts

def finish (r : Relay) : Update Bool := r.session.teardown

end Relay

structure Finished where
  session : Session
  wire : List String
  views : List View
  failure : Option Failure
deriving Repr

/-- Connects and relays. A connection that is never made closes the channel. -/
def runSession (connect : String → Except String Unit) (url : String) (s : Session)
    (turns : List Turn) : Finished :=
  match connect url with
  | .error why => ⟨(s.closed (.failure why)).session, [], [], some (.connect url why)⟩
  | .ok () =>
    let r := (Relay.start s).run turns
    ⟨r.finish.session, r.wire, r.views, none⟩

end TreeJudge

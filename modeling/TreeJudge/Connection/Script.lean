import TreeJudge.Connection.Relay

/-!
# Scripted peers

A peer and an operator act in turns, each turn being over before the next. A
peer that has closed or dropped the connection is gone, and what it was still to
do is skipped, as is a line of the operator that is no command.
-/

set_option autoImplicit false

namespace TreeJudge

inductive PeerAct where
  | send (frame : String)
  | binary
  | ping
  | close
  | drop
  | raw (bytes : List UInt8)
deriving Repr, DecidableEq

inductive Act where
  | peer (act : PeerAct)
  | line (text : String)
deriving Repr, DecidableEq

namespace PeerAct

def lost : String := "WebSocket protocol error: Connection reset without closing handshake"

/-- One short unmasked frame: its kind and its length come first. -/
def arrivalOfBytes : List UInt8 → Arrival
  | 0x81 :: _ :: payload =>
    match String.fromUTF8? ⟨payload.toArray⟩ with
    | some s => .text s
    | none => .failed "UTF-8 encoding error"
  | 0x82 :: _ => .binary
  | 0x88 :: _ => .close
  | 0x89 :: _ => .ping
  | 0x8A :: _ => .pong
  | _ => .failed lost

def arrival : PeerAct → Arrival
  | .send frame => .text frame
  | .binary => .binary
  | .ping => .ping
  | .close => .close
  | .drop => .failed lost
  | .raw bytes => arrivalOfBytes bytes

end PeerAct

namespace Act

def turn? (live : Bool) : Act → Option Turn
  | .peer act => if live then some (.arrival act.arrival) else none
  | .line text => (Command.parse? text).map .command

end Act

structure Scene where
  skipped : Bool
  received : List String
  views : List View
  relay : Relay
deriving Repr

namespace Relay

def play (r : Relay) : List Act → List Scene
  | [] => []
  | a :: acts =>
    match a.turn? r.live with
    | none => ⟨true, [], [], r⟩ :: play r acts
    | some (.command .quit) => []
    | some t =>
      let next := r.turn t
      ⟨false, next.wire.drop r.wire.length, next.views.drop r.views.length, next⟩ ::
        play next acts

end Relay
end TreeJudge

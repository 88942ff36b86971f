import TreeJudge.Json.Reader
import TreeJudge.Shape.OfJson
import TreeJudge.Tree.Written

/-!
# Inbound messages

A frame is a JSON object with a type. Three types are known: a whole tree, the
output of a command, and the node that is to be judged next. A frame of no known
type is no fault; text that is not JSON, or a known type without its payload,
is.
-/

set_option autoImplicit false

namespace TreeJudge
open Shape

inductive Inbound where
  | tree (tree : ExecutionTree)
  | output (value : Json)
  | focus (id : NodeId)
  | unrecognized (kind : Option String)
deriving Repr

inductive FaultCause where
  | notJson (problem : Json.Problem)
  | malformed (kind : String) (fault : Shape.Fault)
deriving Repr, DecidableEq

/-- A frame that could not be decoded, exactly as it was received. -/
structure DecodeFault where
  raw : String
  cause : FaultCause
deriving Repr, DecidableEq

namespace DecodeFault

def reason (f : DecodeFault) : String :=
  match f.cause with
  | .notJson problem => problem.message f.raw
  | .malformed kind fault => "malformed '" ++ kind ++ "' message: " ++ fault.message

def message (f : DecodeFault) : String := "Undecodable frame: " ++ f.reason

end DecodeFault

namespace Inbound

def treeMessage : Record OfJson ExecutionTree where
  name := "Envelope"
  fields := [required "tree" (Source.record ExecutionTree.record) fun t _ => t]
  start := ⟨[], []⟩

def payload : Record OfJson Json where
  name := "CmdPayload"
  fields := [required "output" OfJson.anything fun v _ => v]
  start := .null

def outputMessage : Record OfJson Json where
  name := "Envelope"
  fields := [required "cmd" (Source.record payload) fun v _ => v]
  start := .null

def focusMessage : Record OfJson NodeId where
  name := "Envelope"
  fields := [required "id" TreeSource.identifier fun i _ => i]
  start := default

def known? (kind : String) : Option (OfJson Inbound) :=
  if kind = "tree" then some (Source.map tree (Source.record treeMessage))
  else if kind = "cmd" then some (Source.map output (Source.record outputMessage))
  else if kind = "id" then some (Source.map focus (Source.record focusMessage))
  else none

def ofJson (v : Json) : Except FaultCause Inbound :=
  match v.get? "type" with
  | some (.str kind) =>
    match known? kind with
    | some reader => (reader.read v).mapError (.malformed kind)
    | none => .ok (.unrecognized (some kind))
  | _ => .ok (.unrecognized none)

def decode (frame : String) : Except DecodeFault Inbound :=
  match Json.parse frame with
  | .error problem => .error ⟨frame, .notJson problem⟩
  | .ok v => (ofJson v).mapError (⟨frame, ·⟩)

end Inbound
end TreeJudge

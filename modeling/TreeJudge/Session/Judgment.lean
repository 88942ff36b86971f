import TreeJudge.Session.Channel
import TreeJudge.Session.State
import TreeJudge.Wire.Answer

/-!
# Judging the focus

An answer is recorded first and then offered to the peer. With no focus there
is no question, and on a channel that is not open there is no way: in both
cases the token is dropped and never kept for later.
-/

set_option autoImplicit false

namespace TreeJudge

inductive DropReason where
  | channelNotOpen
  | noFocus
deriving Repr, DecidableEq

inductive Delivery where
  | sent
  | dropped (why : DropReason)
deriving Repr, DecidableEq

structure Judgment where
  answer : Answer
  judged : Option NodeId
  delivery : Delivery
deriving Repr, DecidableEq

namespace Judgment

def record (a : Answer) (s : SessionState) : SessionState :=
  match a with
  | .yes => s.accept
  | .no => s.reject

def delivery? (focus : Option NodeId) (channel : Channel) : Delivery :=
  match focus with
  | none => .dropped .noFocus
  | some _ => if channel.isOpen then .sent else .dropped .channelNotOpen

def frames (j : Judgment) : List String :=
  match j.delivery with
  | .sent => [j.answer.encode]
  | .dropped _ => []

def of (a : Answer) (s : SessionState) (channel : Channel) : Judgment :=
  ⟨a, s.focus, delivery? s.focus channel⟩

end Judgment
end TreeJudge

/-!
# Failures

What ends the program early, with its message and exit code. A channel that
breaks after it has opened is none of these.
-/

set_option autoImplicit false

namespace TreeJudge

inductive Failure where
  | connect (url why : String)
  | config (message : String)
  | io (path message : String)
deriving Repr, DecidableEq

namespace Failure

def message : Failure → String
  | .connect url why => "Failed to connect to " ++ url ++ ": " ++ why
  | .config message => "Configuration error: " ++ message
  | .io path message => "IO error at " ++ path ++ ": " ++ message

def exitCode : Failure → Nat
  | .io _ _ => 1
  | .config _ => 2
  | .connect _ _ => 3

end Failure
end TreeJudge

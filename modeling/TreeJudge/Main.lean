import TreeJudge.App
import TreeJudge.Session.Name

/-!
# The command line

Reads the arguments, the environment and the configuration file, and prints what
a run says. No transport is linked in, so no address answers.
-/

set_option autoImplicit false

namespace TreeJudge.Main

def notADirectory : UInt32 := 20

/-- A path that leads nowhere is that of an absent file. -/
def readFile (path : String) : IO Config.File := do
  try
    let handle ← IO.FS.Handle.mk path .read
    pure (.bytes (← handle.readBinToEnd))
  catch
    | .noFileOrDirectory _ _ _ => pure .absent
    | .inappropriateType _ code why =>
      pure (if code = notADirectory then .absent else .unreadable why code.toNat)
    | .permissionDenied _ code why => pure (.unreadable why code.toNat)
    | e => throw e

def standardPath? : IO (Option String) := do
  let home := (← IO.getEnv "HOME").map (· ++ "/.config")
  let named := (← IO.getEnv "XDG_CONFIG_HOME").filter (·.startsWith "/")
  pure ((named <|> home).map (· ++ "/exectree/config.toml"))

def report (failure : Failure) : IO UInt32 := do
  IO.eprintln ("Error: " ++ failure.message)
  pure (UInt32.ofNat failure.exitCode)

def perform : App.Task → IO UInt32
  | .printConfig text => do
    IO.print text
    pure 0
  | .judge url config => do
    let name := SessionName.ofNat (← IO.rand 0 (UInt32.size - 1))
    let r := App.judge .down (Session.fresh name config.sessionOptions) url []
    IO.print (String.join r.steps ++ r.rest)
    match r.failure with
    | some f => report f
    | none => pure 0

def refuse (r : Refusal) : IO UInt32 := do
  match r with
  | .displayHelp => IO.print Options.usage
  | .displayVersion => IO.print App.version
  | r => IO.eprint ("error: " ++ r.message ++ "\n\n" ++ Options.usage)
  pure (UInt32.ofNat r.exitCode)

end TreeJudge.Main

open TreeJudge TreeJudge.Main in
def main (args : List String) : IO UInt32 := do
  match Options.parse args (← IO.getEnv "EXECTREE_URL") with
  | .error r => refuse r
  | .ok o =>
    let path := App.configPath? o (← standardPath?)
    let file ← (path.map readFile).getD (pure .absent)
    match App.start o path fun _ => file with
    | .error f => report f
    | .ok task => perform task

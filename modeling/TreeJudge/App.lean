import TreeJudge.Config
import TreeJudge.Connection.Address
import TreeJudge.Connection.Script
import TreeJudge.Console.Display
import TreeJudge.Options

/-!
# The program

From the command line to a configuration, and from there to one of two tasks:
print the configuration, or judge nodes on a connection.
-/

set_option autoImplicit false

namespace TreeJudge.App

def version : String := "exectree-client 0.1.0\n"

def levelNames : List String := ["off", "error", "warn", "info", "debug", "trace"]

def smallNumber (cs : List Char) : Bool :=
  let ds := match cs with
    | '+' :: r => r
    | r => r
  !ds.isEmpty && ds.all Char.isDigit && ds.foldl (fun n d => n * 10 + (d.toNat - 48)) 0 ≤ 5

/-- Log levels have names, in letters of either case, and numbers up to five. No
text at all is a level too. -/
def isLevel (cs : List Char) : Bool :=
  cs.isEmpty || levelNames.any (fun n => n.toList == cs.map Text.lowerAscii) || smallNumber cs

def expectedLevel : String :=
  "error parsing level filter: expected one of \"off\", \"error\", \"warn\", " ++
    "\"info\", \"debug\", \"trace\", or a number 0-5"

def levelFault? (level : String) : Option String :=
  let name := level.toList.takeWhile (· != ',')
  let rest := (level.toList.dropWhile (· != ',')).drop 1
  if !isLevel name then some expectedLevel
  else if (Text.trimEnd rest).isEmpty then none
  else some "invalid filter directive"

def levelFailure (level why : String) : Failure :=
  .config ("Invalid log level '" ++ level ++ "': " ++ why)

inductive Task where
  | printConfig (text : String)
  | judge (url : String) (config : Config)
deriving Repr, DecidableEq

def configPath? (o : Options) (standard : Option String) : Option String :=
  o.config <|> standard

/-- The task that options and a loaded configuration ask for. A configured log
level is only looked at when the options do not set one. -/
def task (o : Options) (c : Config) : Except Failure Task :=
  match if o.verbose then none else levelFault? c.level with
  | some why => .error (levelFailure c.level why)
  | none =>
    match o.subcommand with
    | some .config => .ok (.printConfig c.toToml)
    | _ => .ok (.judge (o.url.getD c.url) c)

def start (o : Options) (path : Option String) (files : String → Config.File) :
    Except Failure Task := do
  match path with
  | some p => task o (← Config.load p (files p))
  | none => task o .standard

def shown (before after : Relay) : List Piece :=
  Console.changes (some before.session.snapshot) after.session.snapshot ++
    (after.views.drop before.views.length).flatMap (Console.view after.session.snapshot)

def reply : Entry → String
  | .unknown => Command.help ++ "\n"
  | _ => ""

def transcript (r : Relay) : List Act → List String × Relay
  | [] => ([], r)
  | .line text :: acts =>
    match Entry.ofLine text with
    | .command .quit => ([], r)
    | .command c =>
      let next := r.turn (.command c)
      let (texts, last) := transcript next acts
      (Piece.writeAll false (shown r next) :: texts, last)
    | e =>
      let (texts, last) := transcript r acts
      (reply e :: texts, last)
  | .peer act :: acts =>
    let next := if r.live then r.turn (.arrival act.arrival) else r
    let note := if r.live && !next.live then "(channel ended)\n" else ""
    let (texts, last) := transcript next acts
    ((Piece.writeAll false (shown r next) ++ note) :: texts, last)

structure Report where
  steps : List String
  rest : String
  received : List String
  closed : Option Bool
  failure : Option Failure
deriving Repr

/-- A run on a connection. The status is printed at the end in any case. -/
def judge (network : Network) (session : Session) (url : String) (acts : List Act) : Report :=
  let help := Command.help ++ "\n"
  let status (s : Session) := Piece.writeAll false (Render.status s.snapshot)
  match network.connect url with
  | .error why =>
    let s := (session.closed (.failure why)).session
    ⟨[], help ++ status s, [], none, some (.connect url why)⟩
  | .ok () =>
    let (texts, last) := transcript (.start session) acts
    ⟨help :: texts, status last.finish.session, last.wire,
      if last.live then some last.finish.result else none, none⟩

end TreeJudge.App

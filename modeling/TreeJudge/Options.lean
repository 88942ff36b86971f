/-!
# Command line options

Three options stand before or behind a subcommand. The one behind wins; twice in
the same place is a conflict. A value is stored when the next option or the end
of its place is reached, so a later mistake in the words may be reported first.
-/

set_option autoImplicit false

namespace TreeJudge

inductive Subcommand where
  | connect
  | config
deriving Repr, DecidableEq

structure Options where
  subcommand : Option Subcommand
  url : Option String
  config : Option String
  verbose : Bool
deriving Repr, DecidableEq

inductive Refusal where
  | unknownArgument
  | invalidSubcommand
  | invalidValue
  | argumentConflict
  | tooManyValues
  | displayHelp
  | displayVersion
deriving Repr, DecidableEq

def Refusal.exitCode : Refusal → Nat
  | .displayHelp | .displayVersion => 0
  | _ => 2

def Refusal.message : Refusal → String
  | .unknownArgument => "an argument is not known"
  | .invalidSubcommand => "there is no such subcommand"
  | .invalidValue => "an option lacks its value"
  | .argumentConflict => "an option is given twice"
  | .tooManyValues => "an option that takes no value has one"
  | .displayHelp => "help was asked for"
  | .displayVersion => "the version was asked for"

namespace Options

def usage : String :=
  "Walk a server-computed execution tree and judge each node\n\n" ++
  "Usage: exectree-client [OPTIONS] [connect|config|help]\n\n" ++
  "  -u, --url <URL>      address of the analysis server\n" ++
  "  -c, --config <FILE>  path of the configuration file\n" ++
  "  -v, --verbose        show debug logging\n" ++
  "  -h, --help           print this text\n" ++
  "  -V, --version        print the version\n"

inductive Setting where
  | url
  | config
deriving Repr, DecidableEq

/-- The options of one place. A setting is pending with its value, or without
one while the next word has to be it. -/
structure Level where
  url : Option String
  config : Option String
  verbose : Bool
  pending : Option (Setting × Option String)
deriving Repr, DecidableEq

namespace Level

def empty : Level := ⟨none, none, false, none⟩

def store (l : Level) (s : Setting) (v : String) : Except Refusal Level :=
  match s with
  | .url =>
    if l.url.isSome then .error .argumentConflict else .ok { l with url := some v }
  | .config =>
    if l.config.isSome then .error .argumentConflict
    else if v = "" then .error .invalidValue
    else .ok { l with config := some v }

def settle (l : Level) : Except Refusal Level :=
  match l.pending with
  | none => .ok l
  | some (_, none) => .error .invalidValue
  | some (s, some v) => { l with pending := none }.store s v

def waiting? (l : Level) : Option Setting :=
  match l.pending with
  | some (s, none) => some s
  | _ => none

def setting (l : Level) (s : Setting) (attached : Option String) : Except Refusal Level := do
  let l ← l.settle
  match attached with
  | some v => l.store s v
  | none => .ok { l with pending := some (s, none) }

def raise (l : Level) : Except Refusal Level := do
  let l ← l.settle
  if l.verbose then .error .argumentConflict else .ok { l with verbose := true }

def ask (l : Level) (wish : Refusal) : Except Refusal Level := do
  let _ ← l.settle
  .error wish

end Level

/-- The letters behind a single dash. A setting takes the rest of them as its
value, behind an equals sign if there is one. -/
def letters (top : Bool) (l : Level) : List Char → Except Refusal Level
  | [] => .ok l
  | 'v' :: cs => do
    let l ← l.raise
    letters top l cs
  | 'h' :: _ => l.ask .displayHelp
  | 'V' :: _ => if top then l.ask .displayVersion else .error .unknownArgument
  | 'u' :: cs => l.setting .url (attached cs)
  | 'c' :: cs => l.setting .config (attached cs)
  | _ :: _ => .error .unknownArgument
where
  attached : List Char → Option String
    | [] => none
    | '=' :: cs => some (String.ofList cs)
    | cs => some (String.ofList cs)

def named (top : Bool) (l : Level) (name : String) (value : Option String) :
    Except Refusal Level :=
  let plain (act : Except Refusal Level) : Except Refusal Level :=
    match value with
    | some _ => .error .tooManyValues
    | none => act
  if name = "url" then l.setting .url value
  else if name = "config" then l.setting .config value
  else if name = "verbose" then plain l.raise
  else if name = "help" then plain (l.ask .displayHelp)
  else if name = "version" ∧ top then plain (l.ask .displayVersion)
  else .error .unknownArgument

inductive Word where
  | separator
  | name (name : String) (value : Option String)
  | letters (letters : List Char)
  | value (text : String)
deriving Repr, DecidableEq

def splitName (cs : List Char) : String × Option String :=
  (String.ofList (cs.takeWhile (· != '=')),
   match cs.dropWhile (· != '=') with
   | [] => none
   | _ :: v => some (String.ofList v))

def Word.of (arg : String) : Word :=
  match arg.toList with
  | ['-', '-'] => .separator
  | '-' :: '-' :: cs => .name (splitName cs).1 (splitName cs).2
  | '-' :: c :: cs => .letters (c :: cs)
  | _ => .value arg

def isSubcommand (s : String) : Bool := s == "connect" || s == "config" || s == "help"

def stray (top : Bool) (afterSeparator : Bool) (s : String) : Refusal :=
  if top ∧ !(afterSeparator ∧ isSubcommand s) then .invalidSubcommand else .unknownArgument

def readLevel (top : Bool) (l : Level) : List String → Except Refusal (Level × List String)
  | [] => .ok (l, [])
  | arg :: rest =>
    match l.waiting?, Word.of arg with
    | none, .value s =>
      if top ∧ isSubcommand s then .ok (l, arg :: rest) else .error (stray top false s)
    | some s, .value v => readLevel top { l with pending := some (s, some v) } rest
    | _, .separator =>
      match rest with
      | [] => .ok (l, [])
      | next :: _ => .error (stray top true next)
    | _, .name name value => do
      let l ← named top l name value
      readLevel top l rest
    | _, .letters cs => do
      let l ← letters top l cs
      readLevel top l rest

def help : List String → Refusal
  | [] => .displayHelp
  | [s] => if isSubcommand s then .displayHelp else .invalidSubcommand
  | _ => .invalidSubcommand

def merge (sub : Option Subcommand) (outer inner : Level) (environment : Option String) :
    Options where
  subcommand := sub
  url := inner.url <|> outer.url <|> environment
  config := inner.config <|> outer.config
  verbose := inner.verbose || outer.verbose

/-- The words behind a subcommand are read before the pending setting in front
of it is stored. -/
def behind (sub : Subcommand) (outer : Level) (environment : Option String)
    (rest : List String) : Except Refusal Options := do
  let (inner, _) ← readLevel false .empty rest
  let inner ← inner.settle
  let outer ← outer.settle
  .ok (merge (some sub) outer inner environment)

def parse (args : List String) (environment : Option String) : Except Refusal Options := do
  let (outer, rest) ← readLevel true .empty args
  match rest with
  | [] =>
    let outer ← outer.settle
    .ok (merge none outer .empty environment)
  | sub :: rest =>
    if sub = "connect" then behind .connect outer environment rest
    else if sub = "config" then behind .config outer environment rest
    else .error (help rest)

end Options
end TreeJudge

import TreeJudge.Failure
import TreeJudge.Json.Basic
import TreeJudge.Session.Hub
import TreeJudge.Shape.OfToml
import TreeJudge.Toml.Reader
import TreeJudge.Toml.Writer

/-!
# Configuration

Five settings in four sections. A setting that is not given has its default,
whether its section is there or not; keys that nobody knows are passed over.
-/

set_option autoImplicit false

namespace TreeJudge
open Shape

structure Config where
  url : String
  level : String
  palette : Palette
  flagOnFault : Bool
deriving Repr, DecidableEq

namespace Config

def standard : Config := ⟨"ws://localhost:8001/", "info", .standard, true⟩

section
variable {m : Type → Type} [Source m]

def serverRecord : Record m String where
  name := "ServerConfig"
  fields := [optional "url" Source.text fun s _ => s]
  start := standard.url

def loggingRecord : Record m String where
  name := "LoggingConfig"
  fields := [optional "level" Source.text fun s _ => s]
  start := standard.level

def feedbackRecord : Record m Bool where
  name := "FeedbackConfig"
  fields := [optional "flag_on_decode_fault" Source.flag fun b _ => b]
  start := standard.flagOnFault

def record : Record m Config where
  name := "ClientConfig"
  fields := [
    optional "server" (Source.record serverRecord) fun u c => { c with url := u },
    optional "logging" (Source.record loggingRecord) fun l c => { c with level := l },
    optional "palette" (Source.record Palette.record) fun p c => { c with palette := p },
    optional "feedback" (Source.record feedbackRecord) fun b c => { c with flagOnFault := b }]
  start := standard

end

def sessionOptions (c : Config) : SessionOptions := ⟨c.palette, c.flagOnFault⟩

inductive Problem where
  | notToml
  | shape (fault : Shape.SpannedFault)
deriving Repr, DecidableEq

def ofTable (t : Toml.Table) : Except Problem Config :=
  ((Source.record record : OfToml Config).read (.table t)).mapError .shape

def ofText (text : String) : Except Problem Config :=
  match Toml.parse? text with
  | some t => ofTable t
  | none => .error .notToml

/-- The line on which a position stands, with the count of the lines before it
and of the characters of it that are before the position. -/
def lineAt (cs : List Char) (position : Nat) : Nat × Nat × List Char :=
  let before := cs.take position
  let column := (before.reverse.takeWhile (· != '\n')).length
  (before.count '\n', column, (cs.drop (position - column)).takeWhile (· != '\n'))

def excerpt (text : String) (span : Toml.Span) : String :=
  let cs := text.toList
  let position := cs.length - span.start
  let (line, column, content) := lineAt cs position
  let width := (String.ofList ((cs.drop position).take (span.start - span.stop))).utf8ByteSize
  let room := (String.ofList content).utf8ByteSize - column
  let number := toString (line + 1)
  let gutter := String.ofList (List.replicate (number.length + 1) ' ')
  "TOML parse error at line " ++ number ++ ", column " ++ toString (column + 1) ++ "\n" ++
    gutter ++ "|\n" ++
    number ++ " | " ++ String.ofList content ++ "\n" ++
    gutter ++ "|" ++ String.ofList (List.replicate (column + 1) ' ') ++
    String.ofList (List.replicate (max 1 (min width room)) '^') ++ "\n"

def Problem.message (text : String) : Problem → String
  | .notToml => "<not TOML>"
  | .shape f =>
    (match f.span with
     | some span => excerpt text span
     | none => "") ++ f.fault.message ++ "\n"

def Problem.failure (text : String) (p : Problem) : Failure :=
  .config ("Failed to parse config: " ++ p.message text)

/-- What stands at the path of a configuration file. What cannot be read comes
with the reason and number that the system gives. -/
inductive File where
  | absent
  | unreadable (why : String) (code : Nat)
  | bytes (content : ByteArray)

def File.directory : File := .unreadable "Is a directory" 21

def load (path : String) : File → Except Failure Config
  | .absent => .ok standard
  | .unreadable why code =>
    .error (.io path (why ++ " (os error " ++ toString code ++ ")"))
  | .bytes content =>
    match String.fromUTF8? content with
    | none => .error (.io path "stream did not contain valid UTF-8")
    | some text => (ofText text).mapError (Problem.failure text)

def quoted (s : String) : List Char := Toml.quote s.toList

def entry (key : String) (value : List Char) : List Char :=
  key.toList ++ [' ', '=', ' '] ++ value ++ ['\n']

def header (name : String) : List Char := ['['] ++ name.toList ++ [']', '\n']

def flagText (b : Bool) : List Char := (if b then "true" else "false").toList

def toToml (c : Config) : String := String.ofList <|
  header "server" ++ entry "url" (quoted c.url) ++ ['\n'] ++
  header "logging" ++ entry "level" (quoted c.level) ++ ['\n'] ++
  header "palette" ++ entry "rejected" (quoted c.palette.rejected) ++
  entry "confirmed" (quoted c.palette.confirmed) ++ ['\n'] ++
  header "feedback" ++ entry "flag_on_decode_fault" (flagText c.flagOnFault)

def toJson (c : Config) : Json := .obj [
  ("server", .obj [("url", .str c.url)]),
  ("logging", .obj [("level", .str c.level)]),
  ("palette", c.palette.toJson),
  ("feedback", .obj [("flag_on_decode_fault", .bool c.flagOnFault)])]

end Config
end TreeJudge

/-!
# Addresses

What can be said about the address of a peer without any network. An address
has a scheme, an authority and a path; one that starts with a slash is only a
path, one without a scheme only an authority. A peer is reached at a host and a
number, which the schemes ws and wss know by themselves.
-/

set_option autoImplicit false

namespace TreeJudge

inductive AddressFault where
  | empty
  | tooLong
  | invalidCharacter
  | invalidAuthority
  | invalidFormat
  | schemeTooLong
  | noHost
  | unsupportedScheme
deriving Repr, DecidableEq

def AddressFault.message : AddressFault → String
  | .empty => "HTTP format error: empty string"
  | .tooLong => "HTTP format error: uri too long"
  | .invalidCharacter => "HTTP format error: invalid uri character"
  | .invalidAuthority => "HTTP format error: invalid authority"
  | .invalidFormat => "HTTP format error: invalid format"
  | .schemeTooLong => "HTTP format error: scheme too long"
  | .noHost => "URL error: No host name in the URL"
  | .unsupportedScheme => "URL error: URL scheme not supported"

structure Address where
  scheme : Option (List Char)
  authority : List Char
deriving Repr, DecidableEq

namespace Address

def isAlphanumeric (c : Char) : Bool :=
  ('a' ≤ c && c ≤ 'z') || ('A' ≤ c && c ≤ 'Z') || ('0' ≤ c && c ≤ '9')

def isSchemeChar (c : Char) : Bool :=
  isAlphanumeric c || c == '+' || c == '-' || c == '.' || c == '~'

/-- Splits off a scheme with its colon and slashes. A scheme may be empty, but
not the whole address. -/
def splitScheme (cs : List Char) : Option (List Char) × List Char :=
  match cs, cs.dropWhile isSchemeChar with
  | [_, _, _], _ => (none, cs)
  | _, ':' :: '/' :: '/' :: rest => (some (cs.takeWhile isSchemeChar), rest)
  | _, _ => (none, cs)

def endsAuthority (c : Char) : Bool := c == '/' || c == '?' || c == '#'

def isAuthorityChar (c : Char) : Bool :=
  isAlphanumeric c ||
    ['!', '$', '&', '\'', '(', ')', '*', '+', ',', '-', '.', ';', '=', '_', '~', '%', ':',
      '@', '[', ']'].contains c

structure Seen where
  colons : Nat
  opened : Bool
  closed : Bool
  percent : Bool
deriving Repr, DecidableEq

def Seen.step (s : Seen) (c : Char) : Except AddressFault Seen :=
  if !isAuthorityChar c then .error .invalidCharacter
  else if c = ':' then
    if 8 ≤ s.colons then .error .invalidAuthority else .ok { s with colons := s.colons + 1 }
  else if c = '[' then
    if s.percent ∨ s.opened then .error .invalidAuthority else .ok { s with opened := true }
  else if c = ']' then
    if !s.opened ∨ s.closed then .error .invalidAuthority
    else .ok { s with closed := true, colons := 0, percent := false }
  else if c = '@' then .ok { s with colons := 0, percent := false }
  else if c = '%' then .ok { s with percent := true }
  else .ok s

def checkAuthority (cs : List Char) : Except AddressFault Unit := do
  let s ← cs.foldlM Seen.step ⟨0, false, false, false⟩
  if s.opened != s.closed ∨ 1 < s.colons ∨ cs.getLast? = some '@' ∨ s.percent then
    .error .invalidAuthority
  else .ok ()

def isQueryChar (c : Char) : Bool :=
  let n := c.toNat
  n == 0x21 || (0x24 ≤ n && n ≤ 0x3B) || n == 0x3D || (0x3F ≤ n && n ≤ 0x7E) || 0x80 ≤ n

def isPathChar (c : Char) : Bool := c == '"' || (isQueryChar c && c != '?' && c.toNat != 0x60)

/-- The path goes up to a question mark, and the query behind it up to a number
sign. What follows that is not looked at. -/
def checkPath (cs : List Char) : Except AddressFault Unit :=
  let cs := cs.takeWhile (· != '#')
  if (cs.takeWhile (· != '?')).all isPathChar && (cs.dropWhile (· != '?')).all isQueryChar then
    .ok ()
  else .error .invalidCharacter

def parseLong (cs : List Char) : Except AddressFault Address :=
  if cs.head? = some '/' then do
    checkPath cs
    .ok ⟨none, []⟩
  else do
    let (scheme, rest) := splitScheme cs
    let authority := rest.takeWhile fun c => !endsAuthority c
    let path := rest.dropWhile fun c => !endsAuthority c
    if 64 < (scheme.getD []).length then .error .schemeTooLong
    else if rest.isEmpty then .error .empty
    else
      checkAuthority authority
      if scheme.isNone ∧ !path.isEmpty ∨ authority.isEmpty then .error .invalidFormat
      else
        checkPath path
        .ok ⟨scheme, authority⟩

def parse (url : String) : Except AddressFault Address :=
  if 65534 < url.utf8ByteSize then .error .tooLong
  else
    match url.toList with
    | [] => .error .empty
    | ['/'] | ['*'] => .ok ⟨none, []⟩
    | [c] => do
      if endsAuthority c then .error .invalidCharacter
      checkAuthority [c]
      .ok ⟨none, [c]⟩
    | cs => parseLong cs

def behindLast (c : Char) (cs : List Char) : List Char :=
  (cs.reverse.takeWhile (· != c)).reverse

def host (a : Address) : List Char :=
  let cs := behindLast '@' a.authority
  match cs with
  | '[' :: _ => cs.takeWhile (· != ']') ++ [']']
  | _ => cs.takeWhile (· != ':')

/-- A number of 16 bits, which may have a plus sign and leading zeros. -/
def number? (cs : List Char) : Option Nat :=
  let ds := match cs with
    | '+' :: r => r
    | r => r
  let n := ds.foldl (fun n d => n * 10 + (d.toNat - '0'.toNat)) 0
  if !ds.isEmpty && ds.all Char.isDigit && n < UInt16.size then some n else none

def number (a : Address) : Option Nat :=
  let given := if a.authority.contains ':' then number? (behindLast ':' a.authority) else none
  given <|> match a.scheme with
    | some ['w', 's'] => some 80
    | some ['w', 's', 's'] => some 443
    | _ => none

end Address

structure Endpoint where
  host : List Char
  number : Nat
deriving Repr, DecidableEq

namespace Endpoint

def ofUrl (url : String) : Except AddressFault Endpoint := do
  let a ← Address.parse url
  if a.authority.isEmpty then .error .noHost
  else
    match a.number with
    | some n => .ok ⟨a.host, n⟩
    | none => .error .unsupportedScheme

def isKnown (e : Endpoint) : Bool :=
  match e.host with
  | [] => false
  | '[' :: _ => true
  | cs => cs == "localhost".toList || cs.all fun c => c.isDigit || c == '.'

def unreachable (e : Endpoint) : String :=
  let lookup := "IO error: failed to lookup address information: "
  if e.isKnown then "IO error: Network is unreachable (os error 101)"
  else if e.host.isEmpty then lookup ++ "Name or service not known"
  else lookup ++ "Temporary failure in name resolution"

end Endpoint

/-- What answers to a connection. Without a network nothing does; otherwise one
peer listens, which may turn the handshake down with a status line. -/
inductive Network where
  | down
  | peer (url : String) (refusal : Option String)
deriving Repr, DecidableEq

def Network.connect (n : Network) (url : String) : Except String Unit :=
  match Endpoint.ofUrl url, n with
  | .error f, _ => .error f.message
  | .ok e, .down => .error e.unreachable
  | .ok _, .peer there none =>
    if url = there then .ok () else .error "IO error: Connection refused (os error 111)"
  | .ok _, .peer there (some status) =>
    if url = there then .error ("HTTP error: " ++ status)
    else .error "IO error: Connection refused (os error 111)"

end TreeJudge

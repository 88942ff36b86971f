import TreeJudge.Shape.Fault

/-!
# What goes wrong in JSON text

A problem is a cause and, once it is known, the place: the number of bytes that
were still unread. Line and column are computed from that count and the text.
-/

set_option autoImplicit false

namespace TreeJudge.Json

inductive Cause where
  | endInValue
  | endInList
  | endInObject
  | endInString
  | expectedColon
  | expectedCommaOrBracket
  | expectedCommaOrBrace
  | expectedWord
  | expectedValue
  | invalidEscape
  | invalidNumber
  | numberOutOfRange
  | controlInString
  | keyNotString
  | loneSurrogate
  | halfSurrogatePair
  | trailingComma
  | trailingCharacters
  | tooDeep
  | shape (fault : Shape.Fault)
deriving Repr, DecidableEq

def Cause.message : Cause → String
  | .endInValue => "EOF while parsing a value"
  | .endInList => "EOF while parsing a list"
  | .endInObject => "EOF while parsing an object"
  | .endInString => "EOF while parsing a string"
  | .expectedColon => "expected `:`"
  | .expectedCommaOrBracket => "expected `,` or `]`"
  | .expectedCommaOrBrace => "expected `,` or `\x7d`"
  | .expectedWord => "expected ident"
  | .expectedValue => "expected value"
  | .invalidEscape => "invalid escape"
  | .invalidNumber => "invalid number"
  | .numberOutOfRange => "number out of range"
  | .controlInString =>
    "control character (\\u0000-\\u001F) found while parsing a string"
  | .keyNotString => "key must be a string"
  | .loneSurrogate => "lone leading surrogate in hex escape"
  | .halfSurrogatePair => "unexpected end of hex escape"
  | .trailingComma => "trailing comma"
  | .trailingCharacters => "trailing characters"
  | .tooDeep => "recursion limit exceeded"
  | .shape fault => fault.message

def bytes (cs : List Char) : Nat := (String.ofList cs).utf8ByteSize

/-- A pending problem was found in a finished value. It is placed where the
reader of the enclosing value stands when it gives up. -/
inductive Problem where
  | located (cause : Cause) (left : Nat)
  | pending (cause : Cause) (rest : List Char)
deriving Repr, DecidableEq

namespace Problem

def here (cause : Cause) (rest : List Char) : Problem := .located cause (bytes rest)

def next (cause : Cause) (rest : List Char) : Problem := .located cause (bytes rest - 1)

def cause : Problem → Cause
  | .located c _ => c
  | .pending c _ => c

end Problem

structure Place where
  line : Nat
  column : Nat
deriving Repr, DecidableEq

def Place.after : Nat → List Char → Place → Place
  | _, [], p => p
  | n, c :: cs, p =>
    if n < c.utf8Size then ⟨p.line, p.column + n⟩
    else if c = '\n' then Place.after (n - 1) cs ⟨p.line + 1, 0⟩
    else Place.after (n - c.utf8Size) cs ⟨p.line, p.column + c.utf8Size⟩

def Problem.message (text : String) : Problem → String
  | .located c left =>
    let cs := text.toList
    let p := Place.after (bytes cs - left) cs ⟨1, 0⟩
    c.message ++ " at line " ++ toString p.line ++ " column " ++ toString p.column
  | .pending c _ => c.message

abbrev Reads := Except Problem

abbrev Reader (α : Type) := List Char → Reads (α × List Char)

end TreeJudge.Json

/-!
# Session names

A session is named by eight hexadecimal digits behind a fixed word.
-/

set_option autoImplicit false

namespace TreeJudge.SessionName

def start : List Char := "sess_".toList

def isHex (c : Char) : Bool := ('0' ≤ c && c ≤ '9') || ('a' ≤ c && c ≤ 'f')

/-- The name that the low 32 bits of a number give. -/
def ofNat (n : Nat) : String :=
  let digits := Nat.toDigits 16 (n % UInt32.size)
  String.ofList (start ++ List.replicate (8 - digits.length) '0' ++ digits)

def isValid (s : String) : Bool :=
  match start.isPrefixOf? s.toList with
  | some digits => digits.length == 8 && digits.all isHex
  | none => false

end TreeJudge.SessionName

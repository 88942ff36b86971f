/-!
# Styled text

Output is a list of pieces, each with a color or in bold or neither. Only here
are pieces turned into text, with escape sequences or without.
-/

set_option autoImplicit false

namespace TreeJudge

inductive Color where
  | red
  | green
  | blue
  | cyan
deriving Repr, DecidableEq

def Color.code : Color → String
  | .red => "31"
  | .green => "32"
  | .blue => "34"
  | .cyan => "36"

structure Piece where
  color : Option Color
  bold : Bool
  text : String
deriving Repr, DecidableEq

namespace Piece

def plain (s : String) : Piece := ⟨none, false, s⟩

def strong (s : String) : Piece := ⟨none, true, s⟩

def colored (c : Color) (s : String) : Piece := ⟨some c, false, s⟩

def strongColored (c : Color) (s : String) : Piece := ⟨some c, true, s⟩

def sequence (code : String) : String := "\x1b[" ++ code ++ "m"

def styled (p : Piece) : Bool := p.color.isSome || p.bold

def opening (p : Piece) : String :=
  (match p.color with
   | some c => sequence c.code
   | none => "") ++ if p.bold then sequence "1" else ""

/-- A styled piece has its codes even when its text is empty. -/
def write (colors : Bool) (p : Piece) : String :=
  if colors && p.styled then p.opening ++ p.text ++ sequence "0" else p.text

@[simp] theorem write_plain (colors : Bool) (s : String) : (plain s).write colors = s := by
  simp [write, styled, plain]

theorem write_uncolored (p : Piece) : p.write false = p.text := by simp [write]

end Piece

def Piece.writeAll (colors : Bool) (ps : List Piece) : String :=
  String.join (ps.map (Piece.write colors))

end TreeJudge

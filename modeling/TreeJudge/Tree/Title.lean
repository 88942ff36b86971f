import TreeJudge.Text.Blank

/-!
# Node titles

A title is a sequence of segments separated by a closing brace and a line
feed. The first line of a segment is a label, the second, less one opening
brace, is its value; further lines carry nothing.
-/

set_option autoImplicit false

namespace TreeJudge

structure TitleField where
  label : String
  value : String
deriving Repr, DecidableEq

namespace Title
open Text

def consHead (c : Char) : List (List Char) → List (List Char)
  | [] => [[c]]
  | s :: ss => (c :: s) :: ss

theorem consHead_ne_nil (c : Char) (ss : List (List Char)) : consHead c ss ≠ [] := by
  cases ss <;> simp [consHead]

/-- Separators are found from the left and do not overlap. -/
def segments : List Char → List (List Char)
  | '}' :: '\n' :: rest => [] :: segments rest
  | c :: rest => consHead c (segments rest)
  | [] => [[]]

def lines : List Char → List (List Char)
  | '\n' :: rest => [] :: lines rest
  | c :: rest => consHead c (lines rest)
  | [] => [[]]

def dropBrace : List Char → List Char
  | '{' :: rest => rest
  | cs => cs

def field (segment : List Char) : TitleField :=
  match (lines segment).map trim with
  | label :: value :: _ => ⟨String.ofList label, String.ofList (dropBrace value)⟩
  | [label] => ⟨String.ofList label, ""⟩
  | [] => ⟨"", ""⟩

/-- The empty title has no fields; any other has one for each segment. -/
def fields (title : String) : List TitleField :=
  match title.toList with
  | [] => []
  | cs => (segments cs).map field

theorem fields_empty : fields "" = [] := rfl

end Title
end TreeJudge

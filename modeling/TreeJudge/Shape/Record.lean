import TreeJudge.Tree.NodeId

/-!
# Records and where they are read from

A record is described once: its name, its fields in order and the value that
stands before any field is read. A source says how texts, flags and records are
read from one kind of input; a list source reads identifiers and lists as well.
-/

set_option autoImplicit false

namespace TreeJudge.Shape

/-- Reading a field gives the change that it makes to the record. -/
structure Field (m : Type → Type) (α : Type) where
  name : String
  required : Bool
  read : m (α → α)

/-- Required fields overwrite their places in `start`; an optional field that
is absent leaves its default there. -/
structure Record (m : Type → Type) (α : Type) where
  name : String
  fields : List (Field m α)
  start : α

class Source (m : Type → Type) where
  map : {α β : Type} → (α → β) → m α → m β
  text : m String
  flag : m Bool
  record : {α : Type} → Record m α → m α

class TreeSource (m : Type → Type) extends Source m where
  identifier : m NodeId
  list : {α : Type} → m α → m (List α)

def expectedText : String := "a string"

def expectedFlag : String := "a boolean"

def expectedList : String := "a sequence"

def Record.expected {m : Type → Type} {α : Type} (r : Record m α) : String :=
  "struct " ++ r.name

section
variable {m : Type → Type} [Source m] {α β : Type}

def required (name : String) (read : m β) (put : β → α → α) : Field m α :=
  ⟨name, true, Source.map put read⟩

def optional (name : String) (read : m β) (put : β → α → α) : Field m α :=
  ⟨name, false, Source.map put read⟩

end

end TreeJudge.Shape

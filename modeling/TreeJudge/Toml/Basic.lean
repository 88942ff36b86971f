/-!
# TOML documents

A document is a table of items. A table remembers how it came about, because
that decides what may be added to it, and items remember where they stand.
-/

set_option autoImplicit false

namespace TreeJudge.Toml

/-- A stretch of text, by the number of characters left at its two ends. -/
structure Span where
  start : Nat
  stop : Nat
deriving Repr, DecidableEq

structure Key where
  name : String
  span : Span
deriving Repr, DecidableEq

inductive Scalar where
  | text (value : String)
  | integer (value : Int)
  | float (value : Float)
  | boolean (value : Bool)
  | date
deriving Repr

/-- How a table came about: by a header, as the parent of a header's table, by
a dotted key, or in braces. -/
inductive Origin where
  | header
  | parent
  | dotted
  | braces
deriving Repr, DecidableEq

def Origin.implicit : Origin → Bool
  | .parent | .dotted => true
  | .header | .braces => false

structure TableOf (ι : Type) where
  origin : Origin
  span : Option Span
  entries : List (Key × ι)
deriving Repr

inductive Item where
  | scalar (value : Scalar) (span : Span)
  | array (items : List Item) (span : Span)
  | table (table : TableOf Item)
  | tables (elements : List (TableOf Item))

abbrev Table := TableOf Item

def Table.empty (origin : Origin) : Table := ⟨origin, none, []⟩

namespace Table

def find? (t : Table) (name : String) : Option Item :=
  (t.entries.find? (·.1.name == name)).map (·.2)

def push (t : Table) (k : Key) (i : Item) : Table := { t with entries := t.entries ++ [(k, i)] }

def erase (t : Table) (name : String) : Table :=
  { t with entries := t.entries.filter (·.1.name != name) }

def modify (t : Table) (name : String) (i : Item) : Table :=
  { t with entries := t.entries.map fun e => if e.1.name == name then (e.1, i) else e }

end Table

namespace Item

def span? : Item → Option Span
  | .scalar _ s => some s
  | .array _ s => some s
  | .table t => t.span
  | .tables ts => do
    let first ← ts.head?
    let last ← ts.getLast?
    let a ← first.span
    let b ← last.span
    some ⟨a.start, b.stop⟩

end Item
end TreeJudge.Toml

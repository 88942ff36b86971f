import TreeJudge.Toml.Basic
import TreeJudge.Toml.Lexeme
import TreeJudge.Toml.Number

/-!
# Reading TOML text

A document is read line by line into a draft: the finished tables and the one
whose header came last. What is not TOML reads as nothing.
-/

set_option autoImplicit false

namespace TreeJudge.Toml

/-- Changes the table at the end of a path, and makes the tables on the way that
are not there. A dotted key must not enter a table that was claimed. -/
def Table.descend {β : Type} (dotted : Bool) (change : Table → Option (β × Table)) :
    List Key → Table → Option (β × Table)
  | [], t => change t
  | k :: ks, t =>
    match t.find? k.name with
    | none => do
      let made := Table.empty (if dotted then .dotted else .parent)
      let (b, sub) ← descend dotted change ks made
      some (b, t.push k (.table sub))
    | some (.table sub) =>
      if sub.origin = .braces ∨ (dotted ∧ !sub.origin.implicit) then none
      else do
        let (b, sub) ← descend dotted change ks sub
        some (b, t.modify k.name (.table sub))
    | some (.tables ts) => do
      let last ← ts.getLast?
      let (b, last) ← descend dotted change ks last
      some (b, t.modify k.name (.tables (ts.dropLast ++ [last])))
    | some _ => none

def Table.addKey (dotted : Bool) (k : Key) (i : Item) (t : Table) : Option (Unit × Table) :=
  if (t.origin == .dotted) != dotted ∨ (t.find? k.name).isSome then none
  else some ((), t.push k i)

def splitLast (path : List Key) : Option (List Key × Key) :=
  path.getLast?.map fun k => (path.dropLast, k)

def Table.insert (t : Table) (path : List Key) (i : Item) : Option Table := do
  let (parents, k) ← splitLast path
  let (_, t) ← t.descend true (Table.addKey (!parents.isEmpty) k i) parents
  some t

def separated {α : Type} (trailing : Bool) (close : Char)
    (skip : List Char → Option (List Char)) (item : Scanner α) : Nat → Scanner (List α)
  | 0, _ => none
  | n + 1, cs => do
    let (v, cs) ← item cs
    match ← skip cs with
    | ',' :: r =>
      let next ← skip r
      if trailing && next.head? = some close then some ([v], next.drop 1)
      else
        let (vs, r) ← separated trailing close skip item n next
        some (v :: vs, r)
    | c :: r => if c = close then some ([v], r) else none
    | [] => none

def items {α : Type} (trailing : Bool) (close : Char)
    (skip : List Char → Option (List Char)) (item : Scanner α) (cs : List Char) :
    Option (List α × List Char) := do
  match ← skip cs with
  | c :: r =>
    if c = close then some ([], r)
    else separated trailing close skip item (cs.length + 1) (c :: r)
  | [] => none

def pair (value : Scanner Item) (cs : List Char) : Option ((List Key × Item) × List Char) := do
  let (path, r) ← key cs
  let r ← char '=' r
  let (v, r) ← value (skipBlanks r)
  some ((path, v), r)

def inlineTable (pairs : List (List Key × Item)) : Option Table :=
  pairs.foldlM (fun t p => t.insert p.1 p.2) (Table.empty .braces)

def scalar (cs : List Char) : Option (Scalar × List Char) :=
  match cs with
  | '"' :: _ | '\'' :: _ => (fun p => (Scalar.text p.1, p.2)) <$> string cs
  | 't' :: r => (Scalar.boolean true, ·) <$> word ['r', 'u', 'e'] r
  | 'f' :: r => (Scalar.boolean false, ·) <$> word ['a', 'l', 's', 'e'] r
  | cs => number cs

def valueWith (item : Option (Scanner Item)) (cs : List Char) : Option (Item × List Char) :=
  match cs with
  | '[' :: r => do
    let (vs, r) ← items true ']' (fun cs => skipLines cs.length cs) (← item) r
    some (.array vs ⟨cs.length, r.length⟩, r)
  | '{' :: r => do
    let (ps, r) ← items false '}' (fun cs => some (skipBlanks cs)) (pair (← item)) r
    let t ← inlineTable ps
    some (.table { t with span := some ⟨cs.length, r.length⟩ }, r)
  | cs => do
    let (v, r) ← scalar cs
    some (.scalar v ⟨cs.length, r.length⟩, r)

def value : Nat → Scanner Item
  | 0 => valueWith none
  | n + 1 => valueWith (some (value n))

def deepest : Nat := 79

structure Draft where
  root : Table
  path : List Key
  element : Bool
  current : Table

namespace Draft

def start : Draft := ⟨.empty .header, [], false, .empty .header⟩

def finish (d : Draft) : Option Table :=
  match splitLast d.path with
  | none => some d.current
  | some (parents, k) => do
    let put (t : Table) : Option (Unit × Table) :=
      if d.element then
        match t.find? k.name with
        | none => some ((), t.push k (.tables [d.current]))
        | some (.tables ts) => some ((), t.modify k.name (.tables (ts ++ [d.current])))
        | some _ => none
      else
        match t.find? k.name with
        | none => some ((), t.push k (.table d.current))
        | some _ => none
    let (_, root) ← d.root.descend false put parents
    some root

/-- Takes out the table that a header opens: a new one, or one that so far was
only the parent of others. -/
def occupy (k : Key) (t : Table) : Option (Table × Table) :=
  match t.find? k.name with
  | none => some (.empty .header, t)
  | some (.table sub) =>
    if sub.origin = .parent then some ({ sub with origin := .header }, t.erase k.name) else none
  | some _ => none

def reserve (k : Key) (t : Table) : Option (Table × Table) :=
  match t.find? k.name with
  | none | some (.tables _) => some (.empty .header, t)
  | some _ => none

def header (d : Draft) (path : List Key) (element : Bool) (span : Span) : Option Draft := do
  let root ← d.finish
  let (parents, k) ← splitLast path
  let (t, root) ← root.descend false (if element then reserve k else occupy k) parents
  some ⟨root, path, element, { t with span := some span }⟩

/-- The span of a table reaches to the end of its last value. -/
def line (d : Draft) (path : List Key) (i : Item) : Option Draft := do
  let span : Option Span := match d.current.span, i.span? with
    | some a, some b => some ⟨a.start, b.stop⟩
    | s, _ => s
  let current : Table := { d.current with span := span }
  let current ← current.insert path i
  some { d with current := current }

end Draft

def headerLine (d : Draft) (cs : List Char) : Option (Draft × List Char) := do
  match cs with
  | '[' :: '[' :: r =>
    let (path, r) ← key r
    let r ← word [']', ']'] r
    let d ← d.header path true ⟨cs.length, r.length⟩
    let r ← lineEnd? r
    some (d, r)
  | '[' :: r =>
    let (path, r) ← key r
    let r ← char ']' r
    let d ← d.header path false ⟨cs.length, r.length⟩
    let r ← lineEnd? r
    some (d, r)
  | _ => none

def readLine (d : Draft) (cs : List Char) : Option (Draft × List Char) := do
  match skipBlanks cs with
  | '[' :: r => headerLine d ('[' :: r)
  | '#' :: r =>
    let r ← lineEnd? ('#' :: r)
    some (d, r)
  | c :: r =>
    if c = '\n' ∨ c = '\r' then
      let r ← newline? (c :: r)
      some (d, r)
    else
      let ((path, i), r) ← pair (value deepest) (c :: r)
      let d ← d.line path i
      let r ← lineEnd? r
      some (d, r)
  | [] => some (d, [])

def readLines : Nat → Draft → List Char → Option Table
  | _, d, [] => d.finish
  | 0, _, _ :: _ => none
  | n + 1, d, cs => do
    let (d, cs) ← readLine d cs
    readLines n d cs

def dropMark : List Char → List Char
  | '\ufeff' :: r => r
  | r => r

def parse? (text : String) : Option Table :=
  let cs := dropMark text.toList
  readLines (cs.length + 1) .start cs

end TreeJudge.Toml

/-!
# Node identifiers

An identifier is a 64-bit integer or a text. They are ordered: integers by
value first, then texts by code point. A set of identifiers is kept as its
increasing list.
-/

set_option autoImplicit false

namespace TreeJudge

inductive NodeId where
  | number (value : Int64)
  | text (value : String)
deriving Repr, DecidableEq

namespace NodeId

instance : Inhabited NodeId := ⟨.number 0⟩

def shown : NodeId → String
  | .number n => toString n.toInt
  | .text s => s

def Before : NodeId → NodeId → Prop
  | .number a, .number b => a.toInt < b.toInt
  | .number _, .text _ => True
  | .text _, .number _ => False
  | .text a, .text b => a < b

instance (a b : NodeId) : Decidable (Before a b) := by
  cases a <;> cases b <;> unfold Before <;> infer_instance

end NodeId

/-- A finite set of identifiers as its increasing list. -/
structure IdSet where
  toList : List NodeId
deriving Repr, DecidableEq

namespace IdSet

def empty : IdSet := ⟨[]⟩

def insertInto (x : NodeId) : List NodeId → List NodeId
  | [] => [x]
  | y :: ys =>
    if x = y then y :: ys
    else if x.Before y then x :: y :: ys
    else y :: insertInto x ys

def insert (s : IdSet) (x : NodeId) : IdSet := ⟨insertInto x s.toList⟩

def ofList (xs : List NodeId) : IdSet := xs.foldl insert empty

def contains (s : IdSet) (x : NodeId) : Bool := s.toList.contains x

instance : Membership NodeId IdSet := ⟨fun s x => x ∈ s.toList⟩

instance (s : IdSet) (x : NodeId) : Decidable (x ∈ s) :=
  inferInstanceAs (Decidable (x ∈ s.toList))

theorem contains_iff (s : IdSet) (x : NodeId) : s.contains x = true ↔ x ∈ s :=
  List.contains_iff_mem

theorem mem_insertInto (x y : NodeId) (ys : List NodeId) :
    x ∈ insertInto y ys ↔ x = y ∨ x ∈ ys := by
  induction ys with
  | nil => simp [insertInto]
  | cons z zs ih =>
    unfold insertInto
    split
    · next h => subst h; simp
    · split
      · simp
      · simp only [List.mem_cons, ih]
        constructor <;> rintro (h | h | h) <;> simp [h]

theorem mem_insert (s : IdSet) (x y : NodeId) : x ∈ s.insert y ↔ x = y ∨ x ∈ s :=
  mem_insertInto x y s.toList

theorem insertInto_insertInto (x : NodeId) (ys : List NodeId) :
    insertInto x (insertInto x ys) = insertInto x ys := by
  induction ys with
  | nil => simp [insertInto]
  | cons y ys ih =>
    by_cases hxy : x = y
    · simp [insertInto, hxy]
    · by_cases hb : x.Before y <;> simp [insertInto, hxy, hb, ih]

theorem insert_insert (s : IdSet) (x : NodeId) : (s.insert x).insert x = s.insert x :=
  congrArg IdSet.mk (insertInto_insertInto x s.toList)

end IdSet
end TreeJudge

import Mathlib.Data.List.Forall2
import TreeJudge.Proofs.Json.Reading

/-!
# What a text says before it is a value

A text may name a member several times and write integers of any size. A document keeps
all of that: every member in its place, every integer as it is written. To read a value
is to read the document and to resolve it: an integer that does not fit is rounded, and
of the members with one name the last gives the value. So what is said about every text
can be said about documents, without the characters.
-/

set_option autoImplicit false

namespace TreeJudge.Json

def integer? (cs : List Char) : Option (Int × List Char) :=
  let negative := cs.head? == some '-'
  let body := if negative then cs.tail else cs
  let size := Nat.ofDigitChars 10 (body.takeWhile isDigit) 0
  let n : Int := if negative then -size else size
  let rest := body.dropWhile isDigit
  if cs = writeInt n ++ rest ∧ EndsNumber rest then some (n, rest) else none

/-- A value without items, where an integer in canonical form may have any size. -/
def exactScalar (cs : List Char) : Reads (Json × List Char) :=
  match integer? cs with
  | some p => .ok (.int p.1, p.2)
  | none => scalar cs

def documentAt : Nat → Reader Json
  | 0 => valueBy .obj exactScalar none
  | n + 1 => valueBy .obj exactScalar (some (documentAt n))

def document (text : String) : Reads Json := complete (documentAt deepest) text

mutual

/-- The value of a document, if its integers are not too large for a float. -/
def resolve : Json → Option Json
  | .int n => rounded n
  | .arr vs => (resolveItems vs).map .arr
  | .obj ms => (resolveMembers ms).map ofMembers
  | v => some v

def resolveItems : List Json → Option (List Json)
  | [] => some []
  | v :: vs => (resolve v).bind fun w => (resolveItems vs).map (w :: ·)

def resolveMembers : List (String × Json) → Option (List (String × Json))
  | [] => some []
  | (k, v) :: ms => (resolve v).bind fun w => (resolveMembers ms).map ((k, w) :: ·)

end

def ResolvesMember (m n : String × Json) : Prop := m.1 = n.1 ∧ m.2.resolve = some n.2

theorem resolveItems_eq_some {vs ws : List Json} :
    resolveItems vs = some ws ↔ List.Forall₂ (fun v w => v.resolve = some w) vs ws := by
  induction vs generalizing ws with
  | nil => simp [resolveItems, eq_comm]
  | cons v vs ih =>
    simp only [resolveItems, Option.bind_eq_some_iff, Option.map_eq_some_iff, ih,
      List.forall₂_cons_left_iff]
    constructor
    · rintro ⟨w, hw, ws, hws, rfl⟩
      exact ⟨w, ws, hw, hws, rfl⟩
    · rintro ⟨w, ws, hw, hws, rfl⟩
      exact ⟨w, hw, ws, hws, rfl⟩

theorem resolveMembers_eq_some {ms ns : List (String × Json)} :
    resolveMembers ms = some ns ↔ List.Forall₂ ResolvesMember ms ns := by
  induction ms generalizing ns with
  | nil => simp [resolveMembers, eq_comm]
  | cons m ms ih =>
    obtain ⟨k, v⟩ := m
    simp only [resolveMembers, Option.bind_eq_some_iff, Option.map_eq_some_iff, ih,
      List.forall₂_cons_left_iff]
    constructor
    · rintro ⟨w, hw, ns, hns, rfl⟩
      exact ⟨(k, w), ns, ⟨rfl, hw⟩, hns, rfl⟩
    · rintro ⟨⟨l, w⟩, ns, ⟨rfl, hw⟩, hns, rfl⟩
      exact ⟨w, hw, ns, hns, rfl⟩

theorem isSome_resolveItems {vs : List Json} :
    (resolveItems vs).isSome = true ↔ ∀ v ∈ vs, v.resolve.isSome = true := by
  induction vs with
  | nil => simp [resolveItems]
  | cons v vs ih =>
    rw [List.forall_mem_cons, ← ih, resolveItems]
    cases v.resolve <;> simp

theorem isSome_resolveMembers {ms : List (String × Json)} :
    (resolveMembers ms).isSome = true ↔ ∀ m ∈ ms, m.2.resolve.isSome = true := by
  induction ms with
  | nil => simp [resolveMembers]
  | cons m ms ih =>
    rw [List.forall_mem_cons, ← ih, resolveMembers]
    cases m.2.resolve <;> simp

section
variable {cs rest : List Char} {n : Int}

theorem integer?_eq_some :
    integer? cs = some (n, rest) ↔ cs = writeInt n ++ rest ∧ EndsNumber rest := by
  constructor
  · intro h
    simp only [integer?, Option.ite_none_right_eq_some] at h
    obtain ⟨hc, hp⟩ := h
    cases hp
    exact hc
  · rintro ⟨rfl, hr⟩
    obtain ⟨htake, hdrop⟩ := span_toDigits n.natAbs hr
    have hsize : Nat.ofDigitChars 10 (Nat.toDigits 10 n.natAbs) 0 = n.natAbs :=
      Nat.ofDigitChars_ten_toDigits
    cases n with
    | ofNat m =>
      obtain ⟨d, ds, hd, hdigit⟩ := toDigits_opens m
      have hsign : ((writeInt (Int.ofNat m) ++ rest).head? == some '-') = false := by
        have hne : d ≠ '-' := by
          rintro rfl
          cases hdigit
        simp [writeInt, hd, hne]
      have hbody : writeInt (Int.ofNat m) ++ rest =
          Nat.toDigits 10 (Int.ofNat m).natAbs ++ rest := rfl
      simp only [integer?, hsign, Bool.false_eq_true, if_false]
      rw [hbody, htake, hdrop, hsize]
      exact if_pos ⟨rfl, hr⟩
    | negSucc m =>
      have hbody : (writeInt (Int.negSucc m) ++ rest).tail =
          Nat.toDigits 10 (Int.negSucc m).natAbs ++ rest := rfl
      have hsign : ((writeInt (Int.negSucc m) ++ rest).head? == some '-') = true := rfl
      simp only [integer?, hsign, if_true]
      rw [hbody, htake, hdrop, hsize]
      exact if_pos ⟨rfl, hr⟩

end

theorem Plain.resolve {v : Json} (h : v.Plain) : v.resolve = some v := by
  cases v with
  | int n => exact rounded_of_fits (h.fits n rfl)
  | arr vs => exact h.scalar.elim
  | obj ms => exact h.scalar.elim
  | _ => rfl

theorem resolve_eq_str {d : Json} {s : String} (h : d.resolve = some (.str s)) : d = .str s := by
  cases d with
  | int n =>
    by_cases hn : Fits n
    · cases (rounded_of_fits hn).symm.trans h
    · obtain ⟨x, hx⟩ := rounded_of_not_fits hn h
      cases hx
  | arr vs =>
    obtain ⟨_, -, ⟨⟩⟩ := Option.map_eq_some_iff.mp h
  | obj ms =>
    obtain ⟨_, -, ⟨⟩⟩ := Option.map_eq_some_iff.mp h
  | _ => exact Option.some.inj h

section
variable {α β : Type} {R : α → β → Prop} {doc : Reader α} {read : Reader β}

/-- One reader answers what the other does, as far as a relation lets it. -/
def Follows (R : α → β → Prop) (doc : Reader α) (read : Reader β) : Prop :=
  ∀ cs b rest, read cs = .ok (b, rest) ↔ ∃ a, doc cs = .ok (a, rest) ∧ R a b

theorem Follows.itemLoop (h : Follows R doc read) (clock : List Char) (first : Bool) :
    Follows (List.Forall₂ R) (itemLoop doc clock first) (itemLoop read clock first) := by
  induction clock generalizing first with
  | nil => exact fun cs bs rest => ⟨nofun, fun ⟨_, hdoc, _⟩ => nomatch hdoc⟩
  | cons tick clock ih =>
    intro cs bs rest
    simp only [itemLoop_eq_ok]
    constructor
    · rintro (⟨hat, rfl⟩ | ⟨cs', b, cs'', bs, hat, hb, hbs, rfl⟩)
      · exact ⟨[], .inl ⟨hat, rfl⟩, .nil⟩
      · obtain ⟨a, ha, hab⟩ := (h _ _ _).mp hb
        obtain ⟨as, has, hall⟩ := (ih false _ _ _).mp hbs
        exact ⟨a :: as, .inr ⟨cs', a, cs'', as, hat, ha, has, rfl⟩, .cons hab hall⟩
    · rintro ⟨_, ⟨hat, rfl⟩ | ⟨cs', a, cs'', as, hat, ha, has, rfl⟩, hall⟩
      · cases hall
        exact .inl ⟨hat, rfl⟩
      · cases hall with
        | @cons _ b _ bs hab hall =>
          exact .inr ⟨cs', b, cs'', bs, hat, (h _ _ _).mpr ⟨a, ha, hab⟩,
            (ih false _ _ _).mpr ⟨as, has, hall⟩, rfl⟩

theorem Follows.memberLoop (h : Follows R doc read) (clock : List Char) (first : Bool) :
    Follows (List.Forall₂ fun m n => m.1 = n.1 ∧ R m.2 n.2) (memberLoop doc clock first)
      (memberLoop read clock first) := by
  induction clock generalizing first with
  | nil => exact fun cs bs rest => ⟨nofun, fun ⟨_, hdoc, _⟩ => nomatch hdoc⟩
  | cons tick clock ih =>
    intro cs ns rest
    simp only [memberLoop_eq_ok]
    constructor
    · rintro (⟨hat, rfl⟩ | ⟨key, cs₁, cs₂, b, cs₃, ns, hat, hcolon, hb, hns, rfl⟩)
      · exact ⟨[], .inl ⟨hat, rfl⟩, .nil⟩
      · obtain ⟨a, ha, hab⟩ := (h _ _ _).mp hb
        obtain ⟨ms, hms, hall⟩ := (ih false _ _ _).mp hns
        exact ⟨(key, a) :: ms, .inr ⟨key, cs₁, cs₂, a, cs₃, ms, hat, hcolon, ha, hms, rfl⟩,
          .cons ⟨rfl, hab⟩ hall⟩
    · rintro ⟨_, ⟨hat, rfl⟩ | ⟨key, cs₁, cs₂, a, cs₃, ms, hat, hcolon, ha, hms, rfl⟩, hall⟩
      · cases hall
        exact .inl ⟨hat, rfl⟩
      · cases hall with
        | @cons _ n _ ns hab hall =>
          obtain ⟨_, b⟩ := n
          obtain ⟨rfl, hab⟩ := hab
          exact .inr ⟨key, cs₁, cs₂, b, cs₃, ns, hat, hcolon, (h _ _ _).mpr ⟨a, ha, hab⟩,
            (ih false _ _ _).mpr ⟨ms, hms, hall⟩, rfl⟩

end

abbrev Resolves (d v : Json) : Prop := d.resolve = some v

theorem follows_scalar : Follows Resolves exactScalar scalar := by
  intro cs v rest
  unfold exactScalar
  cases hint : integer? cs with
  | none =>
    constructor
    · exact fun h => ⟨v, h, (plain_scalar h).resolve⟩
    · rintro ⟨d, hd, hv⟩
      have hsame := (plain_scalar hd).resolve.symm.trans hv
      cases hsame
      exact hd
  | some p =>
    obtain ⟨n, r⟩ := p
    obtain ⟨rfl, hr⟩ := integer?_eq_some.mp hint
    rw [scalar_integer hr]
    constructor
    · rintro ⟨hv, rfl⟩
      exact ⟨.int n, rfl, hv⟩
    · rintro ⟨d, hd, hv⟩
      cases hd
      exact ⟨hv, rfl⟩

inductive FollowsAny : Option (Reader Json) → Option (Reader Json) → Prop
  | none : FollowsAny none none
  | some {doc read : Reader Json} (h : Follows Resolves doc read) :
      FollowsAny (some doc) (some read)

theorem follows_valueBy {doc read : Option (Reader Json)} (h : FollowsAny doc read) :
    Follows Resolves (valueBy .obj exactScalar doc) (valueWith read) := by
  intro cs v rest
  rw [valueWith_eq_valueBy]
  simp only [valueBy_eq_ok]
  constructor
  · rintro (⟨r, item, vs, r', hs, rfl, hvs, hend, rfl⟩ |
      ⟨r, item, ms, r', hs, rfl, hms, hend, rfl⟩ | ⟨hlist, hobject, hlone⟩)
    · cases h with
      | @some item' _ h =>
        obtain ⟨ds, hds, hall⟩ := (h.itemLoop _ _ _ _ _).mp hvs
        exact ⟨.arr ds, .inl ⟨r, item', ds, r', hs, rfl, hds, hend, rfl⟩,
          Option.map_eq_some_iff.mpr ⟨vs, resolveItems_eq_some.mpr hall, rfl⟩⟩
    · cases h with
      | @some item' _ h =>
        obtain ⟨ds, hds, hall⟩ := (h.memberLoop _ _ _ _ _).mp hms
        exact ⟨.obj ds, .inr (.inl ⟨r, item', ds, r', hs, rfl, hds, hend, rfl⟩),
          Option.map_eq_some_iff.mpr ⟨ms, resolveMembers_eq_some.mpr hall, rfl⟩⟩
    · obtain ⟨d, hd, hv⟩ := (follows_scalar _ _ _).mp hlone
      exact ⟨d, .inr (.inr ⟨hlist, hobject, hd⟩), hv⟩
  · rintro ⟨d, ⟨r, item, ds, r', hs, rfl, hds, hend, rfl⟩ |
      ⟨r, item, ds, r', hs, rfl, hds, hend, rfl⟩ | ⟨hlist, hobject, hlone⟩, hv⟩
    · cases h with
      | @some _ item' h =>
        obtain ⟨vs, hvs, rfl⟩ := Option.map_eq_some_iff.mp hv
        exact .inl ⟨r, item', vs, r', hs, rfl,
          (h.itemLoop _ _ _ _ _).mpr ⟨ds, hds, resolveItems_eq_some.mp hvs⟩, hend, rfl⟩
    · cases h with
      | @some _ item' h =>
        obtain ⟨ms, hms, rfl⟩ := Option.map_eq_some_iff.mp hv
        exact .inr (.inl ⟨r, item', ms, r', hs, rfl,
          (h.memberLoop _ _ _ _ _).mpr ⟨ds, hds, resolveMembers_eq_some.mp hms⟩, hend, rfl⟩)
    · exact .inr (.inr ⟨hlist, hobject, (follows_scalar _ _ _).mpr ⟨d, hlone, hv⟩⟩)

theorem follows_value (n : Nat) : Follows Resolves (documentAt n) (value n) := by
  induction n with
  | zero => exact follows_valueBy .none
  | succ n ih => exact follows_valueBy (.some ih)

/-- A text is read as a value exactly when it says a document that resolves to it. -/
theorem parse_eq_ok_iff {text : String} {v : Json} :
    parse text = .ok v ↔ ∃ d, document text = .ok d ∧ d.resolve = some v := by
  simp only [parse, document, complete_eq_ok, follows_value deepest _ _ _]
  constructor
  · rintro ⟨rest, ⟨d, hd, hv⟩, hend⟩
    exact ⟨d, ⟨rest, hd, hend⟩, hv⟩
  · rintro ⟨d, ⟨rest, hd, hend⟩, hv⟩
    exact ⟨rest, ⟨d, hd, hv⟩, hend⟩

end TreeJudge.Json

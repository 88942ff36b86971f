import TreeJudge.Proofs.Json.Integers
import TreeJudge.Proofs.Json.Numbers
import TreeJudge.Proofs.Shape.Kept

/-!
# What holds of every value that is read

A value of a text is built by its readers: values without items, whose floats are numbers
and whose integers fit in 64 bits, then arrays of values and objects of members with
different keys. So what holds of the first and is passed on to the others holds of every
value that is read.
-/

set_option autoImplicit false

namespace TreeJudge.Json
open Shape (bind_eq_ok map_eq_ok)

theorem mem_keys_put {ms : List (String × Json)} {k x : String} {v : Json}
    (h : x ∈ (put ms k v).map Prod.fst) : x = k ∨ x ∈ ms.map Prod.fst := by
  induction ms with
  | nil => simpa [put] using h
  | cons m ms ih =>
    by_cases hk : m.1 = k
    · exact .inr (by simpa [put, hk] using h)
    · simp only [put, hk, if_false, List.map_cons, List.mem_cons] at h ⊢
      rcases h with rfl | h
      · exact .inr (.inl rfl)
      · exact (ih h).imp_right .inr

theorem nodup_put {ms : List (String × Json)} (h : (ms.map Prod.fst).Nodup) (k : String)
    (v : Json) : ((put ms k v).map Prod.fst).Nodup := by
  induction ms with
  | nil => simp [put]
  | cons m ms ih =>
    obtain ⟨hm, hms⟩ := List.nodup_cons.mp h
    by_cases hk : m.1 = k
    · simpa [put, hk] using h
    · simp only [put, hk, if_false, List.map_cons, List.nodup_cons]
      exact ⟨fun hmem => (mem_keys_put hmem).elim hk hm, ih hms⟩

theorem mem_put {ms : List (String × Json)} {k : String} {v : Json} {m : String × Json}
    (h : m ∈ put ms k v) : m.2 = v ∨ m ∈ ms := by
  induction ms with
  | nil =>
    simp only [put, List.mem_singleton] at h
    exact .inl (by rw [h])
  | cons n ms ih =>
    by_cases hk : n.1 = k
    · simp only [put, hk, if_true, List.mem_cons] at h
      rcases h with rfl | h
      · exact .inl rfl
      · exact .inr (List.mem_cons_of_mem n h)
    · simp only [put, hk, if_false, List.mem_cons] at h
      rcases h with rfl | h
      · exact .inr List.mem_cons_self
      · exact (ih h).imp_right (List.mem_cons_of_mem n)

theorem forall_ofMembers {P : Json → Prop} {ms : List (String × Json)} (h : ∀ m ∈ ms, P m.2) :
    ∃ done, ofMembers ms = .obj done ∧ (done.map Prod.fst).Nodup ∧ ∀ m ∈ done, P m.2 := by
  have hfold : ∀ done : List (String × Json), (done.map Prod.fst).Nodup →
      (∀ m ∈ done, P m.2) →
      ((ms.foldl (fun done m => put done m.1 m.2) done).map Prod.fst).Nodup ∧
        ∀ m ∈ ms.foldl (fun done m => put done m.1 m.2) done, P m.2 := by
    induction ms with
    | nil => exact fun done hdone hvalues => ⟨hdone, hvalues⟩
    | cons m ms ih =>
      intro done hdone hvalues
      refine ih (fun n hn => h n (List.mem_cons_of_mem m hn)) (put done m.1 m.2)
        (nodup_put hdone m.1 m.2) ?_
      intro n hn
      rcases mem_put hn with hv | hn
      · rw [hv]
        exact h m List.mem_cons_self
      · exact hvalues n hn
  exact ⟨_, rfl, hfold [] List.nodup_nil (by simp)⟩

def Scalar : Json → Prop
  | .arr _ | .obj _ => False
  | _ => True

structure Plain (v : Json) : Prop where
  scalar : v.Scalar
  number : ∀ x, v = .float x → x.isNaN = false
  fits : ∀ n, v = .int n → Fits n

theorem plain_float {x : Float} (h : x.isNaN = false) : (float x).Plain :=
  ⟨trivial, fun y hy => by cases hy; exact h, nofun⟩

theorem plain_int {n : Int} (h : Fits n) : (int n).Plain :=
  ⟨trivial, nofun, fun m hm => by cases hm; exact h⟩

section
variable {cs rest : List Char} {v : Json}

theorem plain_floating {negative : Bool} {significand : Nat} {exponent : Int}
    (h : floating negative significand exponent cs = .ok (v, rest)) : v.Plain := by
  unfold floating at h
  split at h
  · next x hx =>
    cases h
    exact plain_float ((isNaN_signed negative x).trans (isNaN_scaled hx))
  · cases h

theorem plain_exponentPart {negative : Bool} {significand : Nat} {shift : Int}
    (h : exponentPart negative significand shift cs = .ok (v, rest)) : v.Plain := by
  unfold exponentPart at h
  dsimp only at h
  split at h
  · cases h
  · split at h
    · split at h
      · exact plain_floating h
      · -- a too large exponent, behind either sign or none
        split at h
        all_goals
          split at h
          · cases h
          · cases h
            exact plain_float ((isNaN_signed negative 0.0).trans (by decide +kernel))
    · cases h

theorem plain_fractionPart {negative : Bool} {significand : Nat} {shift : Int}
    (h : fractionPart negative significand shift cs = .ok (v, rest)) : v.Plain := by
  unfold fractionPart at h
  dsimp only at h
  split at h
  · cases h
  · cases h
  · split at h
    · split at h
      · exact plain_exponentPart h
      · exact plain_floating h
    · exact plain_floating h

theorem plain_whole (negative : Bool) {significand : Nat}
    (hs : significand ≤ largestSignificand) : (whole negative significand).Plain := by
  have hlargest : largestSignificand = 2 ^ 64 - 1 := rfl
  have hpower : Nat.pow 2 63 = 2 ^ 63 := rfl
  unfold whole
  split
  · split
    · exact plain_float ((isNaN_neg _).trans (isNaN_toFloat _))
    · exact plain_int ⟨by omega, by omega⟩
  · exact plain_int ⟨by omega, by omega⟩

theorem plain_afterWhole {negative : Bool} {significand unused : Nat}
    (hs : significand ≤ largestSignificand)
    (h : afterWhole negative significand unused cs = .ok (v, rest)) : v.Plain := by
  unfold afterWhole at h
  split at h
  · exact plain_fractionPart h
  · exact plain_exponentPart h
  · exact plain_exponentPart h
  · split at h
    · cases h
      exact plain_whole negative hs
    · exact plain_floating h

theorem plain_number {negative : Bool} (h : number negative cs = .ok (v, rest)) : v.Plain := by
  unfold number at h
  split at h
  · cases h
  · split at h
    · split at h
      · cases h
      · exact plain_afterWhole (Nat.zero_le _) h
    · exact plain_afterWhole (Nat.zero_le _) h
  · split at h
    · exact plain_afterWhole (collect_le (Nat.zero_le _) _) h
    · cases h

theorem plain_scalar (h : scalar cs = .ok (v, rest)) : v.Plain := by
  unfold scalar at h
  split at h
  · cases h
  · obtain ⟨_, -, he⟩ := map_eq_ok.mp h
    cases he
    exact ⟨trivial, nofun, nofun⟩
  · obtain ⟨_, -, he⟩ := map_eq_ok.mp h
    cases he
    exact ⟨trivial, nofun, nofun⟩
  · obtain ⟨_, -, he⟩ := map_eq_ok.mp h
    cases he
    exact ⟨trivial, nofun, nofun⟩
  · exact plain_number h
  · obtain ⟨_, -, he⟩ := map_eq_ok.mp h
    cases he
    exact ⟨trivial, nofun, nofun⟩
  · split at h
    · exact plain_number h
    · cases h

end

section
variable {α : Type} {P : α → Prop} {item : Reader α}

theorem itemLoop_eq_ok {tick : Char} {clock cs rest : List Char} {first : Bool} {as : List α} :
    itemLoop item (tick :: clock) first cs = .ok (as, rest) ↔
      (atItem first cs = .ok (false, rest) ∧ as = []) ∨
      ∃ cs' a cs'' bs, atItem first cs = .ok (true, cs') ∧ item cs' = .ok (a, cs'') ∧
        itemLoop item clock false cs'' = .ok (bs, rest) ∧ as = a :: bs := by
  constructor
  · intro h
    obtain ⟨⟨more, cs'⟩, hat, hmore⟩ := bind_eq_ok.mp h
    cases more with
    | false =>
      cases hmore
      exact .inl ⟨hat, rfl⟩
    | true =>
      obtain ⟨⟨a, cs''⟩, ha, hrest⟩ := bind_eq_ok.mp hmore
      obtain ⟨⟨bs, _⟩, hbs, hok⟩ := bind_eq_ok.mp hrest
      cases hok
      exact .inr ⟨cs', a, cs'', bs, hat, ha, hbs, rfl⟩
  · rintro (⟨hat, rfl⟩ | ⟨cs', a, cs'', bs, hat, ha, hbs, rfl⟩)
    · exact bind_eq_ok.mpr ⟨_, hat, rfl⟩
    · refine bind_eq_ok.mpr ⟨_, hat, bind_eq_ok.mpr ⟨_, ha, bind_eq_ok.mpr ⟨_, hbs, rfl⟩⟩⟩

theorem memberLoop_eq_ok {tick : Char} {clock cs rest : List Char} {first : Bool}
    {ms : List (String × α)} :
    memberLoop item (tick :: clock) first cs = .ok (ms, rest) ↔
      (atKey first cs = .ok (none, rest) ∧ ms = []) ∨
      ∃ key cs₁ cs₂ a cs₃ ns, atKey first cs = .ok (some key, cs₁) ∧ colon cs₁ = .ok cs₂ ∧
        item cs₂ = .ok (a, cs₃) ∧ memberLoop item clock false cs₃ = .ok (ns, rest) ∧
        ms = (key, a) :: ns := by
  constructor
  · intro h
    obtain ⟨⟨key, cs₁⟩, hat, hmore⟩ := bind_eq_ok.mp h
    cases key with
    | none =>
      cases hmore
      exact .inl ⟨hat, rfl⟩
    | some key =>
      obtain ⟨cs₂, hcolon, hvalue⟩ := bind_eq_ok.mp hmore
      obtain ⟨⟨a, cs₃⟩, ha, hrest⟩ := bind_eq_ok.mp hvalue
      obtain ⟨⟨ns, _⟩, hns, hok⟩ := bind_eq_ok.mp hrest
      cases hok
      exact .inr ⟨key, cs₁, cs₂, a, cs₃, ns, hat, hcolon, ha, hns, rfl⟩
  · rintro (⟨hat, rfl⟩ | ⟨key, cs₁, cs₂, a, cs₃, ns, hat, hcolon, ha, hns, rfl⟩)
    · exact bind_eq_ok.mpr ⟨_, hat, rfl⟩
    · exact bind_eq_ok.mpr ⟨_, hat, bind_eq_ok.mpr ⟨_, hcolon, bind_eq_ok.mpr ⟨_, ha,
        bind_eq_ok.mpr ⟨_, hns, rfl⟩⟩⟩⟩

theorem itemLoop_forall (hitem : ∀ cs a rest, item cs = .ok (a, rest) → P a)
    {clock cs rest : List Char} {first : Bool} {as : List α}
    (h : itemLoop item clock first cs = .ok (as, rest)) : ∀ a ∈ as, P a := by
  induction clock generalizing first cs as with
  | nil => cases h
  | cons tick clock ih =>
    rcases itemLoop_eq_ok.mp h with ⟨-, rfl⟩ | ⟨_, _, _, _, -, ha, hbs, rfl⟩
    · simp
    · exact List.forall_mem_cons.mpr ⟨hitem _ _ _ ha, ih hbs⟩

theorem memberLoop_forall (hitem : ∀ cs a rest, item cs = .ok (a, rest) → P a)
    {clock cs rest : List Char} {first : Bool} {ms : List (String × α)}
    (h : memberLoop item clock first cs = .ok (ms, rest)) : ∀ m ∈ ms, P m.2 := by
  induction clock generalizing first cs ms with
  | nil => cases h
  | cons tick clock ih =>
    rcases memberLoop_eq_ok.mp h with ⟨-, rfl⟩ | ⟨_, _, _, _, _, _, -, -, ha, hns, rfl⟩
    · simp
    · exact List.forall_mem_cons.mpr ⟨hitem _ _ _ ha, ih hns⟩

theorem closing_eq_ok {a b : α} {e : Option Problem × List Char} {rest : List Char} :
    closing a e = .ok (b, rest) ↔ e = (none, rest) ∧ b = a := by
  obtain ⟨problem, cs⟩ := e
  cases problem <;> simp [closing, and_comm, eq_comm]

end

/-- What a reader of values does is settled by what it makes of members and of a value
without items. -/
def valueBy (object : List (String × Json) → Json) (lone : Reader Json)
    (item : Option (Reader Json)) (cs : List Char) : Reads (Json × List Char) :=
  match skipSpace cs with
  | '[' :: r =>
    match item with
    | none => .error (.next .tooDeep ('[' :: r))
    | some item => do
      let (vs, r) ← items item r
      closing (.arr vs) (endList r)
  | '{' :: r =>
    match item with
    | none => .error (.next .tooDeep ('{' :: r))
    | some item => do
      let (ms, r) ← members item r
      closing (object ms) (endObject r)
  | r => lone r

theorem valueWith_eq_valueBy : valueWith = valueBy ofMembers scalar := rfl

theorem valueBy_eq_ok {object : List (String × Json) → Json} {lone : Reader Json}
    {item : Option (Reader Json)} {cs rest : List Char} {v : Json} :
    valueBy object lone item cs = .ok (v, rest) ↔
      (∃ r read vs r', skipSpace cs = '[' :: r ∧ item = some read ∧
        items read r = .ok (vs, r') ∧ endList r' = (none, rest) ∧ v = .arr vs) ∨
      (∃ r read ms r', skipSpace cs = '{' :: r ∧ item = some read ∧
        members read r = .ok (ms, r') ∧ endObject r' = (none, rest) ∧ v = object ms) ∨
      ((skipSpace cs).head? ≠ some '[' ∧ (skipSpace cs).head? ≠ some '{' ∧
        lone (skipSpace cs) = .ok (v, rest)) := by
  unfold valueBy
  split
  · next r hs =>
    cases item with
    | none => simp [hs]
    | some read => simp [hs, bind_eq_ok, closing_eq_ok]
  · next r hs =>
    cases item with
    | none => simp [hs]
    | some read => simp [hs, bind_eq_ok, closing_eq_ok]
  · next hlist hobject =>
    have hlist' : (skipSpace cs).head? ≠ some '[' := fun h =>
      (List.head?_eq_some_iff.mp h).elim hlist
    have hobject' : (skipSpace cs).head? ≠ some '{' := fun h =>
      (List.head?_eq_some_iff.mp h).elim hobject
    constructor
    · exact fun h => .inr (.inr ⟨hlist', hobject', h⟩)
    · rintro (⟨r, _, _, _, hs, -⟩ | ⟨r, _, _, _, hs, -⟩ | ⟨-, -, h⟩)
      · exact absurd hs (hlist r)
      · exact absurd hs (hobject r)
      · exact h

/-- What holds of every value without items, and of an array or an object as soon as it
holds of all the values in it, holds of every value that is read. -/
theorem valueWith_induction {P : Json → Prop} (hplain : ∀ v, v.Plain → P v)
    (harr : ∀ vs, (∀ v ∈ vs, P v) → P (.arr vs))
    (hobj : ∀ ms, (ms.map Prod.fst).Nodup → (∀ m ∈ ms, P m.2) → P (.obj ms))
    (item : Option (Reader Json))
    (hitem : ∀ read, item = some read → ∀ cs v rest, read cs = .ok (v, rest) → P v)
    {cs rest : List Char} {v : Json} (h : valueWith item cs = .ok (v, rest)) : P v := by
  rw [valueWith_eq_valueBy] at h
  rcases valueBy_eq_ok.mp h with ⟨_, read, vs, _, -, hread, hvs, -, rfl⟩ |
    ⟨_, read, ms, _, -, hread, hms, -, rfl⟩ | ⟨-, -, hscalar⟩
  · exact harr vs (itemLoop_forall (hitem read hread) hvs)
  · obtain ⟨done, hdone, hkeys, hvalues⟩ :=
      forall_ofMembers (memberLoop_forall (hitem read hread) hms)
    rw [hdone]
    exact hobj done hkeys hvalues
  · exact hplain v (plain_scalar hscalar)

theorem complete_eq_ok {α : Type} {read : Reader α} {text : String} {a : α} :
    complete read text = .ok a ↔
      ∃ rest, read text.toList = .ok (a, rest) ∧ atEnd rest = .ok () := by
  constructor
  · intro h
    obtain ⟨⟨b, rest⟩, hb, hrest⟩ := bind_eq_ok.mp h
    obtain ⟨_, hend, hok⟩ := bind_eq_ok.mp hrest
    cases hok
    exact ⟨rest, hb, hend⟩
  · rintro ⟨rest, ha, hend⟩
    exact bind_eq_ok.mpr ⟨_, ha, bind_eq_ok.mpr ⟨_, hend, rfl⟩⟩

theorem parse_induction {P : Json → Prop} (hplain : ∀ v, v.Plain → P v)
    (harr : ∀ vs, (∀ v ∈ vs, P v) → P (.arr vs))
    (hobj : ∀ ms, (ms.map Prod.fst).Nodup → (∀ m ∈ ms, P m.2) → P (.obj ms))
    {text : String} {v : Json} (h : parse text = .ok v) : P v := by
  have hvalue : ∀ n cs v rest, value n cs = .ok (v, rest) → P v := by
    intro n
    induction n with
    | zero => exact fun cs v rest => valueWith_induction hplain harr hobj none nofun
    | succ n ih =>
      intro cs v rest
      refine valueWith_induction hplain harr hobj (some (value n)) ?_
      rintro read ⟨rfl⟩
      exact ih
  obtain ⟨rest, hv, -⟩ := complete_eq_ok.mp h
  exact hvalue deepest _ _ rest hv

end TreeJudge.Json

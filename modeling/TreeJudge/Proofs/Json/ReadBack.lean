import TreeJudge.Proofs.Json.Document
import TreeJudge.Proofs.Json.Strings

/-!
# Written values are read back

What is written of a document without floats is read as this document, when it nests no
deeper than the reader goes. When moreover its integers are of 64 bits and no object
names a member twice, it is its own value, and so the value that is read. The loops over
items and members are dealt with for any reader of one element, so the depth is the only
induction on documents.
-/

set_option autoImplicit false

namespace TreeJudge.Json

mutual

def nesting : Json → Nat
  | .arr vs => nestingItems vs + 1
  | .obj ms => nestingMembers ms + 1
  | _ => 0

def nestingItems : List Json → Nat
  | [] => 0
  | v :: vs => max (nesting v) (nestingItems vs)

def nestingMembers : List (String × Json) → Nat
  | [] => 0
  | (_, v) :: ms => max (nesting v) (nestingMembers ms)

end

mutual

def integral : Json → Bool
  | .float _ => false
  | .arr vs => integralItems vs
  | .obj ms => integralMembers ms
  | _ => true

def integralItems : List Json → Bool
  | [] => true
  | v :: vs => integral v && integralItems vs

def integralMembers : List (String × Json) → Bool
  | [] => true
  | (_, v) :: ms => integral v && integralMembers ms

end

mutual

/-- All numbers are integers that fit in 64 bits, and the keys of every object
are distinct. -/
def faithful : Json → Bool
  | .float _ => false
  | .int n => decide (Fits n)
  | .arr vs => faithfulItems vs
  | .obj ms => decide (ms.map Prod.fst).Nodup && faithfulMembers ms
  | _ => true

def faithfulItems : List Json → Bool
  | [] => true
  | v :: vs => faithful v && faithfulItems vs

def faithfulMembers : List (String × Json) → Bool
  | [] => true
  | (_, v) :: ms => faithful v && faithfulMembers ms

end

theorem nestingItems_le {vs : List Json} {n : Nat} :
    nestingItems vs ≤ n ↔ ∀ v ∈ vs, v.nesting ≤ n := by
  induction vs with
  | nil => simp [nestingItems]
  | cons v vs ih => rw [nestingItems, Nat.max_le, ih, List.forall_mem_cons]

theorem nestingMembers_le {ms : List (String × Json)} {n : Nat} :
    nestingMembers ms ≤ n ↔ ∀ m ∈ ms, m.2.nesting ≤ n := by
  induction ms with
  | nil => simp [nestingMembers]
  | cons m ms ih => rw [nestingMembers, Nat.max_le, ih, List.forall_mem_cons]

theorem integralItems_iff {vs : List Json} :
    integralItems vs = true ↔ ∀ v ∈ vs, v.integral = true := by
  induction vs with
  | nil => simp [integralItems]
  | cons v vs ih => simp [integralItems, ih]

theorem integralMembers_iff {ms : List (String × Json)} :
    integralMembers ms = true ↔ ∀ m ∈ ms, m.2.integral = true := by
  induction ms with
  | nil => simp [integralMembers]
  | cons m ms ih => simp [integralMembers, ih]

theorem faithfulItems_iff {vs : List Json} :
    faithfulItems vs = true ↔ ∀ v ∈ vs, v.faithful = true := by
  induction vs with
  | nil => simp [faithfulItems]
  | cons v vs ih => simp [faithfulItems, ih]

theorem skipSpace_cons {c : Char} (h : isSpace c = false) (cs : List Char) :
    skipSpace (c :: cs) = c :: cs := by
  simp [skipSpace, h]

section
variable {α : Type} {item : Reader α} {print : α → List Char} {rest : List Char}

/-- The reader of one element takes exactly what was written of it, and tells it
from a blank and from the end of a list. -/
structure ReadsBack (item : Reader α) (print : α → List Char) (a : α) : Prop where
  opens : ∃ c cs, print a = c :: cs ∧ isSpace c = false ∧ c ≠ ']'
  reads : ∀ {rest}, Delimited rest → item (print a ++ rest) = .ok (a, rest)

def listed (print : α → List Char) (as : List α) : List Char :=
  as.flatMap fun a => ',' :: print a

theorem length_le_listed (print : α → List Char) (as : List α) :
    as.length ≤ (listed print as).length := by
  induction as with
  | nil => simp
  | cons a as ih =>
    simp only [listed, List.flatMap_cons, List.length_append, List.length_cons] at ih ⊢
    omega

theorem delimited_listed (print : α → List Char) (as : List α) (rest : List Char) {close : Char}
    (h : close = ']' ∨ close = '}') : Delimited (listed print as ++ close :: rest) := by
  intro c hc
  cases as with
  | nil =>
    cases hc
    exact .inr h
  | cons a as =>
    cases hc
    exact .inl rfl

theorem atItem_first {c : Char} (hs : isSpace c = false) (hb : c ≠ ']') (cs : List Char) :
    atItem true (c :: cs) = .ok (true, c :: cs) := by
  rw [atItem, skipSpace_cons hs]
  split
  · next he => cases he
  · next he =>
    cases he
    exact absurd rfl hb
  · next he =>
    cases he
    rfl

theorem atItem_comma {c : Char} (hs : isSpace c = false) (hb : c ≠ ']') (cs : List Char) :
    atItem false (',' :: c :: cs) = .ok (true, c :: cs) := by
  have hcomma : skipSpace (',' :: c :: cs) = ',' :: c :: cs := rfl
  rw [atItem, hcomma]
  split
  · next he => cases he
  · next he => cases he
  · next he =>
    cases he
    rw [if_neg (by decide), if_pos rfl, skipSpace_cons hs]
    split
    · next he => cases he
    · next he =>
      cases he
      exact absurd rfl hb
    · rfl

theorem itemLoop_step {first : Bool} {tick : Char} {clock cs cs' cs'' end' : List Char} {a : α}
    {as : List α} (hat : atItem first cs = .ok (true, cs')) (hitem : item cs' = .ok (a, cs''))
    (hloop : itemLoop item clock false cs'' = .ok (as, end')) :
    itemLoop item (tick :: clock) first cs = .ok (a :: as, end') :=
  itemLoop_eq_ok.mpr (.inr ⟨cs', a, cs'', as, hat, hitem, hloop, rfl⟩)

theorem itemLoop_listed {as : List α} (h : ∀ a ∈ as, ReadsBack item print a)
    {clock : List Char} (hclock : as.length < clock.length) :
    itemLoop item clock false (listed print as ++ ']' :: rest) = .ok (as, ']' :: rest) := by
  induction as generalizing clock with
  | nil =>
    cases clock with
    | nil => cases hclock
    | cons tick clock => rfl
  | cons a as ih =>
    cases clock with
    | nil => cases hclock
    | cons tick clock =>
      have ha : ReadsBack item print a := h a (by simp)
      obtain ⟨c, cs, hprint, hs, hb⟩ := ha.opens
      have hread := ha.reads (delimited_listed print as rest (.inl rfl))
      have htext : listed print (a :: as) ++ ']' :: rest =
          ',' :: c :: (cs ++ (listed print as ++ ']' :: rest)) := by
        simp [listed, hprint]
      rw [hprint] at hread
      rw [htext]
      exact itemLoop_step (atItem_comma hs hb _) hread
        (ih (fun b hb => h b (by simp [hb])) (by simpa using hclock))

theorem items_listed {a : α} {as : List α} (h : ∀ b ∈ a :: as, ReadsBack item print b) :
    items item (print a ++ (listed print as ++ ']' :: rest)) = .ok (a :: as, ']' :: rest) := by
  have ha : ReadsBack item print a := h a (by simp)
  obtain ⟨c, cs, hprint, hs, hb⟩ := ha.opens
  have hread := ha.reads (delimited_listed print as rest (.inl rfl))
  have hclock : as.length < (cs ++ (listed print as ++ ']' :: rest)).length := by
    have := length_le_listed print as
    simp only [List.length_append, List.length_cons]
    omega
  rw [hprint] at hread ⊢
  exact itemLoop_step (atItem_first hs hb _) hread
    (itemLoop_listed (fun b hb => h b (by simp [hb])) hclock)

def named (print : α → List Char) (m : String × α) : List Char :=
  writeString m.1 ++ ':' :: print m.2

theorem atKey_first (k : String) (cs : List Char) :
    atKey true (writeString k ++ cs) = .ok (some k, cs) := by
  rw [writeString_append]
  exact map_string_write (fun p => (some p.1, p.2)) k cs

theorem atKey_comma (k : String) (cs : List Char) :
    atKey false (',' :: (writeString k ++ cs)) = .ok (some k, cs) := by
  rw [writeString_append]
  exact map_string_write (fun p => (some p.1, p.2)) k cs

theorem memberLoop_step {first : Bool} {tick : Char} {clock cs cs' cs'' end' : List Char}
    {m : String × α} {ms : List (String × α)} (hat : atKey first cs = .ok (some m.1, ':' :: cs'))
    (hitem : item cs' = .ok (m.2, cs''))
    (hloop : memberLoop item clock false cs'' = .ok (ms, end')) :
    memberLoop item (tick :: clock) first cs = .ok (m :: ms, end') :=
  memberLoop_eq_ok.mpr (.inr ⟨m.1, _, cs', m.2, cs'', ms, hat, rfl, hitem, hloop, rfl⟩)

theorem memberLoop_listed {ms : List (String × α)} (h : ∀ m ∈ ms, ReadsBack item print m.2)
    {clock : List Char} (hclock : ms.length < clock.length) :
    memberLoop item clock false (listed (named print) ms ++ '}' :: rest) =
      .ok (ms, '}' :: rest) := by
  induction ms generalizing clock with
  | nil =>
    cases clock with
    | nil => cases hclock
    | cons tick clock => rfl
  | cons m ms ih =>
    cases clock with
    | nil => cases hclock
    | cons tick clock =>
      have hread := (h m (by simp)).reads
        (delimited_listed (named print) ms rest (.inr rfl))
      have htext : listed (named print) (m :: ms) ++ '}' :: rest =
          ',' :: (writeString m.1 ++
            ':' :: (print m.2 ++ (listed (named print) ms ++ '}' :: rest))) := by
        simp [listed, named]
      rw [htext]
      exact memberLoop_step (atKey_comma m.1 _) hread
        (ih (fun b hb => h b (by simp [hb])) (by simpa using hclock))

theorem members_listed {m : String × α} {ms : List (String × α)}
    (h : ∀ b ∈ m :: ms, ReadsBack item print b.2) :
    members item (named print m ++ (listed (named print) ms ++ '}' :: rest)) =
      .ok (m :: ms, '}' :: rest) := by
  have hread := (h m (by simp)).reads (delimited_listed (named print) ms rest (.inr rfl))
  have hkey := atKey_first m.1 (':' :: (print m.2 ++ (listed (named print) ms ++ '}' :: rest)))
  have htext : named print m ++ (listed (named print) ms ++ '}' :: rest) =
      writeString m.1 ++ ':' :: (print m.2 ++ (listed (named print) ms ++ '}' :: rest)) := by
    simp [named]
  rw [writeString_append] at hkey htext
  rw [htext]
  refine memberLoop_step hkey hread (memberLoop_listed (fun b hb => h b (by simp [hb])) ?_)
  have := length_le_listed (named print) ms
  simp only [List.length_append, List.length_cons]
  omega

end

theorem writeItems_eq (vs : List Json) : writeItems vs = listed write vs := by
  induction vs with
  | nil => rfl
  | cons v vs ih => simp [writeItems, listed, ih]

theorem writeMembers_eq (ms : List (String × Json)) :
    writeMembers ms = listed (named write) ms := by
  induction ms with
  | nil => rfl
  | cons m ms ih => simp [writeMembers, listed, named, ih]

theorem writeInt_opens (n : Int) :
    ∃ c cs, writeInt n = c :: cs ∧ (isDigit c = true ∨ c = '-') := by
  cases n with
  | ofNat n =>
    obtain ⟨d, ds, hd, hdigit⟩ := toDigits_opens n
    exact ⟨d, ds, hd, .inl hdigit⟩
  | negSucc n => exact ⟨_, _, rfl, .inr rfl⟩

theorem digit_opens {c : Char} (h : isDigit c = true ∨ c = '-') :
    isSpace c = false ∧ c ≠ ']' ∧ c ≠ '[' ∧ c ≠ '{' := by
  have hne : ∀ d, isDigit d = false → d ≠ '-' → c ≠ d := by
    rintro d hd hminus rfl
    rcases h with h | h
    · rw [h] at hd
      cases hd
    · exact hminus h
  refine ⟨?_, hne _ rfl (by decide), hne _ rfl (by decide), hne _ rfl (by decide)⟩
  simp [isSpace, hne ' ' rfl (by decide), hne '\n' rfl (by decide), hne '\t' rfl (by decide),
    hne '\r' rfl (by decide)]

theorem write_opens {v : Json} (h : v.integral = true) :
    ∃ c cs, write v = c :: cs ∧ isSpace c = false ∧ c ≠ ']' ∧
      (v.nesting = 0 → c ≠ '[' ∧ c ≠ '{') := by
  cases v with
  | null => exact ⟨_, _, rfl, rfl, by decide, fun _ => by decide⟩
  | bool b => cases b <;> exact ⟨_, _, rfl, rfl, by decide, fun _ => by decide⟩
  | int n =>
    obtain ⟨c, cs, hwrite, hc⟩ := writeInt_opens n
    obtain ⟨hs, hb, hlist, hobject⟩ := digit_opens hc
    exact ⟨c, cs, hwrite, hs, hb, fun _ => ⟨hlist, hobject⟩⟩
  | float x => cases h
  | str s => exact ⟨_, _, rfl, rfl, by decide, fun _ => by decide⟩
  | arr vs => cases vs <;> exact ⟨_, _, rfl, rfl, by decide, nofun⟩
  | obj ms => cases ms <;> exact ⟨_, _, rfl, rfl, by decide, nofun⟩

theorem exactScalar_eq_scalar {c : Char} (hdigit : isDigit c = false) (hminus : c ≠ '-')
    (cs : List Char) : exactScalar (c :: cs) = scalar (c :: cs) := by
  unfold exactScalar
  cases hint : integer? (c :: cs) with
  | none => rfl
  | some p =>
    obtain ⟨d, ds, hwrite, hd⟩ := writeInt_opens p.1
    obtain ⟨hcs, -⟩ := integer?_eq_some.mp hint
    rw [hwrite] at hcs
    obtain ⟨rfl, -⟩ := List.cons.inj hcs
    rcases hd with hd | hd
    · rw [hd] at hdigit
      cases hdigit
    · exact absurd hd hminus

section
variable {n : Nat} {cs rest : List Char}

theorem exactScalar_write {v : Json} (hi : v.integral = true) (hn : v.nesting = 0)
    (hr : Delimited rest) : exactScalar (write v ++ rest) = .ok (v, rest) := by
  cases v with
  | null => exact exactScalar_eq_scalar rfl (by decide) _
  | bool b => cases b <;> exact exactScalar_eq_scalar rfl (by decide) _
  | int n => simp only [exactScalar, write, integer?_eq_some.mpr ⟨rfl, hr.endsNumber⟩]
  | float x => cases hi
  | str s =>
    rw [write, writeString_append]
    exact (exactScalar_eq_scalar rfl (by decide) _).trans
      (map_string_write (fun p => (Json.str p.1, p.2)) s rest)
  | arr vs => cases hn
  | obj ms => cases hn

theorem valueBy_write (item : Option (Reader Json)) {v : Json} (hi : v.integral = true)
    (hn : v.nesting = 0) (hr : Delimited rest) :
    valueBy .obj exactScalar item (write v ++ rest) = .ok (v, rest) := by
  obtain ⟨c, cs, hwrite, hs, -, hlone⟩ := write_opens hi
  obtain ⟨hlist, hobject⟩ := hlone hn
  have hskip : skipSpace (write v ++ rest) = write v ++ rest := by
    rw [hwrite]
    exact skipSpace_cons hs _
  refine valueBy_eq_ok.mpr (.inr (.inr ?_))
  rw [hskip]
  refine ⟨?_, ?_, exactScalar_write hi hn hr⟩
  · simpa [hwrite] using hlist
  · simpa [hwrite] using hobject

theorem documentAt_list {vs : List Json}
    (h : items (documentAt n) cs = .ok (vs, ']' :: rest)) :
    documentAt (n + 1) ('[' :: cs) = .ok (.arr vs, rest) :=
  valueBy_eq_ok.mpr (.inl ⟨cs, _, vs, _, rfl, rfl, h, rfl, rfl⟩)

theorem documentAt_object {ms : List (String × Json)}
    (h : members (documentAt n) cs = .ok (ms, '}' :: rest)) :
    documentAt (n + 1) ('{' :: cs) = .ok (.obj ms, rest) :=
  valueBy_eq_ok.mpr (.inr (.inl ⟨cs, _, ms, _, rfl, rfl, h, rfl, rfl⟩))

theorem documentAt_write {v : Json} (hi : v.integral = true) (hn : v.nesting ≤ n)
    (hr : Delimited rest) : documentAt n (write v ++ rest) = .ok (v, rest) := by
  -- on the nesting that is still allowed, which is less for every element
  induction n generalizing v rest with
  | zero => exact valueBy_write none hi (by omega) hr
  | succ n ih =>
    have inner : ∀ w : Json, w.integral = true → w.nesting ≤ n →
        ReadsBack (documentAt n) write w := by
      intro w hwi hwn
      obtain ⟨c, cs, hwrite, hs, hb, -⟩ := write_opens hwi
      exact ⟨⟨c, cs, hwrite, hs, hb⟩, fun hr => ih hwi hwn hr⟩
    cases v with
    | arr vs =>
      have hvs : ∀ w ∈ vs, ReadsBack (documentAt n) write w := fun w hw =>
        inner w (integralItems_iff.mp hi w hw)
          (nestingItems_le.mp (Nat.le_of_succ_le_succ hn) w hw)
      cases vs with
      | nil => rfl
      | cons w ws =>
        have htext : write (.arr (w :: ws)) ++ rest =
            '[' :: (write w ++ (listed write ws ++ ']' :: rest)) := by
          simp [write, writeItems_eq]
        rw [htext]
        exact documentAt_list (items_listed hvs)
    | obj ms =>
      have hms : ∀ m ∈ ms, ReadsBack (documentAt n) write m.2 := fun m hm =>
        inner m.2 (integralMembers_iff.mp hi m hm)
          (nestingMembers_le.mp (Nat.le_of_succ_le_succ hn) m hm)
      cases ms with
      | nil => rfl
      | cons m ms =>
        have htext : write (.obj (m :: ms)) ++ rest =
            '{' :: (named write m ++ (listed (named write) ms ++ '}' :: rest)) := by
          simp [write, writeMembers_eq, named]
        rw [htext]
        exact documentAt_object (members_listed hms)
    | _ => exact valueBy_write _ hi rfl hr

end

/-- A document is read back, also one that names members twice or has integers of any
size. -/
theorem document_compact {v : Json} (hi : v.integral = true) (hn : v.nesting ≤ deepest) :
    document v.compact = .ok v := by
  have hend : Delimited [] := by simp [Delimited]
  have hread := documentAt_write hi hn hend
  rw [List.append_nil] at hread
  refine complete_eq_ok.mpr ⟨[], ?_, rfl⟩
  rwa [compact, String.toList_ofList]

theorem put_new {members : List (String × Json)} {k : String} (h : k ∉ members.map Prod.fst)
    (v : Json) : put members k v = members ++ [(k, v)] := by
  induction members with
  | nil => rfl
  | cons m members ih =>
    rw [List.map_cons, List.mem_cons, not_or] at h
    rw [put, if_neg (Ne.symm h.1), ih h.2, List.cons_append]

theorem foldl_put (done : List (String × Json)) {ms : List (String × Json)}
    (h : ((done ++ ms).map Prod.fst).Nodup) :
    ms.foldl (fun done m => put done m.1 m.2) done = done ++ ms := by
  induction ms generalizing done with
  | nil => simp
  | cons m ms ih =>
    have hnew : m.1 ∉ done.map Prod.fst := by
      intro hm
      rw [List.map_append, List.nodup_append] at h
      exact h.2.2 m.1 hm m.1 (by simp) rfl
    rw [List.append_cons] at h
    rw [List.foldl_cons, put_new hnew, ih _ h, ← List.append_cons]

theorem ofMembers_of_nodup {ms : List (String × Json)} (h : (ms.map Prod.fst).Nodup) :
    ofMembers ms = .obj ms := by
  rw [ofMembers, foldl_put [] h, List.nil_append]

mutual

theorem integral_of_faithful : ∀ {v : Json}, v.faithful = true → v.integral = true
  | .arr _, h => integralItems_of_faithful h
  | .obj _, h => integralMembers_of_faithful (Bool.and_eq_true_iff.mp h).2
  | .float _, h => nomatch h
  | .null, _ | .bool _, _ | .int _, _ | .str _, _ => rfl

theorem integralItems_of_faithful :
    ∀ {vs : List Json}, faithfulItems vs = true → integralItems vs = true
  | [], _ => rfl
  | _ :: _, h => by
    obtain ⟨hv, hvs⟩ := Bool.and_eq_true_iff.mp h
    exact Bool.and_eq_true_iff.mpr ⟨integral_of_faithful hv, integralItems_of_faithful hvs⟩

theorem integralMembers_of_faithful :
    ∀ {ms : List (String × Json)}, faithfulMembers ms = true → integralMembers ms = true
  | [], _ => rfl
  | _ :: _, h => by
    obtain ⟨hv, hms⟩ := Bool.and_eq_true_iff.mp h
    exact Bool.and_eq_true_iff.mpr ⟨integral_of_faithful hv, integralMembers_of_faithful hms⟩

end

mutual

theorem resolve_of_faithful : ∀ {v : Json}, v.faithful = true → v.resolve = some v
  | .null, _ | .bool _, _ | .str _, _ => rfl
  | .float _, h => nomatch h
  | .int _, h => rounded_of_fits (of_decide_eq_true h)
  | .arr _, h => by rw [resolve, resolveItems_of_faithful h, Option.map_some]
  | .obj _, h => by
    obtain ⟨hkeys, hms⟩ := Bool.and_eq_true_iff.mp h
    rw [resolve, resolveMembers_of_faithful hms, Option.map_some,
      ofMembers_of_nodup (of_decide_eq_true hkeys)]

theorem resolveItems_of_faithful :
    ∀ {vs : List Json}, faithfulItems vs = true → resolveItems vs = some vs
  | [], _ => rfl
  | _ :: _, h => by
    obtain ⟨hv, hvs⟩ := Bool.and_eq_true_iff.mp h
    rw [resolveItems, resolve_of_faithful hv, resolveItems_of_faithful hvs]
    rfl

theorem resolveMembers_of_faithful :
    ∀ {ms : List (String × Json)}, faithfulMembers ms = true → resolveMembers ms = some ms
  | [], _ => rfl
  | _ :: _, h => by
    obtain ⟨hv, hms⟩ := Bool.and_eq_true_iff.mp h
    rw [resolveMembers, resolve_of_faithful hv, resolveMembers_of_faithful hms]
    rfl

end

theorem parse_compact {v : Json} (hf : v.faithful = true) (hn : v.nesting ≤ deepest) :
    parse v.compact = .ok v :=
  parse_eq_ok_iff.mpr
    ⟨v, document_compact (integral_of_faithful hf) hn, resolve_of_faithful hf⟩

end TreeJudge.Json

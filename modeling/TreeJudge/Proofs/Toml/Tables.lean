import TreeJudge.Toml.Reader

/-!
# No key twice

A table that is read names each of its keys once, and so does every table in it. Keys
come into a table in few ways: a new one is added, the item of a present one is changed,
or a table is taken out that a header claims and put back. The reader is made of these
steps and of searches along paths, which keep what they keep.
-/

set_option autoImplicit false

namespace TreeJudge.Toml

inductive Item.Distinct : Item → Prop
  | scalar (value : Scalar) (span : Span) : Distinct (.scalar value span)
  | array (items : List Item) (span : Span) (h : ∀ i ∈ items, Distinct i) :
    Distinct (.array items span)
  | table (t : Table) (hnames : (t.entries.map (·.1.name)).Nodup)
    (h : ∀ e ∈ t.entries, Distinct e.2) : Distinct (.table t)
  | tables (ts : List Table) (h : ∀ t ∈ ts, Distinct (.table t)) : Distinct (.tables ts)

namespace Table

def names (t : Table) : List String := t.entries.map (·.1.name)

structure Distinct (t : Table) : Prop where
  names : t.names.Nodup
  items : ∀ e ∈ t.entries, e.2.Distinct

theorem distinct_iff (t : Table) : t.Distinct ↔ Item.Distinct (.table t) := by
  constructor
  · exact fun h => .table t h.names h.items
  · rintro ⟨⟩
    exact ⟨‹_›, ‹_›⟩

section
variable {t : Table} {name : String} {i : Item}

theorem find?_eq_none_iff : t.find? name = none ↔ name ∉ t.names := by
  simp [find?, names]

theorem mem_of_find? (h : t.find? name = some i) : ∃ k, (k, i) ∈ t.entries ∧ k.name = name := by
  obtain ⟨⟨k, j⟩, hfind, rfl⟩ := Option.map_eq_some_iff.mp h
  exact ⟨k, List.mem_of_find?_eq_some hfind, by simpa using List.find?_some hfind⟩

theorem Distinct.item (ht : t.Distinct) (h : t.find? name = some i) : i.Distinct := by
  obtain ⟨k, hmem, -⟩ := mem_of_find? h
  exact ht.items (k, i) hmem

theorem distinct_empty (origin : Origin) : (Table.empty origin).Distinct :=
  ⟨List.nodup_nil, by simp [Table.empty]⟩

theorem Distinct.push (ht : t.Distinct) {k : Key} (hnew : t.find? k.name = none)
    (hi : i.Distinct) : (t.push k i).Distinct := by
  rw [find?_eq_none_iff] at hnew
  constructor
  · have hnames : (t.push k i).names = t.names ++ [k.name] := by simp [Table.push, Table.names]
    rw [hnames, List.nodup_append]
    refine ⟨ht.names, by simp, fun a ha b hb => ?_⟩
    rw [List.mem_singleton.mp hb]
    exact fun he => hnew (he ▸ ha)
  · simp only [Table.push, List.forall_mem_append, List.forall_mem_singleton]
    exact ⟨ht.items, hi⟩

theorem names_modify : (t.modify name i).names = t.names := by
  simp only [modify, names, List.map_map]
  apply List.map_congr_left
  intro e _
  simp only [Function.comp_apply]
  split <;> rfl

theorem Distinct.modify (ht : t.Distinct) (hi : i.Distinct) : (t.modify name i).Distinct := by
  constructor
  · rw [names_modify]
    exact ht.names
  · intro e he
    obtain ⟨d, hd, rfl⟩ := List.mem_map.mp he
    split
    · exact hi
    · exact ht.items d hd

theorem Distinct.erase (ht : t.Distinct) : (t.erase name).Distinct :=
  ⟨ht.names.sublist (List.filter_sublist.map _), fun e he =>
    ht.items e (List.mem_filter.mp he).1⟩

theorem Distinct.of_entries (ht : t.Distinct) {t' : Table} (h : t'.entries = t.entries) :
    t'.Distinct :=
  ⟨by simpa only [Table.names, h] using ht.names, by simpa only [h] using ht.items⟩

end

/-- What holds of every answer of a change, and that it leaves keys distinct. -/
def Keeps {β : Type} (P : β → Prop) (change : Table → Option (β × Table)) : Prop :=
  ∀ t b t', t.Distinct → change t = some (b, t') → P b ∧ t'.Distinct

theorem keeps_descend {β : Type} {P : β → Prop} {change : Table → Option (β × Table)}
    (hchange : Keeps P change) (dotted : Bool) (path : List Key) :
    Keeps P (descend dotted change path) := by
  -- the path goes on in a new table, in one that is there, or in the last of several
  induction path with
  | nil => exact hchange
  | cons k ks ih =>
    intro t b t' ht h
    rw [descend] at h
    split at h
    · next hnew =>
      obtain ⟨⟨c, sub⟩, hsub, hsome⟩ := Option.bind_eq_some_iff.mp h
      cases hsome
      obtain ⟨hb, hdistinct⟩ := ih _ _ _ (distinct_empty _) hsub
      exact ⟨hb, ht.push hnew ((distinct_iff sub).mp hdistinct)⟩
    · next sub hfind =>
      have hinside := (distinct_iff sub).mpr (ht.item hfind)
      split at h
      · cases h
      · obtain ⟨⟨c, sub'⟩, hsub, hsome⟩ := Option.bind_eq_some_iff.mp h
        cases hsome
        obtain ⟨hb, hdistinct⟩ := ih _ _ _ hinside hsub
        exact ⟨hb, ht.modify ((distinct_iff sub').mp hdistinct)⟩
    · next ts hfind =>
      obtain ⟨last, hlast, h⟩ := Option.bind_eq_some_iff.mp h
      obtain ⟨⟨c, last'⟩, hsub, hsome⟩ := Option.bind_eq_some_iff.mp h
      cases hsome
      cases ht.item hfind with
      | tables _ hts =>
        have hinside := (distinct_iff last).mpr (hts last (List.mem_of_getLast? hlast))
        obtain ⟨hb, hdistinct⟩ := ih _ _ _ hinside hsub
        refine ⟨hb, ht.modify (.tables _ ?_)⟩
        rw [List.forall_mem_append, List.forall_mem_singleton]
        exact ⟨fun t hmem => hts t ((List.dropLast_sublist ts).subset hmem),
          (distinct_iff last').mp hdistinct⟩
    · cases h

theorem keeps_addKey (dotted : Bool) (k : Key) {i : Item} (hi : i.Distinct) :
    Keeps (fun _ => True) (addKey dotted k i) := by
  intro t b t' ht h
  rw [addKey] at h
  split at h
  · cases h
  · next hfree =>
    cases h
    have hnew : t.find? k.name = none := by simpa using fun h => hfree (.inr h)
    exact ⟨trivial, ht.push hnew hi⟩

theorem Distinct.insert {t t' : Table} (ht : t.Distinct) {path : List Key} {i : Item}
    (hi : i.Distinct) (h : t.insert path i = some t') : t'.Distinct := by
  obtain ⟨⟨parents, k⟩, -, h⟩ := Option.bind_eq_some_iff.mp h
  obtain ⟨⟨u, t''⟩, hdescend, hsome⟩ := Option.bind_eq_some_iff.mp h
  cases hsome
  exact (keeps_descend (keeps_addKey _ k hi) true parents t u t' ht hdescend).2

end Table

section
variable {α : Type} {P : α → Prop} {item : Scanner α}

theorem separated_forall (hitem : ∀ cs v r, item cs = some (v, r) → P v) {trailing : Bool}
    {close : Char} {skip : List Char → Option (List Char)} {n : Nat} {cs r : List Char}
    {vs : List α} (h : separated trailing close skip item n cs = some (vs, r)) :
    ∀ v ∈ vs, P v := by
  induction n generalizing cs vs r with
  | zero => cases h
  | succ n ih =>
    obtain ⟨⟨v, cs'⟩, hv, h⟩ := Option.bind_eq_some_iff.mp h
    obtain ⟨next, -, h⟩ := Option.bind_eq_some_iff.mp h
    have hfirst := hitem cs v cs' hv
    split at h
    · obtain ⟨next, -, h⟩ := Option.bind_eq_some_iff.mp h
      split at h
      · cases h
        simpa using hfirst
      · obtain ⟨⟨ws, r'⟩, hws, hsome⟩ := Option.bind_eq_some_iff.mp h
        cases hsome
        exact List.forall_mem_cons.mpr ⟨hfirst, ih hws⟩
    · split at h
      · cases h
        simpa using hfirst
      · cases h
    · cases h

theorem items_forall (hitem : ∀ cs v r, item cs = some (v, r) → P v) {trailing : Bool}
    {close : Char} {skip : List Char → Option (List Char)} {cs r : List Char} {vs : List α}
    (h : items trailing close skip item cs = some (vs, r)) : ∀ v ∈ vs, P v := by
  obtain ⟨next, -, h⟩ := Option.bind_eq_some_iff.mp h
  split at h
  · split at h
    · cases h
      simp
    · exact separated_forall hitem h
  · cases h

end

def FindsDistinct (value : Scanner Item) : Prop :=
  ∀ cs i r, value cs = some (i, r) → i.Distinct

theorem pair_distinct {value : Scanner Item} (hvalue : FindsDistinct value) {cs r : List Char}
    {p : List Key × Item} (h : pair value cs = some (p, r)) : p.2.Distinct := by
  obtain ⟨⟨path, r₁⟩, -, h⟩ := Option.bind_eq_some_iff.mp h
  obtain ⟨r₂, -, h⟩ := Option.bind_eq_some_iff.mp h
  obtain ⟨⟨i, r₃⟩, hi, hsome⟩ := Option.bind_eq_some_iff.mp h
  cases hsome
  exact hvalue _ _ _ hi

theorem inlineTable_distinct {ps : List (List Key × Item)} (hps : ∀ p ∈ ps, p.2.Distinct)
    {t : Table} (h : inlineTable ps = some t) : t.Distinct := by
  have hfold : ∀ (start : Table), start.Distinct →
      ps.foldlM (fun t p => t.insert p.1 p.2) start = some t → t.Distinct := by
    clear h
    induction ps with
    | nil =>
      intro start hstart h
      cases h
      exact hstart
    | cons p ps ih =>
      intro start hstart h
      obtain ⟨hp, hps⟩ := List.forall_mem_cons.mp hps
      rw [List.foldlM_cons] at h
      obtain ⟨next, hnext, h⟩ := Option.bind_eq_some_iff.mp h
      exact ih hps next (hstart.insert hp hnext) h
  exact hfold _ (Table.distinct_empty _) h

theorem finds_valueWith {item : Option (Scanner Item)}
    (hitem : ∀ scan ∈ item, FindsDistinct scan) : FindsDistinct (valueWith item) := by
  intro cs i r h
  unfold valueWith at h
  split at h
  · obtain ⟨scan, hscan, h⟩ := Option.bind_eq_some_iff.mp h
    obtain ⟨⟨vs, r'⟩, hvs, hsome⟩ := Option.bind_eq_some_iff.mp h
    cases hsome
    exact .array vs _ (items_forall (hitem scan hscan) hvs)
  · obtain ⟨scan, hscan, h⟩ := Option.bind_eq_some_iff.mp h
    obtain ⟨⟨ps, r'⟩, hps, h⟩ := Option.bind_eq_some_iff.mp h
    obtain ⟨t, ht, hsome⟩ := Option.bind_eq_some_iff.mp h
    cases hsome
    have hpairs := items_forall (fun _ _ _ => pair_distinct (hitem scan hscan)) hps
    exact (Table.distinct_iff _).mp ((inlineTable_distinct hpairs ht).of_entries rfl)
  · obtain ⟨⟨v, r'⟩, -, hsome⟩ := Option.bind_eq_some_iff.mp h
    cases hsome
    exact .scalar v _

theorem finds_value (n : Nat) : FindsDistinct (value n) := by
  induction n with
  | zero => exact finds_valueWith (by simp)
  | succ n ih => exact finds_valueWith (by simpa using ih)

namespace Draft

structure Distinct (d : Draft) : Prop where
  root : d.root.Distinct
  current : d.current.Distinct

variable {d d' : Draft}

theorem Distinct.finish (hd : d.Distinct) {t : Table} (h : d.finish = some t) : t.Distinct := by
  unfold Draft.finish at h
  split at h
  · cases h
    exact hd.current
  · next parents k _ =>
    obtain ⟨⟨u, root⟩, hdescend, hsome⟩ := Option.bind_eq_some_iff.mp h
    cases hsome
    refine (Table.keeps_descend (P := fun _ => True) ?_ false parents _ _ _ hd.root hdescend).2
    intro t u t' ht h
    have hitem := (Table.distinct_iff _).mp hd.current
    split at h <;> dsimp only at h
    · split at h
      · next hnew =>
        cases h
        exact ⟨trivial, ht.push hnew (.tables _ (by simpa using hitem))⟩
      · next ts hfind =>
        cases h
        cases ht.item hfind with
        | tables _ hts =>
          refine ⟨trivial, ht.modify (.tables _ ?_)⟩
          rw [List.forall_mem_append, List.forall_mem_singleton]
          exact ⟨hts, hitem⟩
      · cases h
    · split at h
      · next hnew =>
        cases h
        exact ⟨trivial, ht.push hnew hitem⟩
      · cases h

theorem keeps_occupy (k : Key) : Table.Keeps Table.Distinct (occupy k) := by
  intro t b t' ht h
  unfold occupy at h
  split at h
  · cases h
    exact ⟨Table.distinct_empty _, ht⟩
  · next sub hfind =>
    split at h
    · cases h
      have hsub := (Table.distinct_iff sub).mpr (ht.item hfind)
      exact ⟨hsub.of_entries rfl, ht.erase⟩
    · cases h
  · cases h

theorem keeps_reserve (k : Key) : Table.Keeps Table.Distinct (reserve k) := by
  intro t b t' ht h
  unfold reserve at h
  split at h
  · cases h
    exact ⟨Table.distinct_empty _, ht⟩
  · cases h
    exact ⟨Table.distinct_empty _, ht⟩
  · cases h

theorem Distinct.header (hd : d.Distinct) {path : List Key} {element : Bool} {span : Span}
    (h : d.header path element span = some d') : d'.Distinct := by
  obtain ⟨root, hroot, h⟩ := Option.bind_eq_some_iff.mp h
  obtain ⟨⟨parents, k⟩, -, h⟩ := Option.bind_eq_some_iff.mp h
  obtain ⟨⟨t, root'⟩, hdescend, hsome⟩ := Option.bind_eq_some_iff.mp h
  cases hsome
  have hopen : Table.Keeps Table.Distinct (if element then reserve k else occupy k) := by
    cases element with
    | true => exact keeps_reserve k
    | false => exact keeps_occupy k
  obtain ⟨ht, hroot'⟩ := Table.keeps_descend hopen false parents _ _ _ (hd.finish hroot) hdescend
  exact ⟨hroot', ht.of_entries rfl⟩

theorem Distinct.line (hd : d.Distinct) {path : List Key} {i : Item} (hi : i.Distinct)
    (h : d.line path i = some d') : d'.Distinct := by
  obtain ⟨current, hinsert, hsome⟩ := Option.bind_eq_some_iff.mp h
  cases hsome
  refine ⟨hd.root, Table.Distinct.insert ?_ hi hinsert⟩
  exact hd.current.of_entries rfl

end Draft

theorem headerLine_distinct {d d' : Draft} (hd : d.Distinct) {cs r : List Char}
    (h : headerLine d cs = some (d', r)) : d'.Distinct := by
  unfold headerLine at h
  split at h
  · obtain ⟨⟨path, r₁⟩, -, h⟩ := Option.bind_eq_some_iff.mp h
    obtain ⟨r₂, -, h⟩ := Option.bind_eq_some_iff.mp h
    obtain ⟨next, hnext, h⟩ := Option.bind_eq_some_iff.mp h
    obtain ⟨r₃, -, hsome⟩ := Option.bind_eq_some_iff.mp h
    cases hsome
    exact hd.header hnext
  · obtain ⟨⟨path, r₁⟩, -, h⟩ := Option.bind_eq_some_iff.mp h
    obtain ⟨r₂, -, h⟩ := Option.bind_eq_some_iff.mp h
    obtain ⟨next, hnext, h⟩ := Option.bind_eq_some_iff.mp h
    obtain ⟨r₃, -, hsome⟩ := Option.bind_eq_some_iff.mp h
    cases hsome
    exact hd.header hnext
  · cases h

theorem readLine_distinct {d d' : Draft} (hd : d.Distinct) {cs r : List Char}
    (h : readLine d cs = some (d', r)) : d'.Distinct := by
  unfold readLine at h
  split at h
  · exact headerLine_distinct hd h
  · obtain ⟨r', -, hsome⟩ := Option.bind_eq_some_iff.mp h
    cases hsome
    exact hd
  · split at h
    · obtain ⟨r', -, hsome⟩ := Option.bind_eq_some_iff.mp h
      cases hsome
      exact hd
    · obtain ⟨⟨⟨path, i⟩, r₁⟩, hpair, h⟩ := Option.bind_eq_some_iff.mp h
      obtain ⟨next, hnext, h⟩ := Option.bind_eq_some_iff.mp h
      obtain ⟨r₂, -, hsome⟩ := Option.bind_eq_some_iff.mp h
      cases hsome
      exact hd.line (pair_distinct (finds_value deepest) hpair) hnext
  · cases h
    exact hd

theorem readLines_distinct {n : Nat} {d : Draft} (hd : d.Distinct) {cs : List Char} {t : Table}
    (h : readLines n d cs = some t) : t.Distinct := by
  induction n generalizing d cs with
  | zero =>
    cases cs with
    | nil => exact hd.finish h
    | cons c cs => cases h
  | succ n ih =>
    cases cs with
    | nil => exact hd.finish h
    | cons c cs =>
      obtain ⟨⟨d', r⟩, hline, hrest⟩ := Option.bind_eq_some_iff.mp h
      exact ih (readLine_distinct hd hline) hrest

/-- A document that is read names no key of a table twice. -/
theorem parse?_distinct {text : String} {t : Table} (h : parse? text = some t) : t.Distinct :=
  readLines_distinct ⟨Table.distinct_empty _, Table.distinct_empty _⟩ h

end TreeJudge.Toml

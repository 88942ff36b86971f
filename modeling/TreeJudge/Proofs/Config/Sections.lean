import TreeJudge.Config
import TreeJudge.Proofs.Toml.Strings
import TreeJudge.Proofs.Toml.Tables

/-!
# Documents of sections are read back

A document that is written section by section, each line a bare key and a value, is read
as a table of these sections. Spans depend on what follows, so tables are compared by
their outline, which has names and values only. What a stretch of text does to the draft
is said by what holds before it and what holds behind it, so stretches can be put
together.
-/

set_option autoImplicit false

namespace TreeJudge.Toml
open Config (entry header)

structure Bare (name : String) : Prop where
  ne : name.toList ≠ []
  all : ∀ c ∈ name.toList, isBare c = true

theorem bare_iff (name : String) :
    Bare name ↔ name.toList ≠ [] ∧ name.toList.all isBare = true := by
  rw [List.all_eq_true]
  exact ⟨fun h => ⟨h.ne, h.all⟩, fun h => ⟨h.1, h.2⟩⟩

instance (name : String) : Decidable (Bare name) := decidable_of_iff' _ (bare_iff name)

/-- A text that is read as a value on its line, whatever lines follow. -/
structure Reads (w : List Char) (v : Scalar) : Prop where
  first : ∃ c r, w = c :: r ∧ c ≠ '[' ∧ c ≠ '{' ∧ isBlank c = false
  read : ∀ rest, scalar (w ++ '\n' :: rest) = some (v, '\n' :: rest)

theorem skipBlanks_cons {c : Char} (h : isBlank c = false) (r : List Char) :
    skipBlanks (c :: r) = c :: r := by
  simp [skipBlanks, h]

theorem Reads.skipBlanks {w : List Char} {v : Scalar} (h : Reads w v) (r : List Char) :
    skipBlanks (w ++ r) = w ++ r := by
  obtain ⟨c, r', rfl, -, -, hblank⟩ := h.first
  exact skipBlanks_cons hblank _

theorem Reads.valueWith {w : List Char} {v : Scalar} (h : Reads w v)
    (item : Option (Scanner Item)) (rest : List Char) :
    ∃ span, valueWith item (w ++ '\n' :: rest) = some (.scalar v span, '\n' :: rest) := by
  obtain ⟨c, r, hw, hbracket, hbrace, -⟩ := h.first
  have hread := h.read rest
  rw [hw, List.cons_append] at hread ⊢
  rw [Toml.valueWith, hread]
  · exact ⟨_, rfl⟩
  · exact fun _ heq => hbracket (List.cons.inj heq).1
  · exact fun _ heq => hbrace (List.cons.inj heq).1

theorem Reads.value {w : List Char} {v : Scalar} (h : Reads w v) (n : Nat) (rest : List Char) :
    ∃ span, value n (w ++ '\n' :: rest) = some (.scalar v span, '\n' :: rest) := by
  cases n with
  | zero => exact h.valueWith none rest
  | succ n => exact h.valueWith (some (Toml.value n)) rest

theorem quote_first (cs : List Char) : ∃ c r, quote cs = c :: r ∧ (c = '"' ∨ c = '\'') := by
  unfold quote
  cases (formOf cs).1 with
  | basic => exact ⟨_, _, rfl, .inl rfl⟩
  | literal => exact ⟨_, _, rfl, .inr rfl⟩
  | basicLines => exact ⟨_, _, rfl, .inl rfl⟩
  | literalLines => exact ⟨_, _, rfl, .inr rfl⟩

theorem reads_quoted (s : String) : Reads (Config.quoted s) (.text s) := by
  obtain ⟨c, r, hquote, hc⟩ := quote_first s.toList
  have hstring (rest : List Char) :
      string (Config.quoted s ++ '\n' :: rest) = some (s, '\n' :: rest) := by
    rw [Config.quoted, string_quote s.toList (by simp) (by simp), String.ofList_toList]
  constructor
  · refine ⟨c, r, hquote, ?_⟩
    rcases hc with rfl | rfl <;> decide
  · intro rest
    have hread := hstring rest
    rw [Config.quoted, hquote, List.cons_append] at hread ⊢
    rcases hc with rfl | rfl <;> rw [scalar, hread] <;> rfl

theorem reads_flag (b : Bool) : Reads (Config.flagText b) (.boolean b) := by
  cases b with
  | true => exact ⟨⟨_, _, rfl, by decide, by decide, by decide⟩, fun _ => rfl⟩
  | false => exact ⟨⟨_, _, rfl, by decide, by decide, by decide⟩, fun _ => rfl⟩

theorem Bare.first {name : String} (h : Bare name) :
    ∃ c r, name.toList = c :: r ∧ isBare c = true := by
  have hall := h.all
  cases hname : name.toList with
  | nil => exact absurd hname h.ne
  | cons c r =>
    rw [hname] at hall
    exact ⟨c, r, rfl, hall c List.mem_cons_self⟩

theorem ne_of_isBare {c d : Char} (hc : isBare c = true) (hd : isBare d = false) : c ≠ d := by
  rintro rfl
  cases hc.symm.trans hd

theorem isBlank_of_isBare {c : Char} (h : isBare c = true) : isBlank c = false := by
  have hspace : c ≠ ' ' := ne_of_isBare h (by decide)
  have htab : c ≠ '\t' := ne_of_isBare h (by decide)
  simp [isBlank, hspace, htab]

section
variable {name : String} (h : Bare name) {d : Char} (hd : isBare d = false) (r : List Char)
include h hd

theorem Bare.keyName : keyName (name.toList ++ d :: r) = some (name, d :: r) := by
  have htake : (name.toList ++ d :: r).takeWhile isBare = name.toList := by
    rw [List.takeWhile_append_of_pos h.all]
    simp [hd]
  have hdrop : (name.toList ++ d :: r).dropWhile isBare = d :: r := by
    rw [List.dropWhile_append_of_pos h.all]
    simp [hd]
  obtain ⟨c, cs, hname, hc⟩ := h.first
  have hdouble : c ≠ '"' := ne_of_isBare hc (by decide)
  have hsingle : c ≠ '\'' := ne_of_isBare hc (by decide)
  rw [Toml.keyName, htake, hdrop]
  · rw [hname]
    simp [← hname]
  · rw [hname]
    exact fun _ heq => hdouble (List.cons.inj heq).1
  · rw [hname]
    exact fun _ heq => hsingle (List.cons.inj heq).1

theorem Bare.key (hdot : ∀ r', skipBlanks (d :: r) ≠ '.' :: r') :
    ∃ span, key (name.toList ++ d :: r) = some ([⟨name, span⟩], skipBlanks (d :: r)) := by
  obtain ⟨c, cs, hname, hc⟩ := h.first
  have hblanks : skipBlanks (name.toList ++ d :: r) = name.toList ++ d :: r := by
    rw [hname]
    exact skipBlanks_cons (isBlank_of_isBare hc) _
  refine ⟨⟨(name.toList ++ d :: r).length, (d :: r).length⟩, ?_⟩
  change dottedKey (78 + 1) _ = _
  rw [dottedKey, hblanks, h.keyName hd r]
  dsimp only [bind, Option.bind_some]
  split
  · next heq => exact absurd heq (hdot _)
  · rfl

end

theorem char_self (c : Char) (r : List Char) : char c (c :: r) = some r := by
  rw [char, if_pos rfl]

section
variable {name : String} (h : Bare name)
include h

theorem Bare.pair {w : List Char} {v : Scalar} (hw : Reads w v) (n : Nat) (rest : List Char) :
    ∃ span span',
      pair (value n) (name.toList ++ ' ' :: '=' :: ' ' :: (w ++ '\n' :: rest)) =
        some (([⟨name, span⟩], .scalar v span'), '\n' :: rest) := by
  have hblank (r : List Char) : Toml.skipBlanks (' ' :: r) = Toml.skipBlanks r := rfl
  have hequals (r : List Char) : Toml.skipBlanks ('=' :: r) = '=' :: r := rfl
  obtain ⟨span, hkey⟩ := h.key (d := ' ') (by decide) ('=' :: ' ' :: (w ++ '\n' :: rest))
    (by rw [hblank, hequals]; simp)
  obtain ⟨span', hvalue⟩ := hw.value n rest
  refine ⟨span, span', ?_⟩
  rw [Toml.pair, hkey]
  dsimp only [bind, Option.bind_some]
  rw [hblank, hequals, char_self]
  dsimp only [Option.bind_some]
  rw [hblank, hw.skipBlanks, hvalue]
  rfl

theorem readLine_entry {w : List Char} {v : Scalar} (hw : Reads w v) (d : Draft)
    (rest : List Char) :
    ∃ span span', readLine d (entry name w ++ rest) =
      (d.line [⟨name, span⟩] (.scalar v span')).map (·, rest) := by
  have hentry : entry name w ++ rest =
      name.toList ++ ' ' :: '=' :: ' ' :: (w ++ '\n' :: rest) := by
    simp [entry]
  obtain ⟨span, span', hpair⟩ := h.pair hw deepest rest
  obtain ⟨c, cs, hname, hc⟩ := h.first
  have hbracket : c ≠ '[' := ne_of_isBare hc (by decide)
  have hcomment : c ≠ '#' := ne_of_isBare hc (by decide)
  have hfeed : c ≠ '\n' := ne_of_isBare hc (by decide)
  have hreturn : c ≠ '\r' := ne_of_isBare hc (by decide)
  refine ⟨span, span', ?_⟩
  rw [hentry]
  rw [hname, List.cons_append] at hpair ⊢
  -- a name without quotes starts neither a header, a comment nor an empty line
  rw [readLine, skipBlanks_cons (isBlank_of_isBare hc)]
  split
  · next heq => exact absurd (List.cons.inj heq).1 hbracket
  · next heq => exact absurd (List.cons.inj heq).1 hcomment
  · next heq =>
    cases heq
    rw [if_neg (by simp [hfeed, hreturn]), hpair]
    dsimp only [bind, Option.bind_some]
    cases d.line [⟨name, span⟩] (.scalar v span') <;> rfl
  · next heq => cases heq

theorem headerLine_header (d : Draft) (rest : List Char) :
    ∃ span span', headerLine d ('[' :: (name.toList ++ ']' :: '\n' :: rest)) =
      (d.header [⟨name, span⟩] false span').map (·, rest) := by
  have hclose (r : List Char) : Toml.skipBlanks (']' :: r) = ']' :: r := rfl
  obtain ⟨span, hkey⟩ := h.key (d := ']') (by decide) ('\n' :: rest) (by rw [hclose]; simp)
  obtain ⟨c, cs, hname, hc⟩ := h.first
  have hbracket : c ≠ '[' := ne_of_isBare hc (by decide)
  refine ⟨span, ⟨('[' :: (name.toList ++ ']' :: '\n' :: rest)).length,
    ('\n' :: rest).length⟩, ?_⟩
  rw [hname, List.cons_append] at hkey ⊢
  unfold headerLine
  split
  · next heq => exact absurd (List.cons.inj (List.cons.inj heq).2).1 hbracket
  · next heq =>
    cases heq
    rw [hkey]
    dsimp only [bind, Option.bind_some]
    rw [hclose, char_self]
    dsimp only [Option.bind_some]
    generalize d.header _ _ _ = next
    cases next <;> rfl
  · next hother => exact absurd rfl (hother _)

theorem readLine_header (d : Draft) (rest : List Char) :
    ∃ span span', readLine d (header name ++ rest) =
      (d.header [⟨name, span⟩] false span').map (·, rest) := by
  have hheader : header name ++ rest = '[' :: (name.toList ++ ']' :: '\n' :: rest) := by
    simp [header]
  obtain ⟨span, span', hread⟩ := headerLine_header h d rest
  refine ⟨span, span', ?_⟩
  rw [hheader, ← hread]
  rfl

end

theorem readLine_blank (d : Draft) (rest : List Char) :
    readLine d ('\n' :: rest) = some (d, rest) := rfl

abbrev Lines := List (String × Option Scalar)

abbrev Outline := List (String × Option Lines)

def Item.scalar? : Item → Option Scalar
  | .scalar v _ => some v
  | _ => none

def Table.outline {β : Type} (f : Item → β) (t : Table) : List (String × β) :=
  t.entries.map fun e => (e.1.name, f e.2)

def Item.lines? : Item → Option Lines
  | .table t => some (Table.outline Item.scalar? t)
  | _ => none

namespace Table

section
variable {β : Type} {f : Item → β} {t : Table}

theorem outline_push (k : Key) (i : Item) :
    (t.push k i).outline f = t.outline f ++ [(k.name, f i)] := by
  simp [outline, push]

theorem find?_eq_none_of_outline {name : String} (h : name ∉ (t.outline f).map (·.1)) :
    t.find? name = none := by
  rw [find?_eq_none_iff]
  simpa [outline, names] using h

theorem map_find? (name : String) : (t.find? name).map f = (t.outline f).lookup name := by
  obtain ⟨origin, span, entries⟩ := t
  unfold find? outline
  dsimp only
  induction entries with
  | nil => rfl
  | cons e es ih =>
    rw [List.map_cons, List.lookup_cons, List.find?_cons, ← ih]
    by_cases hname : e.1.name = name
    · simp [hname]
    · rw [beq_false_of_ne hname, beq_false_of_ne (Ne.symm hname)]

theorem insert_new {k : Key} (horigin : t.origin = .header) (hfind : t.find? k.name = none)
    (i : Item) : t.insert [k] i = some (t.push k i) := by
  have hsplit : splitLast [k] = some ([], k) := rfl
  rw [Table.insert, hsplit]
  dsimp only [bind, Option.bind_some]
  rw [descend, addKey, horigin, hfind, if_neg (by decide)]
  rfl

end
end Table

namespace Draft

def Finishes (o : Outline) (d : Draft) : Prop :=
  ∃ t, d.finish = some t ∧ t.outline Item.lines? = o

structure Inside (o : Outline) (name : String) (ls : Lines)
    (d : Draft) : Prop where
  root : d.root.outline Item.lines? = o
  path : ∃ span, d.path = [⟨name, span⟩]
  element : d.element = false
  origin : d.current.origin = .header
  current : d.current.outline Item.scalar? = ls

section
variable {o : Outline} {name key : String} {ls : Lines} {d : Draft}

theorem finishes_start : Finishes [] start := ⟨_, rfl, rfl⟩

theorem Inside.finishes (h : Inside o name ls d) (hnew : name ∉ o.map (·.1)) :
    Finishes (o ++ [(name, some ls)]) d := by
  obtain ⟨span, hpath⟩ := h.path
  have hfind : d.root.find? name = none := Table.find?_eq_none_of_outline (h.root ▸ hnew)
  refine ⟨d.root.push ⟨name, span⟩ (.table d.current), ?_, ?_⟩
  · have hsplit : splitLast d.path = some ([], ⟨name, span⟩) := by rw [hpath]; rfl
    rw [finish, hsplit]
    dsimp only
    rw [Table.descend, h.element]
    simp [hfind]
  · rw [Table.outline_push, h.root, Item.lines?, h.current]

theorem Finishes.header (h : Finishes o d) (hnew : name ∉ o.map (·.1)) (span span' : Span) :
    ∃ d', d.header [⟨name, span⟩] false span' = some d' ∧ Inside o name [] d' := by
  obtain ⟨t, hfinish, rfl⟩ := h
  have hfind : t.find? name = none := Table.find?_eq_none_of_outline hnew
  refine ⟨⟨t, [⟨name, span⟩], false, { Table.empty .header with span := some span' }⟩, ?_, ?_⟩
  · have hsplit : splitLast [(⟨name, span⟩ : Key)] = some ([], ⟨name, span⟩) := rfl
    have hoccupy : occupy ⟨name, span⟩ t = some (.empty .header, t) := by rw [occupy, hfind]
    rw [Draft.header, hfinish, hsplit]
    dsimp only [bind, Option.bind_some]
    rw [Table.descend, if_neg Bool.false_ne_true, hoccupy]
    rfl
  · exact ⟨rfl, ⟨span, rfl⟩, rfl, rfl, rfl⟩

theorem Inside.line (h : Inside o name ls d) (hnew : key ∉ ls.map (·.1)) (span span' : Span)
    (v : Scalar) :
    ∃ d', d.line [⟨key, span⟩] (.scalar v span') = some d' ∧
      Inside o name (ls ++ [(key, some v)]) d' := by
  have hfind : d.current.find? key = none := Table.find?_eq_none_of_outline (h.current ▸ hnew)
  have hinsert (s : Option Span) :
      Table.insert { d.current with span := s } [⟨key, span⟩] (.scalar v span') =
        some (Table.push { d.current with span := s } ⟨key, span⟩ (.scalar v span')) :=
    Table.insert_new (t := { d.current with span := s }) (k := ⟨key, span⟩) h.origin hfind _
  rw [Draft.line]
  dsimp only
  rw [hinsert]
  refine ⟨_, rfl, h.root, h.path, h.element, h.origin, ?_⟩
  rw [Table.outline_push, ← h.current]
  rfl

end
end Draft

/-- Behind the text the second condition holds of the draft, if the first one holds before
it, and the text is steps enough for its own lines. -/
def Passes (P : Draft → Prop) (w : List Char) (Q : Draft → Prop) : Prop :=
  ∀ d, P d → ∀ n rest, (w ++ rest).length < n →
    ∃ m d', Q d' ∧ rest.length < m ∧ readLines n d (w ++ rest) = readLines m d' rest

section
variable {P Q R : Draft → Prop} {w w' : List Char}

theorem passes_nil : Passes P [] P := fun d hd n _ hn => ⟨n, d, hd, hn, rfl⟩

theorem Passes.append (h : Passes P w Q) (h' : Passes Q w' R) : Passes P (w ++ w') R := by
  intro d hd n rest hn
  rw [List.append_assoc] at hn ⊢
  obtain ⟨m, d', hd', hm, hread⟩ := h d hd n (w' ++ rest) hn
  obtain ⟨m', d'', hd'', hm', hread'⟩ := h' d' hd' m rest hm
  exact ⟨m', d'', hd'', hm', hread.trans hread'⟩

theorem Passes.imp (h : Passes P w Q) (hQ : ∀ d, Q d → R d) : Passes P w R := by
  intro d hd n rest hn
  obtain ⟨m, d', hd', hm, hread⟩ := h d hd n rest hn
  exact ⟨m, d', hQ d' hd', hm, hread⟩

theorem passes_line (hw : w ≠ [])
    (h : ∀ d, P d → ∀ rest, ∃ d', Q d' ∧ readLine d (w ++ rest) = some (d', rest)) :
    Passes P w Q := by
  intro d hd n rest hn
  obtain ⟨n, rfl⟩ := Nat.exists_eq_succ_of_ne_zero (Nat.ne_zero_of_lt hn)
  obtain ⟨d', hd', hread⟩ := h d hd rest
  obtain ⟨c, cs, rfl⟩ := List.exists_cons_of_ne_nil hw
  refine ⟨n, d', hd', ?_, ?_⟩
  · simp only [List.length_append, List.length_cons] at hn
    omega
  · rw [List.cons_append] at hread ⊢
    rw [readLines, hread]
    · rfl
    · simp

end

structure Line where
  key : String
  written : List Char
  value : Scalar
  bare : Bare key
  reads : Reads written value

def Line.text (l : Line) : List Char := entry l.key l.written

structure Section where
  name : String
  lines : List Line
  bare : Bare name
  keys : (lines.map Line.key).Nodup

namespace Section

def text (s : Section) : List Char := header s.name ++ s.lines.flatMap Line.text

def outline (s : Section) : String × Option Lines :=
  (s.name, some (s.lines.map fun l => (l.key, some l.value)))

end Section

section
variable {o : Outline} {name : String}

theorem passes_entry {done : Lines} (l : Line)
    (hnew : l.key ∉ done.map (·.1)) :
    Passes (Draft.Inside o name done) l.text
      (Draft.Inside o name (done ++ [(l.key, some l.value)])) := by
  refine passes_line (by simp [Line.text, entry]) fun d hd rest => ?_
  obtain ⟨span, span', hread⟩ := readLine_entry l.bare l.reads d rest
  obtain ⟨d', hline, hd'⟩ := hd.line hnew span span' l.value
  exact ⟨d', hd', hread.trans (by rw [hline]; rfl)⟩

theorem passes_entries {done : Lines} {ls : List Line}
    (hkeys : (done.map (·.1) ++ ls.map Line.key).Nodup) :
    Passes (Draft.Inside o name done) (ls.flatMap Line.text)
      (Draft.Inside o name (done ++ ls.map fun l => (l.key, some l.value))) := by
  induction ls generalizing done with
  | nil => simpa using passes_nil
  | cons l ls ih =>
    have hnew : l.key ∉ done.map (·.1) := fun hmem =>
      (List.nodup_append.mp hkeys).2.2 _ hmem _ List.mem_cons_self rfl
    have hlater : ((done ++ [(l.key, some l.value)]).map (·.1) ++ ls.map Line.key).Nodup := by
      simpa using hkeys
    rw [List.flatMap_cons]
    simpa using (passes_entry l hnew).append (ih hlater)

theorem passes_header (s : Section) (hnew : s.name ∉ o.map (·.1)) :
    Passes (Draft.Finishes o) (header s.name) (Draft.Inside o s.name []) := by
  refine passes_line (by simp [header]) fun d hd rest => ?_
  obtain ⟨span, span', hread⟩ := readLine_header s.bare d rest
  obtain ⟨d', hheader, hd'⟩ := hd.header hnew span span'
  exact ⟨d', hd', hread.trans (by rw [hheader]; rfl)⟩

theorem passes_section (s : Section) (hnew : s.name ∉ o.map (·.1)) :
    Passes (Draft.Finishes o) s.text (Draft.Finishes (o ++ [s.outline])) := by
  have hlines : Passes (Draft.Inside o s.name []) (s.lines.flatMap Line.text)
      (Draft.Inside o s.name (s.lines.map fun l => (l.key, some l.value))) :=
    passes_entries s.keys
  exact ((passes_header s hnew).append hlines).imp fun d hd => hd.finishes hnew

theorem passes_blank (P : Draft → Prop) : Passes P ['\n'] P :=
  passes_line (List.cons_ne_nil _ _) fun d hd rest => ⟨d, hd, readLine_blank d rest⟩

end

def document : List Section → List Char
  | [] => []
  | [s] => s.text
  | s :: ss => s.text ++ ['\n'] ++ document ss

theorem passes_document {o : Outline} {ss : List Section}
    (hnames : (o.map (·.1) ++ ss.map Section.name).Nodup) :
    Passes (Draft.Finishes o) (document ss) (Draft.Finishes (o ++ ss.map Section.outline)) := by
  induction ss generalizing o with
  | nil =>
    rw [List.map_nil, List.append_nil]
    exact passes_nil
  | cons s ss ih =>
    have hnew : s.name ∉ o.map (·.1) := fun hmem =>
      (List.nodup_append.mp hnames).2.2 _ hmem _ List.mem_cons_self rfl
    have hlater : ((o ++ [s.outline]).map (·.1) ++ ss.map Section.name).Nodup := by
      simpa [Section.outline] using hnames
    cases ss with
    | nil => exact passes_section s hnew
    | cons s' ss =>
      rw [document]
      · simpa using ((passes_section s hnew).append (passes_blank _)).append (ih hlater)
      · simp

theorem dropMark_document (ss : List Section) : dropMark (document ss) = document ss := by
  cases ss with
  | nil => rfl
  | cons s ss => cases ss <;> rfl

/-- A document of sections with different names is read as a table of these sections. -/
theorem parse?_document {ss : List Section} (hnames : (ss.map Section.name).Nodup) :
    ∃ t, parse? (String.ofList (document ss)) = some t ∧
      t.outline Item.lines? = ss.map Section.outline := by
  have hpasses : Passes (Draft.Finishes []) (document ss)
      (Draft.Finishes (ss.map Section.outline)) := passes_document hnames
  obtain ⟨m, d, ⟨t, hfinish, houtline⟩, -, hread⟩ :=
    hpasses .start Draft.finishes_start ((document ss).length + 1) [] (by simp)
  refine ⟨t, ?_, houtline⟩
  rw [List.append_nil] at hread
  rw [parse?, String.toList_ofList, dropMark_document]
  exact hread.trans (by rw [readLines, hfinish])

end TreeJudge.Toml

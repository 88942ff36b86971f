import TreeJudge.Tree.Title

/-!
# Titles are read back

A title is written field by field: a label, a line feed and the value behind an opening
brace, with a closing brace and a line feed between two fields. As long as no label ends
in a closing brace and no field has line feeds of its own, the only separators in the
title are those between fields, and a field without blanks at its ends is read as it was
written. A value that starts like itself may stand without its brace.
-/

set_option autoImplicit false

namespace TreeJudge.Title
open Text

section
variable {c : Char} {cs : List Char}

theorem segments_ne_nil (cs : List Char) : segments cs ≠ [] := by
  fun_cases segments cs <;> simp [consHead_ne_nil]

theorem segments_cons (h : c = '}' → cs.head? ≠ some '\n') :
    segments (c :: cs) = consHead c (segments cs) := by
  rw [segments]
  rintro rest rfl rfl
  exact h rfl rfl

theorem consHead_append (c : Char) {ss : List (List Char)} (h : ss ≠ []) (ts : List (List Char)) :
    consHead c (ss ++ ts) = consHead c ss ++ ts := by
  cases ss with
  | nil => exact absurd rfl h
  | cons s ss => rfl

theorem segments_append (a b : List Char) :
    segments (a ++ '}' :: '\n' :: b) = segments a ++ segments b := by
  fun_induction segments a with
  | case1 rest ih => simp [segments, ih]
  | case2 c rest hsep ih =>
    have hhead : c = '}' → (rest ++ '}' :: '\n' :: b).head? ≠ some '\n' := by
      rintro rfl
      cases rest with
      | nil => exact nofun
      | cons d rest =>
        rintro ⟨⟩
        exact hsep rest rfl rfl
    rw [List.cons_append, segments_cons hhead, ih, consHead_append c (segments_ne_nil rest)]
  | case3 => rfl

theorem segments_of_no_feed (h : '\n' ∉ cs) : segments cs = [cs] := by
  induction cs with
  | nil => rfl
  | cons c cs ih =>
    rw [List.mem_cons, not_or] at h
    have hhead : c = '}' → cs.head? ≠ some '\n' := fun _ he => h.2 (List.mem_of_head? he)
    rw [segments_cons hhead, ih h.2]
    rfl

theorem segments_two_lines {label line : List Char} (hlabel : '\n' ∉ label)
    (hend : label.getLast? ≠ some '}') (hline : '\n' ∉ line) :
    segments (label ++ '\n' :: line) = [label ++ '\n' :: line] := by
  induction label with
  | nil =>
    have hfeed : '\n' = '}' → line.head? ≠ some '\n' := by simp
    rw [List.nil_append, segments_cons hfeed, segments_of_no_feed hline]
    rfl
  | cons c label ih =>
    rw [List.mem_cons, not_or] at hlabel
    cases label with
    | nil =>
      have hbrace : c ≠ '}' := by simpa using hend
      rw [List.cons_append, segments_cons (fun h => absurd h hbrace), ih (by simp) (by simp)]
      rfl
    | cons d label =>
      have hhead : c = '}' → (d :: label ++ '\n' :: line).head? ≠ some '\n' := by
        rintro - ⟨⟩
        exact hlabel.2 List.mem_cons_self
      rw [List.cons_append, segments_cons hhead, ih hlabel.2 (by simpa using hend)]
      rfl

theorem lines_of_no_feed (h : '\n' ∉ cs) : lines cs = [cs] := by
  induction cs with
  | nil => rfl
  | cons c cs ih =>
    rw [List.mem_cons, not_or] at h
    rw [lines, ih h.2]
    · rfl
    · rintro rfl
      exact h.1 rfl

theorem lines_append (h : '\n' ∉ cs) (rest : List Char) :
    lines (cs ++ '\n' :: rest) = cs :: lines rest := by
  induction cs with
  | nil => rfl
  | cons c cs ih =>
    rw [List.mem_cons, not_or] at h
    rw [List.cons_append, lines, ih h.2]
    · rfl
    · rintro rfl
      exact h.1 rfl

end

def Trimmed (cs : List Char) : Prop :=
  (∀ c ∈ cs.head?, isBlank c = false) ∧ ∀ c ∈ cs.getLast?, isBlank c = false

theorem dropWhile_blank {cs : List Char} (h : ∀ c ∈ cs.head?, isBlank c = false) :
    cs.dropWhile isBlank = cs := by
  cases cs with
  | nil => rfl
  | cons c cs => exact List.dropWhile_cons_of_neg (by simp [h c rfl])

theorem trim_of_trimmed {cs : List Char} (h : Trimmed cs) : trim cs = cs := by
  have hend : cs.reverse.dropWhile isBlank = cs.reverse :=
    dropWhile_blank (by simpa using h.2)
  rw [trim, trimStart, dropWhile_blank h.1, trimEnd, hend, List.reverse_reverse]

theorem field_two_lines {label line : List Char} (hlabel : '\n' ∉ label) (hline : '\n' ∉ line)
    (htrimmed : Trimmed label) (htrimmed' : Trimmed line) :
    field (label ++ '\n' :: line) = ⟨String.ofList label, String.ofList (dropBrace line)⟩ := by
  rw [field, lines_append hlabel, lines_of_no_feed hline, List.map_cons, List.map_cons,
    trim_of_trimmed htrimmed, trim_of_trimmed htrimmed']

theorem dropBrace_of_head? {cs : List Char} (h : cs.head? ≠ some '{') : dropBrace cs = cs := by
  unfold dropBrace
  split
  · exact absurd rfl h
  · rfl

structure Entry where
  field : TitleField
  braced : Bool

namespace Entry

def valueLine (e : Entry) : String := (if e.braced then "\x7b" else "") ++ e.field.value

def write (e : Entry) : String := e.field.label ++ "\n" ++ e.valueLine

/-- What the format can carry: the label does not look like the end of a segment, neither
text has line feeds, and what is trimmed is not theirs. Behind a brace the value may start
with anything. -/
structure Carried (e : Entry) : Prop where
  label_trimmed : Trimmed e.field.label.toList
  label_one_line : '\n' ∉ e.field.label.toList
  label_end : e.field.label.toList.getLast? ≠ some '}'
  value_one_line : '\n' ∉ e.field.value.toList
  value_end : ∀ c ∈ e.field.value.toList.getLast?, isBlank c = false
  value_start : e.braced = false →
    ∀ c ∈ e.field.value.toList.head?, c ≠ '{' ∧ isBlank c = false

variable {e : Entry}

theorem toList_valueLine (e : Entry) :
    e.valueLine.toList = (if e.braced then ['{'] else []) ++ e.field.value.toList := by
  cases h : e.braced <;> simp [valueLine, h]

theorem toList_write (e : Entry) :
    e.write.toList = e.field.label.toList ++ '\n' :: e.valueLine.toList := by
  simp [write]

namespace Carried
variable (h : e.Carried)
include h

theorem valueLine_one_line : '\n' ∉ e.valueLine.toList := by
  have hvalue := h.value_one_line
  cases hb : e.braced <;> simp [toList_valueLine, hb, hvalue]

theorem valueLine_trimmed : Trimmed e.valueLine.toList := by
  rw [toList_valueLine]
  cases hb : e.braced with
  | false => exact ⟨fun c hc => (h.value_start hb c hc).2, h.value_end⟩
  | true =>
    refine ⟨by simp; decide, fun c hc => ?_⟩
    rw [List.getLast?_append] at hc
    cases hlast : e.field.value.toList.getLast? with
    | none =>
      rw [hlast] at hc
      cases hc
      decide
    | some d =>
      rw [hlast] at hc
      cases hc
      exact h.value_end _ hlast

theorem dropBrace_valueLine : dropBrace e.valueLine.toList = e.field.value.toList := by
  rw [toList_valueLine]
  cases hb : e.braced with
  | false => exact dropBrace_of_head? fun hc => (h.value_start hb _ hc).1 rfl
  | true => rfl

theorem segments_write : segments e.write.toList = [e.write.toList] := by
  rw [toList_write]
  exact segments_two_lines h.label_one_line h.label_end h.valueLine_one_line

theorem field_write : Title.field e.write.toList = e.field := by
  rw [toList_write, field_two_lines h.label_one_line h.valueLine_one_line h.label_trimmed
    h.valueLine_trimmed, h.dropBrace_valueLine, String.ofList_toList, String.ofList_toList]

end Carried
end Entry

theorem fields_of_ne_empty {title : String} (h : title.toList ≠ []) :
    fields title = (segments title.toList).map field := by
  unfold fields
  split
  · next hnil => exact absurd hnil h
  · rfl

theorem segments_written {e : Entry} {es : List Entry} (h : ∀ d ∈ e :: es, d.Carried) :
    segments ("\x7d\n".intercalate ((e :: es).map Entry.write)).toList =
      (e :: es).map (·.write.toList) := by
  induction es generalizing e with
  | nil =>
    simp only [List.map_cons, List.map_nil, String.intercalate_singleton]
    exact (h e List.mem_cons_self).segments_write
  | cons d es ih =>
    obtain ⟨he, hes⟩ := List.forall_mem_cons.mp h
    have htext : ("\x7d\n".intercalate ((e :: d :: es).map Entry.write)).toList =
        e.write.toList ++ '}' :: '\n' ::
          ("\x7d\n".intercalate ((d :: es).map Entry.write)).toList := by
      simp [String.intercalate_cons_cons]
    rw [htext, segments_append, he.segments_write, ih hes]
    rfl

/-- Fields are read off the title that is written of them, each with its brace or, if its
value starts with neither a brace nor a blank, without. -/
theorem fields_of_written (es : List Entry) (h : ∀ e ∈ es, e.Carried) :
    fields ("\x7d\n".intercalate (es.map Entry.write)) = es.map (·.field) := by
  cases es with
  | nil => rfl
  | cons e es =>
    have hsegments := segments_written h
    have hne : ("\x7d\n".intercalate ((e :: es).map Entry.write)).toList ≠ [] := by
      intro hnil
      rw [hnil] at hsegments
      have hwrite : e.write.toList = [] := (List.cons.inj hsegments).1.symm
      rw [Entry.toList_write] at hwrite
      exact List.append_ne_nil_of_right_ne_nil _ (List.cons_ne_nil _ _) hwrite
    rw [fields_of_ne_empty hne, hsegments, List.map_map]
    exact List.map_congr_left fun d hd => (h d hd).field_write

def awkward : List Entry := [
  ⟨⟨"\x7da \x7b", "\x7d\x7d"⟩, true⟩, ⟨⟨"", ""⟩, false⟩, ⟨⟨"\x7b", "\x7b \x7b"⟩, true⟩,
  ⟨⟨"b", " \t\x7dx\x7d"⟩, true⟩, ⟨⟨"c", "\x7d"⟩, false⟩]

theorem awkward_fields_read_back :
    (∀ e ∈ awkward, e.Carried) ∧
      fields ("\x7da \x7b\n\x7b\x7d\x7d\x7d\n\n\x7d\n\x7b\n\x7b\x7b \x7b\x7d\n" ++
        "b\n\x7b \t\x7dx\x7d\x7d\nc\n\x7d") = awkward.map (·.field) := by
  have hcarried : ∀ e ∈ awkward, e.Carried := by
    intro e he
    simp only [awkward, List.mem_cons, List.not_mem_nil, or_false] at he
    rcases he with rfl | rfl | rfl | rfl | rfl <;>
      exact ⟨by simp [Trimmed, isBlank], by decide, by decide, by decide, by simp [isBlank],
        by simp [isBlank]⟩
  exact ⟨hcarried, fields_of_written awkward hcarried⟩

end TreeJudge.Title

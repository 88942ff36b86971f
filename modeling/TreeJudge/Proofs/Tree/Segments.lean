import TreeJudge.Proofs.Tree.Titles

/-!
# Segments and separators

Two titles with a separator between them are read as the one and then the other. No
separator is found across the joint, not even when a brace stands before it or a line feed
behind it, and trimming stays inside a segment. A title therefore has one segment more than
it has separators, and fields, being made of lines, have no line feeds. The empty title is
the only one whose fields are not those of its segments.
-/

set_option autoImplicit false

namespace TreeJudge

namespace Text
variable {pattern : List Char}

/-- How often the pattern is met when a text is searched from the left and the search goes
on behind each match. -/
def occurrences (pattern : List Char) : List Char → Nat
  | [] => 0
  | c :: cs =>
    -- a match takes `c` at least, so that not even the empty pattern stops the search
    if pattern.isPrefixOf (c :: cs) then occurrences pattern (cs.drop (pattern.length - 1)) + 1
    else occurrences pattern cs
termination_by text => text.length
decreasing_by
  · rw [List.length_drop, List.length_cons]
    omega
  · exact Nat.lt_succ_self _

theorem occurrences_nil : occurrences pattern [] = 0 := by rw [occurrences]

theorem occurrences_append (h : pattern ≠ []) (rest : List Char) :
    occurrences pattern (pattern ++ rest) = occurrences pattern rest + 1 := by
  obtain ⟨c, cs, rfl⟩ := List.exists_cons_of_ne_nil h
  have hfound : (c :: cs).isPrefixOf (c :: (cs ++ rest)) = true :=
    List.isPrefixOf_iff_prefix.mpr (List.prefix_append (c :: cs) rest)
  have hrest : (cs ++ rest).drop ((c :: cs).length - 1) = rest := List.drop_left
  rw [List.cons_append, occurrences, if_pos hfound, hrest]

theorem occurrences_cons {c : Char} {cs : List Char} (h : ¬pattern <+: c :: cs) :
    occurrences pattern (c :: cs) = occurrences pattern cs := by
  rw [occurrences, if_neg (mt List.isPrefixOf_iff_prefix.mp h)]

end Text

namespace Title
open Text

def separator : List Char := ['}', '\n']

theorem separator_prefix_iff {c : Char} {cs : List Char} :
    separator <+: c :: cs ↔ c = '}' ∧ cs.head? = some '\n' := by
  cases cs with
  | nil => simp [separator, List.cons_prefix_cons]
  | cons d cs => simp [separator, List.cons_prefix_cons, eq_comm]

theorem length_consHead (c : Char) {ss : List (List Char)} (h : ss ≠ []) :
    (consHead c ss).length = ss.length := by
  cases ss with
  | nil => exact absurd rfl h
  | cons s ss => rfl

theorem length_segments (cs : List Char) :
    (segments cs).length = occurrences separator cs + 1 := by
  fun_induction segments cs with
  | case1 rest ih =>
    have hfound : occurrences separator ('}' :: '\n' :: rest) = occurrences separator rest + 1 :=
      occurrences_append (List.cons_ne_nil _ _) rest
    rw [List.length_cons, ih, hfound]
  | case2 c rest hsep ih =>
    have hpassed : ¬separator <+: c :: rest := by
      rw [separator_prefix_iff]
      rintro ⟨rfl, hhead⟩
      obtain ⟨cs, rfl⟩ := List.head?_eq_some_iff.mp hhead
      exact hsep cs rfl rfl
    rw [length_consHead c (segments_ne_nil rest), ih, occurrences_cons hpassed]
  | case3 => rw [occurrences_nil]; rfl

def parts (title : String) : List TitleField := (segments title.toList).map field

theorem fields_eq_parts_iff {title : String} : fields title = parts title ↔ title ≠ "" := by
  constructor
  · rintro h rfl
    exact absurd h (by decide)
  · intro h
    exact fields_of_ne_empty (mt String.toList_eq_nil_iff.mp h)

theorem length_parts (title : String) :
    (parts title).length = 1 + occurrences separator title.toList := by
  rw [parts, List.length_map, length_segments, Nat.add_comm]

theorem length_fields (title : String) :
    (fields title).length =
      if title = "" then 0 else 1 + occurrences separator title.toList := by
  split
  · next h => rw [h, fields_empty, List.length_nil]
  · next h => rw [fields_eq_parts_iff.mpr h, length_parts]

theorem length_fields_le (title : String) : (fields title).length ≤ (parts title).length := by
  rw [length_fields, length_parts]
  split
  · exact Nat.zero_le _
  · exact Nat.le_refl _

theorem parts_joined (a b : String) : parts (a ++ "\x7d\n" ++ b) = parts a ++ parts b := by
  have htext : (a ++ "\x7d\n" ++ b).toList = a.toList ++ '}' :: '\n' :: b.toList := by simp
  rw [parts, htext, segments_append, List.map_append]
  rfl

theorem fields_joined (a b : String) : fields (a ++ "\x7d\n" ++ b) = parts a ++ parts b := by
  have hne : a ++ "\x7d\n" ++ b ≠ "" := by simp
  rw [fields_eq_parts_iff.mpr hne, parts_joined]

/-- Titles are read independently of each other, whatever they hold and wherever they are
joined, unless one of them is empty: between separators that one counts as a blank field,
alone it has none. -/
theorem fields_of_joined_iff (a b : String) :
    fields (a ++ "\x7d\n" ++ b) = fields a ++ fields b ↔ a ≠ "" ∧ b ≠ "" := by
  rw [fields_joined, ← fields_eq_parts_iff, ← fields_eq_parts_iff]
  constructor
  · intro h
    have ha := length_fields_le a
    have hb := length_fields_le b
    have hlength := congrArg List.length h
    rw [List.length_append, List.length_append] at hlength
    obtain ⟨hparts, hparts'⟩ := List.append_inj h (by omega)
    exact ⟨hparts.symm, hparts'.symm⟩
  · rintro ⟨ha, hb⟩
    rw [ha, hb]

example : fields ("x\x7d" ++ "\x7d\n" ++ "\ny") = [⟨"x\x7d", ""⟩, ⟨"", "y"⟩] := by decide

theorem feed_notMem_lines (cs : List Char) : ∀ l ∈ lines cs, '\n' ∉ l := by
  fun_induction lines cs with
  | case1 rest ih => exact List.forall_mem_cons.mpr ⟨List.not_mem_nil, ih⟩
  | case2 c rest hfeed ih =>
    have hc : '\n' ≠ c := fun h => hfeed h.symm
    cases hlines : lines rest with
    | nil => simpa [consHead] using hc
    | cons l ls =>
      rw [hlines, List.forall_mem_cons] at ih
      simpa [consHead, hc] using ih
  | case3 => simp

theorem trim_sublist (cs : List Char) : (trim cs).Sublist cs := by
  have hend := (List.dropWhile_sublist isBlank (l := (trimStart cs).reverse)).reverse
  rw [List.reverse_reverse] at hend
  exact hend.trans (List.dropWhile_sublist isBlank)

theorem dropBrace_sublist (cs : List Char) : (dropBrace cs).Sublist cs := by
  unfold dropBrace
  split
  · exact List.sublist_cons_self _ _
  · exact List.Sublist.refl _

theorem feed_notMem_field (segment : List Char) :
    '\n' ∉ (field segment).label.toList ∧ '\n' ∉ (field segment).value.toList := by
  have htrimmed : ∀ l ∈ (lines segment).map trim, '\n' ∉ l := by
    intro l hl
    obtain ⟨line, hline, rfl⟩ := List.mem_map.mp hl
    exact fun h => feed_notMem_lines segment line hline ((trim_sublist line).mem h)
  unfold field
  split
  · next label value _ heq =>
    rw [heq, List.forall_mem_cons, List.forall_mem_cons] at htrimmed
    obtain ⟨hlabel, hvalue, -⟩ := htrimmed
    rw [String.toList_ofList, String.toList_ofList]
    exact ⟨hlabel, fun h => hvalue ((dropBrace_sublist value).mem h)⟩
  · next label heq =>
    rw [heq, List.forall_mem_singleton] at htrimmed
    rw [String.toList_ofList]
    exact ⟨htrimmed, List.not_mem_nil⟩
  · exact ⟨List.not_mem_nil, List.not_mem_nil⟩

theorem feed_notMem_fields (title : String) :
    ∀ f ∈ fields title, '\n' ∉ f.label.toList ∧ '\n' ∉ f.value.toList := by
  intro f hf
  by_cases h : title = ""
  · rw [h, fields_empty] at hf
    cases hf
  · rw [fields_eq_parts_iff.mpr h] at hf
    obtain ⟨segment, -, rfl⟩ := List.mem_map.mp hf
    exact feed_notMem_field segment

end Title
end TreeJudge

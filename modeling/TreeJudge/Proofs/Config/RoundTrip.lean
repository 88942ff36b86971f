import TreeJudge.Proofs.Config.Layers
import TreeJudge.Proofs.Config.Sections

/-!
# A written configuration is loaded back

The text of a configuration is a document of four sections whose outline names all five
settings, and what an outline names is what the setting is given.
-/

set_option autoImplicit false

namespace TreeJudge
open Toml Shape

namespace Setting

section
variable {β : Type} {σ : Setting β} {t : Table} {ls : Lines}

theorem layer_of_outline (hsection : (t.outline Item.lines?).lookup σ.table = some (some ls))
    {v : Scalar} (hline : ls.lookup σ.key = some (some v)) {b : β}
    (hvalue : ∀ span, σ.value? (.scalar v span) = some b) : σ.layer t = some b := by
  rw [← Table.map_find?] at hsection
  obtain ⟨i, hfind, hlines⟩ := Option.map_eq_some_iff.mp hsection
  cases i with
  | table s =>
    have hs : Table.outline Item.scalar? s = ls := Option.some.inj hlines
    rw [← hs, ← Table.map_find?] at hline
    obtain ⟨i, hkey, hscalar⟩ := Option.map_eq_some_iff.mp hline
    cases i with
    | scalar v' span =>
      cases hscalar
      rw [layer, given?, hfind]
      dsimp only
      rw [hkey]
      exact hvalue span
    | _ => cases hscalar
  | _ => cases hlines

end
end Setting

namespace Config

theorem isTable_of_outline {t : Table} {name : String} {ls : Lines}
    (h : (t.outline Item.lines?).lookup name = some (some ls)) :
    ∀ i ∈ t.find? name, i.isTable := by
  rw [← Table.map_find?] at h
  intro i hi
  rw [Option.mem_def.mp hi] at h
  cases i with
  | table s => rfl
  | _ => cases h

def textLine (key : String) (bare : Bare key) (s : String) : Line :=
  ⟨key, quoted s, .text s, bare, reads_quoted s⟩

def flagLine (key : String) (bare : Bare key) (b : Bool) : Line :=
  ⟨key, flagText b, .boolean b, bare, reads_flag b⟩

def sections (c : Config) : List Section := [
  ⟨"server", [textLine "url" (by decide) c.url], by decide, List.nodup_singleton _⟩,
  ⟨"logging", [textLine "level" (by decide) c.level], by decide, List.nodup_singleton _⟩,
  ⟨"palette", [textLine "rejected" (by decide) c.palette.rejected,
    textLine "confirmed" (by decide) c.palette.confirmed], by decide, by simp [textLine]⟩,
  ⟨"feedback", [flagLine "flag_on_decode_fault" (by decide) c.flagOnFault], by decide,
    List.nodup_singleton _⟩]

theorem toToml_eq (c : Config) : c.toToml = String.ofList (document c.sections) := by
  simp [toToml, sections, document, Section.text, Line.text, textLine, flagLine]

theorem read?_of_outline {c : Config} {t : Table} (ht : t.Distinct)
    (h : t.outline Item.lines? = c.sections.map Section.outline) :
    read? (OfToml.record Config.record) (.table t) = some c := by
  have hserver : (t.outline Item.lines?).lookup "server" =
      some (some [("url", some (.text c.url))]) := by
    rw [h]
    rfl
  have hlogging : (t.outline Item.lines?).lookup "logging" =
      some (some [("level", some (.text c.level))]) := by
    rw [h]
    rfl
  have hpalette : (t.outline Item.lines?).lookup "palette" =
      some (some [("rejected", some (.text c.palette.rejected)),
        ("confirmed", some (.text c.palette.confirmed))]) := by
    rw [h]
    rfl
  have hfeedback : (t.outline Item.lines?).lookup "feedback" =
      some (some [("flag_on_decode_fault", some (.boolean c.flagOnFault))]) := by
    rw [h]
    rfl
  have hsections : SectionsAreTables t := by
    intro name hname
    simp only [List.mem_cons, List.not_mem_nil, or_false] at hname
    rcases hname with rfl | rfl | rfl | rfl
    · exact isTable_of_outline hserver
    · exact isTable_of_outline hlogging
    · exact isTable_of_outline hpalette
    · exact isTable_of_outline hfeedback
  have hurl : Setting.url.layer t = some c.url :=
    Setting.layer_of_outline hserver rfl fun _ => rfl
  have hlevel : Setting.level.layer t = some c.level :=
    Setting.layer_of_outline hlogging rfl fun _ => rfl
  have hrejected : Setting.rejected.layer t = some c.palette.rejected :=
    Setting.layer_of_outline hpalette rfl fun _ => rfl
  have hconfirmed : Setting.confirmed.layer t = some c.palette.confirmed :=
    Setting.layer_of_outline hpalette rfl fun _ => rfl
  have hflag : Setting.flagOnFault.layer t = some c.flagOnFault :=
    Setting.layer_of_outline hfeedback rfl fun _ => rfl
  rw [read?_layers ht hsections, hurl, hlevel, hrejected, hconfirmed, hflag]
  rfl

/-- A file with the text of a configuration gives this configuration, whatever its strings
are, and with it the options of its sessions. -/
theorem load_toToml (path : String) (c : Config) :
    load path (.bytes c.toToml.toUTF8) = .ok c ∧
      (load path (.bytes c.toToml.toUTF8)).map sessionOptions = .ok c.sessionOptions := by
  have hnames : (c.sections.map Section.name).Nodup := by
    simp [sections]
  obtain ⟨t, hparse, houtline⟩ := parse?_document hnames
  rw [← toToml_eq] at hparse
  have hload := load_of_read path hparse (read?_of_outline (parse?_distinct hparse) houtline)
  rw [hload]
  exact ⟨rfl, rfl⟩

end Config
end TreeJudge

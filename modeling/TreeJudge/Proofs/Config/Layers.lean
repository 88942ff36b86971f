import TreeJudge.Config
import TreeJudge.Proofs.Shape.Entries

/-!
# Settings and their defaults

A configuration is its five settings, each looked up by itself: a setting has the value
that its section gives it, or its one default when the section does not have its key or
is not there at all. What else a file holds is of no account, and a value of a wrong type
for any setting leaves no configuration.
-/

set_option autoImplicit false

namespace TreeJudge
open Toml Shape

def Toml.Item.text? : Item → Option String
  | .scalar (.text s) _ => some s
  | _ => none

def Toml.Item.flag? : Item → Option Bool
  | .scalar (.boolean b) _ => some b
  | _ => none

def Toml.Item.isTable : Item → Bool
  | .table _ => true
  | _ => false

/-- Where a setting stands in a file and in a configuration, and which items are values
of it. -/
structure Setting (β : Type) where
  table : String
  key : String
  value? : Item → Option β
  get : Config → β

namespace Setting

def url : Setting String := ⟨"server", "url", Item.text?, Config.url⟩

def level : Setting String := ⟨"logging", "level", Item.text?, Config.level⟩

def rejected : Setting String := ⟨"palette", "rejected", Item.text?, (·.palette.rejected)⟩

def confirmed : Setting String := ⟨"palette", "confirmed", Item.text?, (·.palette.confirmed)⟩

def flagOnFault : Setting Bool :=
  ⟨"feedback", "flag_on_decode_fault", Item.flag?, Config.flagOnFault⟩

section
variable {β : Type} (σ : Setting β) (t : Table)

def given? : Option Item :=
  match t.find? σ.table with
  | some (.table s) => Table.find? s σ.key
  | _ => none

def Fits : Prop := ∀ i ∈ σ.given? t, (σ.value? i).isSome

instance : Decidable (σ.Fits t) := inferInstanceAs (Decidable (∀ _ ∈ _, _))

/-- The value that is given, or else the default: the same one whether the section is not
there, is empty or has other keys only. -/
def value : β := ((σ.given? t).bind σ.value?).getD (σ.get .standard)

def layer : Option β :=
  match σ.given? t with
  | some i => σ.value? i
  | none => some (σ.get .standard)

variable {σ t}

theorem layer_of_fits (h : σ.Fits t) : σ.layer t = some (σ.value t) := by
  unfold layer value
  cases hgiven : σ.given? t with
  | none => rfl
  | some i =>
    obtain ⟨b, hb⟩ := Option.isSome_iff_exists.mp (h i hgiven)
    simp [hb]

theorem layer_of_not_fits (h : ¬ σ.Fits t) : σ.layer t = none := by
  unfold layer
  cases hgiven : σ.given? t with
  | none => exact absurd (by simp [Fits, hgiven]) h
  | some i => simpa [Fits, hgiven] using h

end
end Setting

namespace Shape.OfToml
variable {α β : Type}

theorem read?_text (i : Item) : read? text i = i.text? := by
  cases i with
  | scalar v s => cases v <;> rfl
  | _ => rfl

theorem read?_flag (i : Item) : read? flag i = i.flag? := by
  cases i with
  | scalar v s => cases v <;> rfl
  | _ => rfl

theorem lookup_congr {t : Table} {name : String} {read : OfToml β} {value? : Item → Option β}
    {standard : β} (hread : ∀ i, read? read i = value? i) :
    lookup t name read standard =
      match t.find? name with
      | some i => value? i
      | none => some standard := by
  unfold lookup
  cases t.find? name with
  | none => rfl
  | some i => exact hread i

end Shape.OfToml

namespace Config
open OfToml (lookup applied_part)

def SectionsAreTables (t : Table) : Prop :=
  ∀ name ∈ ["server", "logging", "palette", "feedback"], ∀ i ∈ t.find? name, i.isTable

instance (t : Table) : Decidable (SectionsAreTables t) :=
  inferInstanceAs (Decidable (∀ _ ∈ _, ∀ _ ∈ _, _))

def Fits (t : Table) : Prop :=
  Setting.url.Fits t ∧ Setting.level.Fits t ∧ Setting.rejected.Fits t ∧
    Setting.confirmed.Fits t ∧ Setting.flagOnFault.Fits t

instance (t : Table) : Decidable (Fits t) := inferInstanceAs (Decidable (_ ∧ _))

def layered (t : Table) : Config where
  url := Setting.url.value t
  level := Setting.level.value t
  palette := ⟨Setting.rejected.value t, Setting.confirmed.value t⟩
  flagOnFault := Setting.flagOnFault.value t

theorem read?_palette {s : Table} (hs : s.names.Nodup) :
    read? (OfToml.record Palette.record) (.table s) =
      (lookup s "rejected" OfToml.text Palette.standard.rejected).bind fun r =>
        (lookup s "confirmed" OfToml.text Palette.standard.confirmed).map fun c => ⟨r, c⟩ := by
  have hapart : (Palette.record : Record OfToml Palette).fields.Pairwise Apart := by
    refine List.pairwise_cons.mpr ⟨?_, List.pairwise_singleton _ _⟩
    rw [List.forall_mem_singleton]
    exact apart_fields (by decide) fun _ _ _ => rfl
  rw [OfToml.read?_record hapart hs]
  change applied (applied (some Palette.standard) _) _ = _
  rw [applied_part Palette.standard.rejected rfl]
  cases lookup s "rejected" OfToml.text Palette.standard.rejected with
  | none => simp
  | some r => exact applied_part Palette.standard.confirmed rfl

theorem read?_sections {t : Table} (ht : t.names.Nodup) :
    read? (OfToml.record Config.record) (.table t) =
      (lookup t "server" (OfToml.record serverRecord) standard.url).bind fun u =>
        (lookup t "logging" (OfToml.record loggingRecord) standard.level).bind fun l =>
          (lookup t "palette" (OfToml.record Palette.record) standard.palette).bind fun p =>
            (lookup t "feedback" (OfToml.record feedbackRecord) standard.flagOnFault).map
              fun b => ⟨u, l, p, b⟩ := by
  have hapart : (Config.record : Record OfToml Config).fields.Pairwise Apart := by
    simp only [Config.record, List.pairwise_cons, List.mem_cons, List.not_mem_nil, or_false,
      forall_eq_or_imp, forall_eq, List.Pairwise.nil, and_true, IsEmpty.forall_iff, implies_true]
    refine ⟨⟨?_, ?_, ?_⟩, ⟨?_, ?_⟩, ?_⟩ <;>
      exact apart_fields (by decide) fun _ _ _ => rfl
  rw [OfToml.read?_record hapart ht]
  change applied (applied (applied (applied
    (some Config.standard) _) _) _) _ = _
  rw [applied_part standard.url rfl]
  cases lookup t "server" (OfToml.record serverRecord) standard.url with
  | none => simp
  | some u =>
    rw [Option.map_some, applied_part standard.level rfl]
    cases lookup t "logging" (OfToml.record loggingRecord) standard.level with
    | none => simp
    | some l =>
      rw [Option.map_some, applied_part standard.palette rfl]
      cases lookup t "palette" (OfToml.record Palette.record) standard.palette with
      | none => simp
      | some p => exact applied_part standard.flagOnFault rfl

section
variable {t : Table} (ht : t.Distinct)
include ht

theorem lookup_section {β : Type} (σ : Setting β) (htable : ∀ i ∈ t.find? σ.table, i.isTable)
    {r : Record OfToml β} {read : OfToml β}
    (hfields : r.fields = [Shape.optional σ.key read fun b _ => b])
    (hstart : r.start = σ.get .standard) (hread : ∀ i, read? read i = σ.value? i) :
    lookup t σ.table (OfToml.record r) (σ.get .standard) = σ.layer t := by
  unfold lookup Setting.layer Setting.given?
  cases hfind : t.find? σ.table with
  | none => rfl
  | some i =>
    cases i with
    | table s =>
      have hs : Table.Distinct s := (Table.distinct_iff s).mpr (ht.item hfind)
      exact (OfToml.read?_only hfields hs.names).trans (hstart ▸ OfToml.lookup_congr hread)
    | _ => cases htable _ hfind

theorem lookup_palette (htable : ∀ i ∈ t.find? "palette", i.isTable) :
    lookup t "palette" (OfToml.record Palette.record) standard.palette =
      (Setting.rejected.layer t).bind fun r =>
        (Setting.confirmed.layer t).map fun c => ⟨r, c⟩ := by
  unfold lookup Setting.layer Setting.given?
  dsimp only [Setting.rejected, Setting.confirmed]
  cases hfind : t.find? "palette" with
  | none => rfl
  | some i =>
    cases i with
    | table s =>
      have hs : Table.Distinct s := (Table.distinct_iff s).mpr (ht.item hfind)
      refine (read?_palette hs.names).trans ?_
      rw [OfToml.lookup_congr OfToml.read?_text, OfToml.lookup_congr OfToml.read?_text]
      rfl
    | _ => cases htable _ hfind

theorem read?_layers (hsections : SectionsAreTables t) :
    read? (OfToml.record Config.record) (.table t) =
      (Setting.url.layer t).bind fun u =>
        (Setting.level.layer t).bind fun l =>
          ((Setting.rejected.layer t).bind fun r =>
            (Setting.confirmed.layer t).map fun c => (⟨r, c⟩ : Palette)).bind fun p =>
              (Setting.flagOnFault.layer t).map fun b => ⟨u, l, p, b⟩ := by
  have hserver : lookup t "server" (OfToml.record serverRecord) standard.url =
      Setting.url.layer t :=
    lookup_section ht Setting.url (hsections "server" (by simp)) rfl rfl OfToml.read?_text
  have hlogging : lookup t "logging" (OfToml.record loggingRecord) standard.level =
      Setting.level.layer t :=
    lookup_section ht Setting.level (hsections "logging" (by simp)) rfl rfl OfToml.read?_text
  have hfeedback : lookup t "feedback" (OfToml.record feedbackRecord) standard.flagOnFault =
      Setting.flagOnFault.layer t :=
    lookup_section ht Setting.flagOnFault (hsections "feedback" (by simp)) rfl rfl
      OfToml.read?_flag
  rw [read?_sections ht.names, hserver, hlogging,
    lookup_palette ht (hsections "palette" (by simp)), hfeedback]

theorem read?_of_fits (hsections : SectionsAreTables t) (h : Fits t) :
    read? (OfToml.record Config.record) (.table t) = some (layered t) := by
  obtain ⟨hurl, hlevel, hrejected, hconfirmed, hflag⟩ := h
  rw [read?_layers ht hsections, Setting.layer_of_fits hurl, Setting.layer_of_fits hlevel,
    Setting.layer_of_fits hrejected, Setting.layer_of_fits hconfirmed,
    Setting.layer_of_fits hflag]
  rfl

theorem read?_of_not_fits (hsections : SectionsAreTables t) (h : ¬ Fits t) :
    read? (OfToml.record Config.record) (.table t) = none := by
  rw [read?_layers ht hsections]
  simp only [Fits, not_and_or] at h
  rcases h with h | h | h | h | h <;> simp [Setting.layer_of_not_fits h]

end

section
variable {text : String} {t : Table}

theorem load_text (path text : String) :
    load path (.bytes text.toUTF8) = (ofText text).mapError (Problem.failure text) := by
  have hutf8 : String.fromUTF8? text.toUTF8 = some text := by
    have hvalid : text.toUTF8.IsValidUTF8 := text.isValidUTF8
    rw [String.fromUTF8?, dif_pos hvalid]
    rfl
  rw [load, hutf8]

theorem ofText_of_parse (hparse : Toml.parse? text = some t) : ofText text = ofTable t := by
  rw [ofText, hparse]

theorem load_of_read (path : String) (hparse : Toml.parse? text = some t) {c : Config}
    (hread : read? (OfToml.record Config.record) (.table t) = some c) :
    load path (.bytes text.toUTF8) = .ok c := by
  have hok : ofTable t = .ok c := mapError_eq_ok.mpr (OfToml.read?_eq_some.mp hread)
  rw [load_text, ofText_of_parse hparse, hok]
  rfl

theorem load_of_fault (path : String) (hparse : Toml.parse? text = some t)
    (hread : read? (OfToml.record Config.record) (.table t) = none) :
    ∃ message, load path (.bytes text.toUTF8) = .error (.config message) := by
  rw [load_text, ofText_of_parse hparse]
  cases hresult : ofTable t with
  | ok c =>
    have hread' := OfToml.read?_eq_some.mpr (mapError_eq_ok.mp hresult)
    cases hread.symm.trans hread'
  | error p => exact ⟨_, rfl⟩

/-- In every document whose known sections are tables, each setting is the value that it
is given, or else its default, and nothing else in the document counts. One setting of a
wrong type leaves no configuration. -/
theorem load_layers (path : String) (hparse : Toml.parse? text = some t)
    (hsections : SectionsAreTables t) :
    (Fits t → load path (.bytes text.toUTF8) = .ok (layered t)) ∧
      (¬ Fits t → ∃ message, load path (.bytes text.toUTF8) = .error (.config message)) := by
  have ht : t.Distinct := Toml.parse?_distinct hparse
  exact ⟨fun h => load_of_read path hparse (read?_of_fits ht hsections h),
    fun h => load_of_fault path hparse (read?_of_not_fits ht hsections h)⟩

end

def partialText : String :=
  "title = \"layers\"\npalette.rejected = \"red\"\n" ++
  "feedback = \x7b flag_on_decode_fault = false, url = [1, 2] \x7d\n\n" ++
  "[server]\nport = 8001\n\n[extra.server]\nurl = 3\n"

def partialConfig : Config :=
  { standard with palette := ⟨"red", Palette.standard.confirmed⟩, flagOnFault := false }

def mistypedText : String := "[server]\nurl = \"\"\n\n[logging]\nlevel = 3\n"

theorem load_partial_and_mistyped :
    load "client.toml" (.bytes partialText.toUTF8) = .ok partialConfig ∧
      ∃ message, load "client.toml" (.bytes mistypedText.toUTF8) = .error (.config message) := by
  have hpartial : (Toml.parse? partialText).isSome ∧ ∀ t ∈ Toml.parse? partialText,
      SectionsAreTables t ∧ Fits t ∧ layered t = partialConfig := by decide +kernel
  have hmistyped : (Toml.parse? mistypedText).isSome ∧ ∀ t ∈ Toml.parse? mistypedText,
      SectionsAreTables t ∧ ¬ Fits t := by decide +kernel
  obtain ⟨t, ht⟩ := Option.isSome_iff_exists.mp hpartial.1
  obtain ⟨t', ht'⟩ := Option.isSome_iff_exists.mp hmistyped.1
  obtain ⟨hsections, hfits, hlayered⟩ := hpartial.2 t ht
  obtain ⟨hsections', hfits'⟩ := hmistyped.2 t' ht'
  refine ⟨?_, (load_layers _ ht' hsections').2 hfits'⟩
  rw [← hlayered]
  exact (load_layers _ ht hsections).1 hfits

end Config
end TreeJudge

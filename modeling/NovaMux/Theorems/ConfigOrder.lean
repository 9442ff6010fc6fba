import NovaMux.Theorems.Config
import NovaMux.Lib.Replay

/-! Configurations with their lines in another order. A setting changes its own field, and the built-in theme all
    colors: only a color and the theme do not commute, and a theme hides the colors before it. Lines without a
    setting do not count. -/

namespace NovaMux.Config
open Str Replay

/-! ### What a setting changes -/

/-- Applies a change when the key has this name. -/
def only {α : Type} (name : String) (key : List Char) (change : α → α) (x : α) : α :=
  if String.ofList key = name then change x else x

theorem only_self {α : Type} {name : String} {key : List Char} {change : α → α} {x : α}
    (h : String.ofList key ≠ name) : only name key change x = x := if_neg h

/-- Changes of one field for different keys: at most one of them applies. -/
theorem only_comm {α : Type} {name : String} {key key' : List Char} (h : key ≠ key') (change change' : α → α) (x : α) :
    only name key' change' (only name key change x) = only name key change (only name key' change' x) := by
  by_cases hk : String.ofList key = name
  · have hk' : String.ofList key' ≠ name := fun he => h (String.ofList_injective (hk.trans he.symm))
    rw [only_self hk', only_self hk']
  · rw [only_self hk, only_self hk]

variable {color : List Char → Option Color} {config config' : Config} {setting other : List Char × List Char}

/-- What a setting makes of the theme. -/
def assignTheme (color : List Char → Option Color) (setting : List Char × List Char) (theme : Theme) : Theme :=
  let painted (old : Color) := (color setting.2).getD old
  only "theme" setting.1 (fun theme => (Theme.named (String.ofList setting.2)).getD theme)
    { paneBorder := only "pane_border" setting.1 painted theme.paneBorder
      focusedBorder := only "focused_border" setting.1 painted theme.focusedBorder
      status := only "status" setting.1 painted theme.status
      statusBackground := only "status_background" setting.1 painted theme.statusBackground
      foreground := only "foreground" setting.1 painted theme.foreground
      background := only "background" setting.1 painted theme.background }

/-- A setting, field by field. -/
theorem assign_eq (color : List Char → Option Color) (config : Config) (setting : List Char × List Char) :
    let name := String.ofList setting.2
    assign color config setting =
      { theme := assignTheme color setting config.theme
        animation := only "animation" setting.1 (fun old => (Animation.named name).getD old) config.animation
        screensaver := only "screensaver" setting.1 (fun old => (Screensaver.named name).getD old) config.screensaver
        idleSeconds :=
          only "idle_seconds" setting.1 (fun old => ((integer? 10 setting.2).map UInt16.ofNat).getD old) config.idleSeconds
        sceneStyle := only "scene_style" setting.1 (fun old => (SceneStyle.named name).getD old) config.sceneStyle } := by
  unfold assign assignTheme only
  split
  case h_12 h₁ h₂ h₃ h₄ h₅ h₆ h₇ h₈ h₉ h₁₀ h₁₁ =>
    simp only [if_neg h₁, if_neg h₂, if_neg h₃, if_neg h₄, if_neg h₅, if_neg h₆, if_neg h₇, if_neg h₈, if_neg h₉,
      if_neg h₁₀, if_neg h₁₁]
  all_goals
    next h => simp [h]

/-- A setting that is neither the theme nor a color leaves the theme alone. -/
theorem assignTheme_self (ht : setting.1 ≠ "theme".toList) (hc : ¬ColorKey setting.1) (theme : Theme) :
    assignTheme color setting theme = theme := by
  have htheme : String.ofList setting.1 ≠ "theme" := fun he => ht (by rw [← he, String.toList_ofList])
  simp only [ColorKey, colorKeys, List.mem_cons, List.not_mem_nil, or_false, not_or] at hc
  obtain ⟨h₁, h₂, h₃, h₄, h₅, h₆⟩ := hc
  rw [assignTheme, only_self htheme, only_self h₁, only_self h₂, only_self h₃, only_self h₄, only_self h₅, only_self h₆]

/-- One of two settings is the theme, and the other a color. -/
def Clash (key key' : List Char) : Prop :=
  (key = "theme".toList ∧ ColorKey key') ∨ (ColorKey key ∧ key' = "theme".toList)

theorem assignTheme_comm (hne : setting.1 ≠ other.1) (h : ¬Clash setting.1 other.1) (theme : Theme) :
    assignTheme color other (assignTheme color setting theme) =
      assignTheme color setting (assignTheme color other theme) := by
  obtain ⟨h₁, h₂⟩ := not_or.mp h
  by_cases ht : setting.1 = "theme".toList
  · have hother : ∀ theme, assignTheme color other theme = theme :=
      assignTheme_self (fun he => hne (ht.trans he.symm)) fun hc => h₁ ⟨ht, hc⟩
    rw [hother, hother]
  by_cases ht' : other.1 = "theme".toList
  · have hsetting : ∀ theme, assignTheme color setting theme = theme :=
      assignTheme_self ht fun hc => h₂ ⟨hc, ht'⟩
    rw [hsetting, hsetting]
  have hname : ∀ key : List Char, key ≠ "theme".toList → String.ofList key ≠ "theme" := fun key hk he =>
    hk (by rw [← he, String.toList_ofList])
  unfold assignTheme
  simp only [only_self (hname _ ht), only_self (hname _ ht'), only_comm hne]

/-- Settings of different keys commute, but for the theme and a color. -/
theorem assign_comm (hne : setting.1 ≠ other.1) (h : ¬Clash setting.1 other.1) (config : Config) :
    assign color (assign color config setting) other = assign color (assign color config other) setting := by
  simp only [assign_eq, assignTheme_comm hne h, only_comm hne]

/-! ### What the theme hides -/

structure SameButTheme (config config' : Config) : Prop where
  animation : config.animation = config'.animation
  screensaver : config.screensaver = config'.screensaver
  idleSeconds : config.idleSeconds = config'.idleSeconds
  sceneStyle : config.sceneStyle = config'.sceneStyle

theorem SameButTheme.assign (h : SameButTheme config config') (setting : List Char × List Char) :
    SameButTheme (assign color config setting) (assign color config' setting) := by
  obtain ⟨h₁, h₂, h₃, h₄⟩ := h
  constructor <;> simp only [assign_eq, h₁, h₂, h₃, h₄]

theorem SameButTheme.paint (h : SameButTheme config config') (hc : ColorKey setting.1) :
    SameButTheme (Config.assign color config setting) config' := by
  have hself : ∀ name, name ∉ colorKeys → String.ofList setting.1 ≠ name := fun name hn he => hn (he ▸ hc)
  obtain ⟨h₁, h₂, h₃, h₄⟩ := h
  constructor
  · rw [assign_eq, only_self (hself "animation" (by decide)), h₁]
  · rw [assign_eq, only_self (hself "screensaver" (by decide)), h₂]
  · rw [assign_eq, only_self (hself "idle_seconds" (by decide)), h₃]
  · rw [assign_eq, only_self (hself "scene_style" (by decide)), h₄]

/-- Behind a built-in theme, the colors before it do not matter. -/
theorem SameButTheme.theme (h : SameButTheme config config') (ht : setting.1 = "theme".toList)
    (hn : (Theme.named (String.ofList setting.2)).isSome) :
    Config.assign color config setting = Config.assign color config' setting := by
  obtain ⟨theme, hn⟩ := Option.isSome_iff_exists.mp hn
  have hname : String.ofList setting.1 = "theme" := by rw [ht, String.ofList_toList]
  obtain ⟨h₁, h₂, h₃, h₄⟩ := h
  simp only [assign_eq, assignTheme, only, hname, hn, h₁, h₂, h₃, h₄, if_true, Option.getD_some]

/-! ### Lines -/

/-- The line of a key stands before that of the theme. -/
def BeforeTheme (lines : List (List Char)) (key : List Char) : Prop :=
  Precedes ((settings lines).map (·.1)) key "theme".toList

/-- A line that sets a color. -/
def ColorLine (raw : List Char) : Prop := ∃ setting ∈ settings [raw], ColorKey setting.1

instance (raw : List Char) : Decidable (ColorLine raw) := inferInstanceAs (Decidable (∃ setting ∈ settings [raw], _))

section

variable {lines lines' before after : List (List Char)} {raw : List Char}

theorem settings_append (lines lines' : List (List Char)) :
    settings (lines ++ lines') = settings lines ++ settings lines' := List.filterMap_append

theorem settings_cons (raw : List Char) (lines : List (List Char)) :
    settings (raw :: lines) = settings [raw] ++ settings lines := settings_append [raw] lines

theorem Grammar.nodup (g : Grammar color [] lines) : ((settings lines).map (·.1)).Nodup := by
  simpa using g.distinct

theorem Grammar.perm (g : Grammar color [] lines) (hp : lines'.Perm lines) : Grammar color [] lines' := by
  have hs : (settings lines').Perm (settings lines) := hp.filterMap _
  exact {
    short := fun raw hr => g.short raw (hp.subset hr)
    shaped := fun raw hr => g.shaped raw (hp.subset hr)
    distinct := by simpa using (hs.map (·.1)).nodup_iff.mpr g.nodup
    admissible := fun setting h => g.admissible setting (hs.subset h) }

/-- Reordered lines mean the same when no color has changed sides of the theme. -/
theorem meaning_perm (g : Grammar color [] lines) (hp : lines'.Perm lines)
    (hside : ∀ key, ColorKey key → (BeforeTheme lines' key ↔ BeforeTheme lines key)) (config : Config) :
    meaning color lines' config = meaning color lines config := by
  refine (foldl_perm (hp.filterMap _).symm ?_ config).symm
  intro a b hab hba config
  refine assign_comm ?_ ?_ config
  · -- A key is set once.
    intro he
    have hkeys : Precedes ((settings lines).map (·.1)) a.1 b.1 := Precedes.map Prod.fst hab
    rw [he] at hkeys
    exact absurd (hkeys.nodup g.nodup) (by simp)
  · have hkeys : Precedes ((settings lines).map (·.1)) a.1 b.1 := Precedes.map Prod.fst hab
    have hkeys' : Precedes ((settings lines').map (·.1)) b.1 a.1 := Precedes.map Prod.fst hba
    rintro (⟨ht, hc⟩ | ⟨hc, ht⟩)
    · rw [ht] at hkeys hkeys'
      exact not_precedes g.nodup hkeys ((hside b.1 hc).mp hkeys')
    · rw [ht] at hkeys hkeys'
      exact not_precedes (g.perm hp).nodup ((hside a.1 hc).mpr hkeys) hkeys'

/-- A line has at most one setting. -/
theorem settings_line (raw : List Char) : settings [raw] = [] ∨ ∃ setting, settings [raw] = [setting] := by
  by_cases hb : Blank raw
  · exact .inl (settings_blank hb)
  · cases hs : setting? raw with
    | none => exact .inl (by simp [settings, hs])
    | some setting => exact .inr ⟨setting, settings_setting hb hs⟩

theorem settings_filter_colors (lines : List (List Char)) :
    settings (lines.filter fun raw => ¬ColorLine raw) = (settings lines).filter fun setting => ¬ColorKey setting.1 := by
  induction lines with
  | nil => rfl
  | cons raw lines ih =>
    rw [settings_cons, List.filter_append, ← ih]
    by_cases hc : ColorLine raw
    · have hnone : (settings [raw]).filter (fun setting => ¬ColorKey setting.1) = [] := by
        obtain ⟨setting, hs, hkey⟩ := hc
        rcases settings_line raw with hnil | ⟨setting', hone⟩
        · rw [hnil]
          rfl
        · rw [hone, List.mem_singleton] at hs
          subst hs
          rw [hone, List.filter_cons_of_neg (by simpa using hkey), List.filter_nil]
      rw [List.filter_cons_of_neg (by simpa using hc), hnone, List.nil_append]
    · have hall : (settings [raw]).filter (fun setting => ¬ColorKey setting.1) = settings [raw] := by
        refine List.filter_eq_self.mpr fun setting hs => ?_
        simpa using fun hkey => hc ⟨setting, hs, hkey⟩
      rw [List.filter_cons_of_pos (by simpa using hc), settings_cons, hall]

/-- A line that sets the theme. -/
def ThemeLine (raw : List Char) : Prop := ∃ value, settings [raw] = [("theme".toList, value)]

/-- Without the colors before the theme, lines mean the same. -/
theorem meaning_filter_colors (g : Grammar color [] (before ++ raw :: after)) (ht : ThemeLine raw) (config : Config) :
    meaning color (before.filter (fun raw => ¬ColorLine raw) ++ raw :: after) config =
      meaning color (before ++ raw :: after) config := by
  obtain ⟨value, ht⟩ := ht
  have hnamed : (Theme.named (String.ofList value)).isSome := by
    refine g.admissible ("theme".toList, value) ?_
    rw [settings_append, settings_cons, ht]
    simp
  have hsame : SameButTheme ((settings before).foldl (assign color) config)
      (((settings before).filter fun setting => ¬ColorKey setting.1).foldl (assign color) config) := by
    refine foldl_filter (fun s t a h _ => h.assign a) (fun s t a h hdrop => h.paint ?_) ⟨rfl, rfl, rfl, rfl⟩
    simpa using hdrop
  have htheme : ∀ config config', SameButTheme config config' →
      assign color config ("theme".toList, value) = assign color config' ("theme".toList, value) :=
    fun _ _ h => h.theme rfl hnamed
  simp only [meaning, settings_append, settings_filter_colors, settings_cons raw after, ht, List.foldl_append,
    List.foldl_cons, List.foldl_nil, htheme _ _ hsame]

theorem Grammar.sublist (g : Grammar color [] lines) (hs : lines'.Sublist lines) : Grammar color [] lines' := by
  have hsub : (settings lines').Sublist (settings lines) := hs.filterMap _
  exact {
    short := fun raw hr => g.short raw (hs.subset hr)
    shaped := fun raw hr => g.shaped raw (hs.subset hr)
    distinct := by simpa using (hsub.map Prod.fst).nodup g.nodup
    admissible := fun setting h => g.admissible setting (hsub.subset h) }

/-- Blank lines and comments have no settings. -/
theorem settings_filter_blank (lines : List (List Char)) :
    settings (lines.filter fun raw => ¬Blank raw) = settings lines := by
  induction lines with
  | nil => rfl
  | cons raw lines ih =>
    by_cases hb : Blank raw
    · rw [List.filter_cons_of_neg (by simpa using hb), ih, settings_blank hb]
    · rw [List.filter_cons_of_pos (by simpa using hb), settings_cons, ih, ← settings_cons]

theorem Grammar.blank (g : Grammar color [] lines)
    (hs : lines'.filter (fun raw => ¬Blank raw) = lines.filter fun raw => ¬Blank raw)
    (hshort : ∀ raw ∈ lines', Blank raw → size raw ≤ maxLineBytes) : Grammar color [] lines' := by
  have hsettings : settings lines' = settings lines := by
    rw [← settings_filter_blank lines', hs, settings_filter_blank]
  have hvisible : ∀ raw ∈ lines', ¬Blank raw → raw ∈ lines := by
    intro raw hr hb
    have hin : raw ∈ lines'.filter fun raw => ¬Blank raw := List.mem_filter.mpr ⟨hr, by simpa using hb⟩
    rw [hs] at hin
    exact (List.mem_filter.mp hin).1
  refine ⟨fun raw hr => ?_, fun raw hr => ?_, hsettings ▸ g.distinct, hsettings ▸ g.admissible⟩
  · by_cases hb : Blank raw
    · exact hshort raw hr hb
    · exact g.short raw (hvisible raw hr hb)
  · by_cases hb : Blank raw
    · exact .inl hb
    · exact g.shaped raw (hvisible raw hr hb)

end

/-! ### Texts -/

/-- An accepted text keeps its configuration when its lines are reordered without taking a color from one side of the
    theme to the other, when the colors before the theme are deleted, and when blank lines and comments are inserted
    or deleted, all within the limits. -/
theorem order_irrelevant {source : String} {config : Config} (h : parse source = some (.ok config)) :
    (∀ source' : String, size source'.toList ≤ maxConfigBytes →
      (lines source'.toList).Perm (lines source.toList) →
      (∀ key, ColorKey key → (BeforeTheme (lines source'.toList) key ↔ BeforeTheme (lines source.toList) key)) →
      parse source' = some (.ok config)) ∧
    (∀ before theme after, lines source.toList = before ++ theme :: after → ThemeLine theme →
      ∀ source' : String, size source'.toList ≤ maxConfigBytes →
        lines source'.toList = before.filter (fun raw => ¬ColorLine raw) ++ theme :: after →
        parse source' = some (.ok config)) ∧
    (∀ source' : String, Bounded source' →
      (lines source'.toList).filter (fun raw => ¬Blank raw) = (lines source.toList).filter (fun raw => ¬Blank raw) →
      (∀ raw ∈ lines source'.toList, Blank raw → size raw ≤ maxLineBytes) →
      parse source' = some (.ok config)) := by
  obtain ⟨⟨hb, g⟩, rfl⟩ := parse_ok.mp h
  refine ⟨?_, ?_, ?_⟩
  · intro source' hsize hp hside
    exact parse_ok.mpr ⟨⟨⟨hsize, hp.length_eq ▸ hb.lines⟩, g.perm hp⟩, (meaning_perm g hp hside _).symm⟩
  · intro before theme after hl ht source' hsize hl'
    have hsub : (lines source'.toList).Sublist (lines source.toList) := by
      rw [hl', hl]
      exact List.filter_sublist.append (List.Sublist.refl _)
    refine parse_ok.mpr ⟨⟨⟨hsize, Nat.le_trans hsub.length_le hb.lines⟩, g.sublist hsub⟩, ?_⟩
    rw [hl', hl, meaning_filter_colors (hl ▸ g) ht]
  · intro source' hb' hs hshort
    refine parse_ok.mpr ⟨⟨hb', g.blank hs hshort⟩, ?_⟩
    rw [meaning, meaning, ← settings_filter_blank (lines source'.toList), hs, settings_filter_blank]

theorem forall_colorKey {P : List Char → Prop} (h : ∀ name ∈ colorKeys, P name.toList) (key : List Char)
    (hk : ColorKey key) : P key := by
  simpa using h _ hk

/-- A color in front of a theme is hidden by it, and a comment between them does not count. -/
theorem order_irrelevant_theme :
    parse "status = red
theme = nord
animation = subtle" =
      some (.ok { Config.default with theme := .nord, animation := .subtle }) ∧
    parse "animation = subtle
status = red
theme = nord" =
      some (.ok { Config.default with theme := .nord, animation := .subtle }) ∧
    parse "theme = nord
animation = subtle" =
      some (.ok { Config.default with theme := .nord, animation := .subtle }) ∧
    parse "status = red
# nord = theme
theme = nord

animation = subtle" =
      some (.ok { Config.default with theme := .nord, animation := .subtle }) := by
  have h : parse "status = red
theme = nord
animation = subtle" =
      some (.ok { Config.default with theme := .nord, animation := .subtle }) := by decide +kernel
  obtain ⟨hreorder, hdelete, hblank⟩ := order_irrelevant h
  refine ⟨h, hreorder _ (by decide +kernel) (by decide +kernel) (forall_colorKey ?_), ?_, ?_⟩
  · unfold BeforeTheme
    decide +kernel
  · exact hdelete ["status = red".toList] "theme = nord".toList ["animation = subtle".toList] (by decide +kernel)
      ⟨"nord".toList, by decide +kernel⟩ _ (by decide +kernel) (by decide +kernel)
  · exact hblank _ ⟨by decide +kernel, by decide +kernel⟩ (by decide +kernel) (by decide +kernel)

end NovaMux.Config

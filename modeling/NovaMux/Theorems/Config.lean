import NovaMux.Theorems.ConfigGrammar

/-! The parser of configurations: each function against the grammar, which texts it accepts, and the texts on
    which it panics, where a color is cut inside of a character. -/

namespace NovaMux.Config
open Str

/-! ### Steps of the parser -/

theorem choose_ok {α : Type} {value : Option α} {line : Nat} {message : String} {update : α → Config}
    {config : Config} :
    choose value line message update = some (.ok config) ↔ ∃ a, value = some a ∧ update a = config := by
  cases value with
  | none => simp [choose, invalid]
  | some a => simp [choose]

theorem choose_ne_none {α : Type} (value : Option α) (line : Nat) (message : String) (update : α → Config) :
    choose value line message update ≠ none := by
  cases value with
  | none => exact Option.some_ne_none _
  | some a => exact Option.some_ne_none _

theorem store_ok {α β : Type} {parsed : Parsed α} {update : α → β} {b : β} :
    store parsed update = some (.ok b) ↔ ∃ a, parsed = some (.ok a) ∧ update a = b := by
  rcases parsed with _ | (error | a)
  · simp [store]
  · simp [store, Except.map]
  · simp [store, Except.map]

theorem store_none {α β : Type} {parsed : Parsed α} {update : α → β} : store parsed update = none ↔ parsed = none :=
  Option.map_eq_none_iff

theorem parseSceneStyle_ok {value : List Char} {line : Nat} {style : SceneStyle} :
    parseSceneStyle value line = some (.ok style) ↔ SceneStyle.named (String.ofList value) = some style := by
  rw [parseSceneStyle]
  split
  · next h => simp [h]
  · next h => simp [h, invalid]

theorem parseSceneStyle_ne_none (value : List Char) (line : Nat) : parseSceneStyle value line ≠ none := by
  rw [parseSceneStyle]
  split
  · exact Option.some_ne_none _
  · exact Option.some_ne_none _

/-! ### Colors -/

/-- The names of colors do not look like the other colors. -/
theorem head_of_named {value : List Char} {color : Color} (h : Color.named (String.ofList value) = some color) :
    value.head? ≠ some '#' ∧ '+' ∉ value := by
  have hvalue : value = (String.ofList value).toList := (String.toList_ofList).symm
  unfold Color.named at h
  split at h
  case h_11 => cases h
  all_goals
    next hname =>
    rw [hname] at hvalue
    rw [hvalue]
    decide

/-- A value is cut inside of a character when it looks like a color and one of its pairs begins or ends there. -/
def Straddles (value : List Char) : Prop :=
  value.head? = some '#' ∧ size value = 7 ∧ ¬(isBoundary value 3 ∧ isBoundary value 5)

theorem components_none {value : List Char} (hhash : value.head? = some '#') (hsize : size value = 7) :
    components value = none ↔ ¬(isBoundary value 3 ∧ isBoundary value 5) := by
  have h1 : isBoundary value 1 := by
    obtain ⟨rest, rfl⟩ := List.head?_eq_some_iff.mp hhash
    exact isBoundary_iff.mpr ⟨['#'], rest, rfl, rfl⟩
  have h7 : isBoundary value 7 := hsize ▸ isBoundary_size value
  have hcomponent : ∀ {start stop : Nat}, start ≤ stop →
      ((component value start stop).isSome ↔ isBoundary value start ∧ isBoundary value stop) := by
    intro start stop hle
    rw [component, Option.isSome_map, slice?_isSome hle]
  have hred := hcomponent (show 1 ≤ 3 by decide)
  have hgreen := hcomponent (show 3 ≤ 5 by decide)
  have hblue := hcomponent (show 5 ≤ 7 by decide)
  have hall : (components value).isSome ↔
      (component value 1 3).isSome ∧ (component value 3 5).isSome ∧ (component value 5 7).isSome := by
    rw [components]
    cases component value 1 3 with
    | none => simp
    | some red =>
      cases component value 3 5 with
      | none => simp
      | some green => cases component value 5 7 <;> simp
  rw [← Option.not_isSome_iff_eq_none, hall, hred, hgreen, hblue]
  refine not_congr ⟨fun h => ⟨h.1.2, h.2.2.1⟩, fun h => ?_⟩
  obtain ⟨h3, h5⟩ := h
  exact ⟨⟨h1, h3⟩, ⟨h3, h5⟩, h5, h7⟩

theorem component_ok {value : List Char} {start stop n : Nat} :
    component value start stop = some (some n) ↔
      ∃ before middle after, value = before ++ middle ++ after ∧ size before = start ∧
        size (before ++ middle) = stop ∧ integer? 16 middle = some n ∧ n ≤ 255 := by
  rw [component, Option.map_eq_some_iff]
  refine ⟨fun h => ?_, fun h => ?_⟩
  · obtain ⟨middle, hslice, h⟩ := h
    obtain ⟨before, after, he, hstart, hstop⟩ := slice?_eq_some.mp hslice
    obtain ⟨hn, hle⟩ := (fromStrRadix_eq_some (by decide)).mp h
    exact ⟨before, middle, after, he, hstart, hstop, hn, hle⟩
  · obtain ⟨before, middle, after, he, hstart, hstop, hn, hle⟩ := h
    exact ⟨middle, slice?_eq_some.mpr ⟨before, after, he, hstart, hstop⟩,
      (fromStrRadix_eq_some (by decide)).mpr ⟨hn, hle⟩⟩

/-- A slice of two bytes that spells a number is a pair of characters. -/
theorem pair_of_integer? {text : List Char} {n : Nat} (h : integer? 16 text = some n) (hsize : size text = 2) :
    ∃ a b, text = [a, b] := by
  rw [size_of_integer? h] at hsize
  exact List.length_eq_two.mp hsize

theorem integer?_pair {a b : Char} {n : Nat} (h : integer? 16 [a, b] = some n) :
    size [a, b] = 2 ∧ n ≤ 255 := by
  refine ⟨size_of_integer? h, ?_⟩
  rw [integer?] at h
  obtain ⟨-, h⟩ := Option.ite_none_left_eq_some.mp h
  have hlt := lt_of_appendDigits h
  split at hlt
  · simp at hlt
    omega
  · simp at hlt
    omega

theorem components_ok {value : List Char} (hhash : value.head? = some '#') (hsize : size value = 7)
    {red green blue : Nat} :
    components value = some (some red, some green, some blue) ↔
      ∃ a b c d e f, value = ['#', a, b, c, d, e, f] ∧ integer? 16 [a, b] = some red ∧
        integer? 16 [c, d] = some green ∧ integer? 16 [e, f] = some blue := by
  -- The three slices are all there, or there is nothing at all.
  have hall : components value = some (some red, some green, some blue) ↔
      component value 1 3 = some (some red) ∧ component value 3 5 = some (some green) ∧
        component value 5 7 = some (some blue) := by
    rw [components]
    cases component value 1 3 with
    | none => simp
    | some red =>
      cases component value 3 5 with
      | none => simp
      | some green => cases component value 5 7 <;> simp
  rw [hall, component_ok, component_ok, component_ok]
  refine ⟨fun h => ?_, fun h => ?_⟩
  · obtain ⟨⟨b₁, m₁, a₁, h₁, hs₁, he₁, hn₁, -⟩, ⟨b₂, m₂, a₂, h₂, hs₂, he₂, hn₂, -⟩,
      ⟨b₃, m₃, a₃, h₃, hs₃, he₃, hn₃, -⟩⟩ := h
    -- Each slice begins where the one before it ends.
    obtain ⟨rest, hrest⟩ := List.head?_eq_some_iff.mp hhash
    obtain ⟨rfl, -⟩ := append_inj_of_size (a := ['#']) (b := rest) (c := b₁) (d := m₁ ++ a₁)
      (by rw [← List.append_assoc, ← h₁, hrest]; rfl) hs₁.symm
    obtain ⟨rfl, -⟩ := append_inj_of_size (a := ['#'] ++ m₁) (b := a₁) (c := b₂) (d := m₂ ++ a₂)
      (by rw [← List.append_assoc, ← h₁, ← h₂]) (he₁.trans hs₂.symm)
    obtain ⟨rfl, -⟩ := append_inj_of_size (a := ['#'] ++ m₁ ++ m₂) (b := a₂) (c := b₃) (d := m₃ ++ a₃)
      (by rw [← List.append_assoc, ← h₂, ← h₃]) (he₂.trans hs₃.symm)
    obtain ⟨-, hnil⟩ := append_inj_of_size (a := value) (b := []) (c := ['#'] ++ m₁ ++ m₂ ++ m₃) (d := a₃)
      (by rw [← h₃, List.append_nil]) (hsize.trans he₃.symm)
    simp only [size_append] at hs₁ he₁ hs₂ he₂ hs₃ he₃
    obtain ⟨a, b, rfl⟩ := pair_of_integer? hn₁ (by omega)
    obtain ⟨c, d, rfl⟩ := pair_of_integer? hn₂ (by omega)
    obtain ⟨e, f, rfl⟩ := pair_of_integer? hn₃ (by omega)
    exact ⟨a, b, c, d, e, f, by rw [h₃, ← hnil]; rfl, hn₁, hn₂, hn₃⟩
  · obtain ⟨a, b, c, d, e, f, rfl, hn₁, hn₂, hn₃⟩ := h
    obtain ⟨hs₁, hle₁⟩ := integer?_pair hn₁
    obtain ⟨hs₂, hle₂⟩ := integer?_pair hn₂
    obtain ⟨hs₃, hle₃⟩ := integer?_pair hn₃
    have hone : size ['#'] = 1 := rfl
    refine ⟨⟨['#'], [a, b], [c, d, e, f], rfl, hone, ?_, hn₁, hle₁⟩,
      ⟨['#'] ++ [a, b], [c, d], [e, f], rfl, ?_, ?_, hn₂, hle₂⟩,
      ⟨['#'] ++ [a, b] ++ [c, d], [e, f], [], rfl, ?_, ?_, hn₃, hle₃⟩⟩
    all_goals
      simp only [size_append, hone, hs₁, hs₂, hs₃]

/-- Only values that look like a color are read as one. -/
theorem colorWith_eq_some {pair : List Char → Option Nat} {value : List Char}
    (hnamed : Color.named (String.ofList value) = none) {color : Color} :
    colorWith pair value = some color ↔
      ∃ a b c d e f red green blue, value = ['#', a, b, c, d, e, f] ∧ pair [a, b] = some red ∧
        pair [c, d] = some green ∧ pair [e, f] = some blue ∧
        color = .rgb (UInt8.ofNat red) (UInt8.ofNat green) (UInt8.ofNat blue) := by
  unfold colorWith
  rw [hnamed]
  refine ⟨fun h => ?_, fun h => ?_⟩
  · split at h
    · next hsome => cases hsome
    · next a b c d e f _ =>
      simp only [Option.bind_eq_bind, Option.bind_eq_some_iff, Option.some.injEq] at h
      obtain ⟨red, hred, green, hgreen, blue, hblue, rfl⟩ := h
      exact ⟨a, b, c, d, e, f, red, green, blue, rfl, hred, hgreen, hblue, rfl⟩
    · cases h
  · obtain ⟨a, b, c, d, e, f, red, green, blue, rfl, hred, hgreen, hblue, rfl⟩ := h
    simp [hred, hgreen, hblue]

theorem parseColor_none {value : List Char} {line : Nat} : parseColor value line = none ↔ Straddles value := by
  rw [parseColor, Straddles]
  split
  · next h =>
    simp [(head_of_named h).1]
  · next h =>
    by_cases hlooks : size value = 7 ∧ value.head? = some '#'
    · have hnone := components_none hlooks.2 hlooks.1
      simp only [if_pos hlooks]
      split
      · next hc => simp only [hnone.mp hc, hlooks, not_false_eq_true, and_self]
      · next hc => simp [← hnone, hc]
      · next hc => simp [← hnone, hc, invalid]
    · simp only [if_neg hlooks]
      simp only [invalid, reduceCtorEq, false_iff]
      exact fun h => hlooks ⟨h.2.1, h.1⟩

theorem parseColor_ok {value : List Char} {line : Nat} {color : Color} :
    parseColor value line = some (.ok color) ↔ acceptedColor value = some color := by
  rw [parseColor, acceptedColor]
  split
  · next h => simp [colorWith, h]
  · next h =>
    rw [colorWith_eq_some h]
    -- Only seven bytes behind a hash are sliced; anything else is refused.
    by_cases hlooks : size value = 7 ∧ value.head? = some '#'
    · have hiff : (∃ a b c d e f red green blue, value = ['#', a, b, c, d, e, f] ∧ integer? 16 [a, b] = some red ∧
          integer? 16 [c, d] = some green ∧ integer? 16 [e, f] = some blue ∧
          color = .rgb (UInt8.ofNat red) (UInt8.ofNat green) (UInt8.ofNat blue)) ↔
          ∃ red green blue, components value = some (some red, some green, some blue) ∧
            color = .rgb (UInt8.ofNat red) (UInt8.ofNat green) (UInt8.ofNat blue) := by
        refine ⟨fun h => ?_, fun h => ?_⟩
        · obtain ⟨a, b, c, d, e, f, red, green, blue, he, hred, hgreen, hblue, hcolor⟩ := h
          exact ⟨red, green, blue,
            (components_ok hlooks.2 hlooks.1).mpr ⟨a, b, c, d, e, f, he, hred, hgreen, hblue⟩, hcolor⟩
        · obtain ⟨red, green, blue, hc, hcolor⟩ := h
          obtain ⟨a, b, c, d, e, f, he, hred, hgreen, hblue⟩ := (components_ok hlooks.2 hlooks.1).mp hc
          exact ⟨a, b, c, d, e, f, red, green, blue, he, hred, hgreen, hblue, hcolor⟩
      rw [hiff, if_pos hlooks]
      split
      · next hc => simp [hc]
      · next red green blue hc =>
        rw [hc]
        refine ⟨fun h => ?_, fun h => ?_⟩
        · cases h
          exact ⟨red, green, blue, rfl, rfl⟩
        · obtain ⟨_, _, _, hsame, rfl⟩ := h
          cases hsame
          rfl
      · next other hc =>
        simp only [invalid, Option.some.injEq, reduceCtorEq, false_iff]
        intro h
        obtain ⟨red, green, blue, hsome, -⟩ := h
        exact other red green blue (Option.some.inj (hc.symm.trans hsome))
    · simp only [if_neg hlooks, invalid, Option.some.injEq, reduceCtorEq, false_iff]
      intro h
      obtain ⟨a, b, c, d, e, f, red, green, blue, rfl, hred, hgreen, hblue, -⟩ := h
      refine hlooks ⟨?_, rfl⟩
      have hsize : size (['#'] ++ [a, b] ++ [c, d] ++ [e, f]) = 7 := by
        simp only [size_append, (integer?_pair hred).1, (integer?_pair hgreen).1, (integer?_pair hblue).1]
        rfl
      exact hsize

/-! ### Settings -/

theorem some_iff_getD {α β : Type} {o : Option α} {f : α → β} {b : β} (d : α) :
    (∃ a, o = some a ∧ f a = b) ↔ o.isSome ∧ b = f (o.getD d) := by
  cases o with
  | none => simp
  | some a => simp [eq_comm]

theorem setting_none {config : Config} {key value : List Char} {line : Nat} :
    config.setting key value line = none ↔ ColorKey key ∧ Straddles value := by
  have hcolor : ∀ update, config.setColor value line update = none ↔ Straddles value := fun _ =>
    store_none.trans parseColor_none
  unfold setting ColorKey
  split
  case h_4 h =>
    split
    · simp [h, invalid, colorKeys]
    · split
      · simp [h, colorKeys]
      · simp [h, invalid, colorKeys]
  case h_12 h₁ h₂ h₃ h₄ h₅ h₆ h₇ h₈ h₉ h₁₀ h₁₁ =>
    simp only [invalid, colorKeys, reduceCtorEq, List.mem_cons, List.not_mem_nil, or_false, false_iff]
    rintro ⟨h | h | h | h | h | h, -⟩
    · exact h₆ h
    · exact h₇ h
    · exact h₈ h
    · exact h₉ h
    · exact h₁₀ h
    · exact h₁₁ h
  all_goals
    next h => simp [h, choose_ne_none, store_none, parseSceneStyle_ne_none, hcolor, colorKeys]

theorem setting_ok {config config' : Config} {key value : List Char} {line : Nat} :
    config.setting key value line = some (.ok config') ↔
      Admissible acceptedColor key value ∧ config' = assign acceptedColor config (key, value) := by
  -- All six color keys go through the same parser.
  have hcolor : ∀ update old, config.setColor value line update = some (.ok config') ↔
      (acceptedColor value).isSome ∧
        config' = { config with theme := update config.theme ((acceptedColor value).getD old) } := by
    intro update old
    simp only [setColor, store_ok, parseColor_ok]
    exact some_iff_getD old
  unfold setting Admissible assign
  split
  case h_1 h | h_2 h | h_3 h => simp only [h, choose_ok]; exact some_iff_getD _
  case h_4 h =>
    simp only [h]
    cases hread : fromStrRadix 10 65535 value with
    | none =>
      simp only [invalid, Option.some.injEq, reduceCtorEq, false_iff]
      rintro ⟨⟨n, hn, -, hle⟩, -⟩
      rw [(fromStrRadix_eq_some (by decide)).mpr ⟨hn, Nat.le_trans hle (by decide)⟩] at hread
      cases hread
    | some n =>
      obtain ⟨hn, -⟩ := (fromStrRadix_eq_some (by decide)).mp hread
      by_cases hrange : 10 ≤ n ∧ n ≤ 3600
      · simp [hn, hrange, eq_comm]
      · simp [hn, hrange, invalid]
  case h_5 h =>
    simp only [h, store_ok, parseSceneStyle_ok]
    exact some_iff_getD _
  case h_12 => simp [invalid]
  all_goals
    next h =>
    simp only [h]
    exact hcolor _ _

/-- A setting that the parser does not take has no admissible value, and one that it gets through is not cut. -/
theorem not_admissible {config : Config} {key value : List Char} {line : Nat} {r : Parsed Config}
    (h : config.setting key value line = r) (hr : ∀ config', r ≠ some (.ok config')) :
    ¬Admissible acceptedColor key value := by
  intro hadm
  exact hr _ (h.symm.trans (setting_ok.mpr ⟨hadm, rfl⟩))

theorem not_cut {config : Config} {key value : List Char} {line : Nat} {r : Except ConfigError Config}
    (h : config.setting key value line = some r) : ¬(ColorKey key ∧ Straddles value) := by
  intro hcut
  rw [setting_none.mpr hcut] at h
  cases h

/-! ### Lines -/

/-- What the parser makes of a line within the limit: a blank one changes nothing, and of the others only
    those with a setting whose key is new get as far as its value. -/
theorem parseLine_cases (line : Nat) (raw : List Char) (config : Config) (seen : List (List Char)) :
    (∃ message, parseLine line raw config seen = invalid line message ∧
      (size raw > maxLineBytes ∨ ¬Blank raw ∧ ∀ key value, setting? raw = some (key, value) → key ∈ seen)) ∨
    (parseLine line raw config seen = some (.ok (config, seen)) ∧ size raw ≤ maxLineBytes ∧ Blank raw) ∨
    (∃ key value, parseLine line raw config seen =
        store (config.setting key value line) (fun config => (config, seen ++ [key])) ∧
      size raw ≤ maxLineBytes ∧ ¬Blank raw ∧ setting? raw = some (key, value) ∧ key ∉ seen) := by
  rw [parseLine]
  -- The checks in their order: the length, blank lines, the shape, and keys that have been seen.
  by_cases hsize : size raw > maxLineBytes
  · rw [if_pos hsize]
    exact .inl ⟨_, rfl, .inl hsize⟩
  rw [if_neg hsize]
  by_cases hblank : Blank raw
  · exact .inr (.inl ⟨if_pos hblank, Nat.le_of_not_gt hsize, hblank⟩)
  rw [Blank] at hblank
  simp only [if_neg hblank]
  cases hsplit : splitOnce '=' (trim raw) with
  | none =>
    refine .inl ⟨_, rfl, .inr ⟨hblank, fun key value h => ?_⟩⟩
    rw [setting?, hsplit] at h
    cases h
  | some parts =>
    obtain ⟨key, value⟩ := parts
    by_cases hempty : trim key = [] ∨ trim value = []
    · simp only [if_pos hempty]
      refine .inl ⟨_, rfl, .inr ⟨hblank, fun key' value' h => ?_⟩⟩
      rw [setting?, hsplit, Option.bind_some, if_pos hempty] at h
      cases h
    · have hset : setting? raw = some (trim key, trim value) := by
        rw [setting?, hsplit, Option.bind_some, if_neg hempty]
      simp only [if_neg hempty]
      by_cases hseen : trim key ∈ seen
      · rw [if_pos hseen]
        refine .inl ⟨_, rfl, .inr ⟨hblank, fun key' value' h => ?_⟩⟩
        rw [hset] at h
        cases h
        exact hseen
      · rw [if_neg hseen]
        exact .inr (.inr ⟨_, _, rfl, Nat.le_of_not_gt hsize, hblank, hset, hseen⟩)

theorem settings_blank {raw : List Char} {rest : List (List Char)} (h : Blank raw) :
    settings (raw :: rest) = settings rest := by
  simp [settings, h]

theorem settings_setting {raw : List Char} {rest : List (List Char)} {setting : List Char × List Char}
    (h : ¬Blank raw) (hset : setting? raw = some setting) : settings (raw :: rest) = setting :: settings rest := by
  simp [settings, h, hset]

variable {color : List Char → Option Color} {seen : List (List Char)} {raw : List Char} {rest : List (List Char)}

theorem Grammar.nil (h : seen.Nodup) : Grammar color seen [] where
  short := fun _ h => (by cases h)
  shaped := fun _ h => (by cases h)
  distinct := by rwa [settings, List.filterMap_nil, List.map_nil, List.append_nil]
  admissible := fun _ h => (by cases h)

theorem grammar_blank (h : Blank raw) :
    Grammar color seen (raw :: rest) ↔ size raw ≤ maxLineBytes ∧ Grammar color seen rest := by
  refine ⟨fun g => ⟨g.short raw List.mem_cons_self, ?_⟩, fun hg => ?_⟩
  · exact {
      short := fun raw' hr => g.short raw' (List.mem_cons_of_mem _ hr)
      shaped := fun raw' hr => g.shaped raw' (List.mem_cons_of_mem _ hr)
      distinct := settings_blank h ▸ g.distinct
      admissible := settings_blank h ▸ g.admissible }
  · obtain ⟨hsize, g⟩ := hg
    exact {
      short := List.forall_mem_cons.mpr ⟨hsize, g.short⟩
      shaped := List.forall_mem_cons.mpr ⟨.inl h, g.shaped⟩
      distinct := (settings_blank h).symm ▸ g.distinct
      admissible := (settings_blank h).symm ▸ g.admissible }

theorem grammar_setting {key value : List Char} (h : ¬Blank raw) (hset : setting? raw = some (key, value)) :
    Grammar color seen (raw :: rest) ↔
      size raw ≤ maxLineBytes ∧ Admissible color key value ∧ Grammar color (seen ++ [key]) rest := by
  have hsettings : settings (raw :: rest) = (key, value) :: settings rest := settings_setting h hset
  refine ⟨fun g => ⟨g.short raw List.mem_cons_self, ?_, ?_⟩, fun h => ?_⟩
  · exact g.admissible _ (hsettings.symm ▸ List.mem_cons_self)
  · have hdistinct := g.distinct
    have hadmissible := g.admissible
    rw [hsettings] at hdistinct hadmissible
    exact {
      short := fun raw' hr => g.short raw' (List.mem_cons_of_mem _ hr)
      shaped := fun raw' hr => g.shaped raw' (List.mem_cons_of_mem _ hr)
      distinct := by rwa [List.append_assoc]
      admissible := fun setting hs => hadmissible setting (List.mem_cons_of_mem _ hs) }
  · obtain ⟨hsize, hadmissible, g⟩ := h
    have hdistinct := g.distinct
    rw [List.append_assoc] at hdistinct
    exact {
      short := List.forall_mem_cons.mpr ⟨hsize, g.short⟩
      shaped := List.forall_mem_cons.mpr ⟨.inr (by rw [hset]; rfl), g.shaped⟩
      distinct := by rwa [hsettings]
      admissible := by
        rw [hsettings]
        exact List.forall_mem_cons.mpr ⟨hadmissible, g.admissible⟩ }

/-- Lines that make a configuration set each key at most once. -/
theorem Grammar.fresh {lines : List (List Char)} (g : Grammar color seen lines) {setting : List Char × List Char}
    (h : setting ∈ settings lines) : setting.1 ∉ seen := fun hseen =>
  (List.nodup_append.mp g.distinct).2.2 _ hseen _ (List.mem_map_of_mem h) rfl

theorem nodup_snoc {key : List Char} (hseen : seen.Nodup) (hnew : key ∉ seen) : (seen ++ [key]).Nodup := by
  refine List.nodup_append.mpr ⟨hseen, by simp, fun a ha b hb => ?_⟩
  rw [List.mem_singleton.mp hb]
  exact fun he => hnew (he ▸ ha)

/-- The parser accepts just the lines of the grammar, with colors as they are read. -/
theorem parseLines_ok {line : Nat} {lines : List (List Char)} {config config' : Config} (hseen : seen.Nodup) :
    parseLines line lines config seen = some (.ok config') ↔
      Grammar acceptedColor seen lines ∧ config' = meaning acceptedColor lines config := by
  induction lines generalizing line config seen with
  | nil => simp [parseLines, meaning, settings, Grammar.nil hseen, eq_comm]
  | cons raw rest ih =>
    rw [parseLines]
    rcases parseLine_cases line raw config seen with ⟨message, h, hbad⟩ | ⟨h, hsize, hblank⟩ |
      ⟨key, value, h, hsize, hblank, hset, hnew⟩
    · simp only [h, invalid, Option.some.injEq, reduceCtorEq, false_iff]
      rintro ⟨g, -⟩
      rcases hbad with hlong | ⟨hblank, hold⟩
      · exact Nat.not_lt.mpr (g.short raw List.mem_cons_self) hlong
      · rcases g.shaped raw List.mem_cons_self with hb | hs
        · exact hblank hb
        · obtain ⟨setting, hset⟩ := Option.isSome_iff_exists.mp hs
          refine g.fresh ?_ (hold setting.1 setting.2 hset)
          rw [settings_setting hblank hset]
          exact List.mem_cons_self
    · simp only [h]
      rw [ih hseen, grammar_blank hblank, meaning, meaning, settings_blank hblank]
      simp [hsize]
    -- A setting is stored first, and its key is seen from then on.
    · have hmeaning : meaning acceptedColor (raw :: rest) config =
          meaning acceptedColor rest (assign acceptedColor config (key, value)) := by
        rw [meaning, meaning, settings_setting hblank hset, List.foldl_cons]
      rw [h, grammar_setting hblank hset, hmeaning]
      rcases hstep : config.setting key value line with _ | (error | config₁)
      · have hnot := not_admissible hstep (by simp)
        simp [store, hnot]
      · have hnot := not_admissible hstep (by simp)
        simp [store, Except.map, hnot]
      · obtain ⟨hadm, rfl⟩ := setting_ok.mp hstep
        simp only [store, Except.map, Option.map_some]
        rw [ih (nodup_snoc hseen hnew)]
        simp [hsize, hadm]

/-! ### Panics -/

/-- A line behind acceptable ones that sets one more color, to a value that is cut inside of a character. -/
structure Fault (seen before : List (List Char)) (raw : List Char) : Prop where
  grammar : Grammar acceptedColor seen before
  short : size raw ≤ maxLineBytes
  visible : ¬Blank raw
  cut : ∃ key value, setting? raw = some (key, value) ∧ key ∉ seen ++ (settings before).map (·.1) ∧
    ColorKey key ∧ Straddles value

def Faulty (seen lines : List (List Char)) : Prop :=
  ∃ before raw after, lines = before ++ raw :: after ∧ Fault seen before raw

theorem faulty_cons : Faulty seen (raw :: rest) ↔
    Fault seen [] raw ∨ ∃ before raw' after, rest = before ++ raw' :: after ∧ Fault seen (raw :: before) raw' := by
  refine ⟨fun h => ?_, fun h => ?_⟩
  · obtain ⟨before, raw', after, he, hfault⟩ := h
    cases before with
    | nil =>
      obtain ⟨rfl, rfl⟩ := List.cons.inj he
      exact .inl hfault
    | cons first before =>
      obtain ⟨rfl, rfl⟩ := List.cons.inj he
      exact .inr ⟨before, raw', after, rfl, hfault⟩
  · rcases h with hfault | ⟨before, raw', after, rfl, hfault⟩
    · exact ⟨[], raw, rest, rfl, hfault⟩
    · exact ⟨raw :: before, raw', after, rfl, hfault⟩

theorem Faulty.head (h : Faulty seen (raw :: rest)) : size raw ≤ maxLineBytes ∧
    (Blank raw ∨ ∃ key value, setting? raw = some (key, value) ∧ key ∉ seen) := by
  rcases faulty_cons.mp h with hfault | ⟨before, raw', after, rfl, hfault⟩
  · obtain ⟨key, value, hset, hnew, -⟩ := hfault.cut
    exact ⟨hfault.short, .inr ⟨key, value, hset, fun hk => hnew (List.mem_append_left _ hk)⟩⟩
  · have g := hfault.grammar
    refine ⟨g.short raw List.mem_cons_self, ?_⟩
    by_cases hblank : Blank raw
    · exact .inl hblank
    · obtain ⟨⟨key, value⟩, hset⟩ := Option.isSome_iff_exists.mp
        ((g.shaped raw List.mem_cons_self).resolve_left hblank)
      have hmem : (key, value) ∈ settings (raw :: before) := by
        rw [settings_setting hblank hset]
        exact List.mem_cons_self
      exact .inr ⟨key, value, hset, g.fresh hmem⟩

theorem faulty_blank (hsize : size raw ≤ maxLineBytes) (h : Blank raw) :
    Faulty seen (raw :: rest) ↔ Faulty seen rest := by
  have hfault : ∀ before raw', Fault seen (raw :: before) raw' ↔ Fault seen before raw' := by
    intro before raw'
    refine ⟨fun f => ⟨((grammar_blank h).mp f.grammar).2, f.short, f.visible, settings_blank h ▸ f.cut⟩,
      fun f => ⟨(grammar_blank h).mpr ⟨hsize, f.grammar⟩, f.short, f.visible, (settings_blank h).symm ▸ f.cut⟩⟩
  rw [faulty_cons]
  simp only [hfault]
  exact or_iff_right fun f => f.visible h

theorem faulty_setting {key value : List Char} (hseen : seen.Nodup) (hsize : size raw ≤ maxLineBytes)
    (h : ¬Blank raw) (hset : setting? raw = some (key, value)) (hnew : key ∉ seen) :
    Faulty seen (raw :: rest) ↔
      (ColorKey key ∧ Straddles value) ∨ Admissible acceptedColor key value ∧ Faulty (seen ++ [key]) rest := by
  have hhead : Fault seen [] raw ↔ ColorKey key ∧ Straddles value := by
    refine ⟨fun f => ?_, fun hcut => ?_⟩
    · obtain ⟨key', value', hset', -, hcut⟩ := f.cut
      rw [hset] at hset'
      cases hset'
      exact hcut
    · exact ⟨.nil hseen, hsize, h, key, value, hset, by simpa [settings] using hnew, hcut⟩
  have htail : ∀ before raw', Fault seen (raw :: before) raw' ↔
      Admissible acceptedColor key value ∧ Fault (seen ++ [key]) before raw' := by
    intro before raw'
    have hkeys : seen ++ (settings (raw :: before)).map (·.1) = (seen ++ [key]) ++ (settings before).map (·.1) := by
      rw [settings_setting h hset, List.map_cons, List.append_assoc]
      rfl
    refine ⟨fun f => ?_, fun hf => ?_⟩
    · obtain ⟨-, hadm, g⟩ := (grammar_setting h hset).mp f.grammar
      exact ⟨hadm, g, f.short, f.visible, hkeys ▸ f.cut⟩
    · obtain ⟨hadm, f⟩ := hf
      exact ⟨(grammar_setting h hset).mpr ⟨hsize, hadm, f.grammar⟩, f.short, f.visible, hkeys.symm ▸ f.cut⟩
  rw [faulty_cons, hhead]
  refine or_congr_right ⟨fun hf => ?_, fun hf => ?_⟩
  · obtain ⟨before, raw', after, rfl, f⟩ := hf
    obtain ⟨hadm, f⟩ := (htail before raw').mp f
    exact ⟨hadm, before, raw', after, rfl, f⟩
  · obtain ⟨hadm, before, raw', after, rfl, f⟩ := hf
    exact ⟨before, raw', after, rfl, (htail before raw').mpr ⟨hadm, f⟩⟩

theorem parseLines_none {line : Nat} {lines : List (List Char)} {config : Config} (hseen : seen.Nodup) :
    parseLines line lines config seen = none ↔ Faulty seen lines := by
  induction lines generalizing line config seen with
  | nil =>
    simp only [parseLines, reduceCtorEq, false_iff]
    rintro ⟨before, raw, after, he, -⟩
    exact absurd he.symm (List.append_ne_nil_of_right_ne_nil _ (List.cons_ne_nil _ _))
  | cons raw rest ih =>
    rw [parseLines]
    rcases parseLine_cases line raw config seen with ⟨message, h, hbad⟩ | ⟨h, hsize, hblank⟩ |
      ⟨key, value, h, hsize, hblank, hset, hnew⟩
    · simp only [h, invalid, reduceCtorEq, false_iff]
      intro hf
      obtain ⟨hsize, hhead⟩ := hf.head
      rcases hbad with hlong | ⟨hblank, hold⟩
      · exact Nat.not_lt.mpr hsize hlong
      · obtain ⟨key, value, hset, hnew⟩ := hhead.resolve_left hblank
        exact hnew (hold key value hset)
    · simp only [h]
      rw [ih hseen, faulty_blank hsize hblank]
    · rw [h, faulty_setting hseen hsize hblank hset hnew]
      rcases hstep : config.setting key value line with _ | (error | config₁)
      · simp [store, setting_none.mp hstep]
      · have hcut := not_cut hstep
        have hadm := not_admissible hstep (by simp)
        simp [store, Except.map, hcut, hadm]
      · have hcut := not_cut hstep
        obtain ⟨hadm, rfl⟩ := setting_ok.mp hstep
        simp only [store, Except.map, Option.map_some]
        rw [ih (nodup_snoc hseen hnew)]
        simp [hcut, hadm]

/-! ### Texts -/

theorem parse_ok {source : String} {config : Config} : parse source = some (.ok config) ↔
    WellFormed acceptedColor source ∧ config = meaning acceptedColor (lines source.toList) .default := by
  rw [parse]
  split
  · next hlarge =>
    have hnot : ¬WellFormed acceptedColor source := fun w => Nat.not_lt.mpr w.bounded.bytes hlarge
    simp [hnot]
  · next hbytes =>
    split
    · next hmany =>
      have hnot : ¬WellFormed acceptedColor source := fun w => Nat.not_lt.mpr w.bounded.lines hmany
      simp [invalid, hnot]
    · next hlines =>
      rw [parseLines_ok List.nodup_nil]
      refine and_congr_left fun _ => ⟨fun g => ?_, fun w => w.grammar⟩
      exact ⟨⟨Nat.le_of_not_gt hbytes, Nat.le_of_not_gt hlines⟩, g⟩

theorem parse_none {source : String} :
    parse source = none ↔ Bounded source ∧ Faulty [] (lines source.toList) := by
  rw [parse]
  split
  · next hlarge =>
    have hnot : ¬Bounded source := fun b => Nat.not_lt.mpr b.bytes hlarge
    simp [hnot]
  · next hbytes =>
    split
    · next hmany =>
      have hnot : ¬Bounded source := fun b => Nat.not_lt.mpr b.lines hmany
      simp [invalid, hnot]
    · next hlines =>
      rw [parseLines_none List.nodup_nil]
      exact (and_iff_right ⟨Nat.le_of_not_gt hbytes, Nat.le_of_not_gt hlines⟩).symm

/-- The parser returns unless some line is faulty: behind acceptable lines, it gives a color key that is new a
    value of seven bytes that starts with a number sign and has its third or fifth byte inside of a
    character. -/
theorem parse_returns (source : String) :
    (parse source).isSome ↔ ¬(Bounded source ∧ Faulty [] (lines source.toList)) := by
  rw [← parse_none, Option.isSome_iff_ne_none]

/-- The euro sign takes the second to fourth bytes of this value. -/
theorem parse_panics : parse "foreground = #€abc" = none := by decide +kernel

/-! ### Signs -/

theorem admissible_color {key value : List Char} (h : ColorKey key) : Admissible color key value ↔ (color value).isSome := by
  simp only [ColorKey, colorKeys, List.mem_cons, List.not_mem_nil, or_false] at h
  unfold Admissible
  rcases h with h | h | h | h | h | h
  all_goals simp only [h]

variable {color' : List Char → Option Color}

theorem admissible_congr {key value : List Char} (h : ColorKey key → color value = color' value) :
    Admissible color key value ↔ Admissible color' key value := by
  by_cases hk : ColorKey key
  · rw [admissible_color hk, admissible_color hk, h hk]
  · simp only [ColorKey, colorKeys, List.mem_cons, List.not_mem_nil, or_false, not_or] at hk
    unfold Admissible
    split
    all_goals first
      | exact Iff.rfl
      | next he => simp [he] at hk

theorem assign_congr {config : Config} {setting : List Char × List Char}
    (h : ColorKey setting.1 → color setting.2 = color' setting.2) :
    assign color config setting = assign color' config setting := by
  by_cases hk : ColorKey setting.1
  · rw [assign, assign, h hk]
  · simp only [ColorKey, colorKeys, List.mem_cons, List.not_mem_nil, or_false, not_or] at hk
    unfold assign
    split
    all_goals first
      | rfl
      | next he => simp [he] at hk

/-- Without a sign, a color is read as it is documented. -/
theorem acceptedColor_of_unsigned {value : List Char} (h : '+' ∉ value) :
    acceptedColor value = documentedColor value := by
  unfold acceptedColor documentedColor colorWith
  split
  · rfl
  · next a b c d e f _ =>
    have hpair : ∀ x ∈ ['#', a, b, c, d, e, f], ∀ y, integer? 16 [x, y] = appendDigits 16 0 [x, y] := by
      intro x hx y
      have hne : x ≠ '+' := fun he => h (he ▸ hx)
      simp [integer?, hne]
    rw [hpair a (by simp), hpair c (by simp), hpair e (by simp)]
  · rfl

theorem documentedColor_unsigned {value : List Char} (h : (documentedColor value).isSome) : '+' ∉ value := by
  obtain ⟨c, hc⟩ := Option.isSome_iff_exists.mp h
  cases hnamed : Color.named (String.ofList value) with
  | some named => exact (head_of_named hnamed).2
  | none =>
    obtain ⟨a, b, c, d, e, f, red, green, blue, rfl, hred, hgreen, hblue, -⟩ := (colorWith_eq_some hnamed).mp hc
    have hpair : ∀ {x y : Char} {n : Nat}, appendDigits 16 0 [x, y] = some n → x ≠ '+' ∧ y ≠ '+' := by
      intro x y n hn
      obtain ⟨dx, hx, hn⟩ := Option.bind_eq_some_iff.mp hn
      obtain ⟨dy, hy, -⟩ := Option.bind_eq_some_iff.mp hn
      exact ⟨(toDigit_ascii hx).2, (toDigit_ascii hy).2⟩
    have h₁ := hpair hred
    have h₂ := hpair hgreen
    have h₃ := hpair hblue
    simp [h₁.1.symm, h₁.2.symm, h₂.1.symm, h₂.2.symm, h₃.1.symm, h₃.2.symm]

/-- Lines whose colors two readings agree on mean the same to both. -/
theorem Grammar.congr {lines : List (List Char)} (g : Grammar color seen lines)
    (h : ∀ setting ∈ settings lines, ColorKey setting.1 → color setting.2 = color' setting.2) :
    Grammar color' seen lines where
  short := g.short
  shaped := g.shaped
  distinct := g.distinct
  admissible := fun setting hs => (admissible_congr (h setting hs)).mp (g.admissible setting hs)

theorem meaning_congr {lines : List (List Char)} {config : Config}
    (h : ∀ setting ∈ settings lines, ColorKey setting.1 → color setting.2 = color' setting.2) :
    meaning color lines config = meaning color' lines config :=
  List.foldl_ext _ _ _ fun _ setting hs => assign_congr (h setting hs)

/-- A text that is accepted with a sign in one of its colors. -/
def Signed (source : String) : Prop :=
  WellFormed acceptedColor source ∧
    ∃ setting ∈ settings (lines source.toList), ColorKey setting.1 ∧ '+' ∈ setting.2

/-- The parser accepts the documented texts and reads them as documented, but for signs in colors. -/
theorem parse_documented (source : String) :
    (∀ config, parse source = some (.ok config) ↔
      WellFormed documentedColor source ∧ config = meaning documentedColor (lines source.toList) .default) ↔
      ¬Signed source := by
  refine ⟨fun h hsigned => ?_, fun hunsigned config => ?_⟩
  · obtain ⟨w, setting, hs, hkey, hplus⟩ := hsigned
    have hd := ((h _).mp (parse_ok.mpr ⟨w, rfl⟩)).1
    exact documentedColor_unsigned ((admissible_color hkey).mp (hd.grammar.admissible setting hs)) hplus
  · rw [parse_ok]
    refine ⟨fun h => ?_, fun h => ?_⟩
    · obtain ⟨w, rfl⟩ := h
      have hsame : ∀ setting ∈ settings (lines source.toList), ColorKey setting.1 →
          acceptedColor setting.2 = documentedColor setting.2 := fun setting hs hkey =>
        acceptedColor_of_unsigned fun hplus => hunsigned ⟨w, setting, hs, hkey, hplus⟩
      exact ⟨⟨w.bounded, w.grammar.congr hsame⟩, meaning_congr hsame⟩
    · obtain ⟨w, rfl⟩ := h
      have hsame : ∀ setting ∈ settings (lines source.toList), ColorKey setting.1 →
          documentedColor setting.2 = acceptedColor setting.2 := fun setting hs hkey =>
        (acceptedColor_of_unsigned (documentedColor_unsigned
          ((admissible_color hkey).mp (w.grammar.admissible setting hs)))).symm
      exact ⟨⟨w.bounded, w.grammar.congr hsame⟩, meaning_congr hsame⟩

/-- A pair of a sign and a digit is accepted as a component. -/
theorem parse_signed :
    parse "foreground = #+1+2+3" =
      some (.ok { Config.default with theme := { Theme.defaultTheme with foreground := .rgb 1 2 3 } }) ∧
      ¬WellFormed documentedColor "foreground = #+1+2+3" := by
  refine ⟨by decide +kernel, fun w => ?_⟩
  have hs : ("foreground".toList, "#+1+2+3".toList) ∈ settings (lines "foreground = #+1+2+3".toList) := by
    decide +kernel
  have hsome := (admissible_color (by decide)).mp (w.grammar.admissible _ hs)
  exact absurd hsome (by decide +kernel)

end NovaMux.Config

import NovaMux.Runtime.Screensaver

/-! The style of the scenes in an environment. The variables are looked through up to the first that is C or POSIX or
    names UTF-8, so that a locale with another charset does not count: the next variable does, or, when there is none,
    Unicode is taken to be supported. -/

namespace NovaMux

/-! ### Locales -/

/-- UTF-8 occurs in the name, in whatever case. -/
def NamesUtf8 (locale : String) : Prop :=
  "utf-8".toList <:+: asciiLowercase locale ∨ "utf8".toList <:+: asciiLowercase locale

/-- The C locale, by one of its names. -/
def IsPortable (locale : String) : Prop :=
  asciiLowercase locale = "c".toList ∨ asciiLowercase locale = "posix".toList

instance (locale : String) : Decidable (NamesUtf8 locale) := inferInstanceAs (Decidable (_ ∨ _))

instance (locale : String) : Decidable (IsPortable locale) := inferInstanceAs (Decidable (_ ∨ _))

/-- The values that are set and not empty. -/
def setValues (names : List (Option String)) : List String := names.filterMap fun name => name.filter (· ≠ "")

/-- The C locale comes before any that names UTF-8. -/
def PortableFirst (locales : List String) : Prop :=
  ∃ before locale after, locales = before ++ locale :: after ∧ IsPortable locale ∧ ∀ other ∈ before, ¬NamesUtf8 other

variable {locale : String} {rest : List String} {names : List (Option String)}

theorem setValues_none : setValues (none :: names) = setValues names := rfl

theorem setValues_empty : setValues (some "" :: names) = setValues names := rfl

theorem setValues_some (h : locale ≠ "") : setValues (some locale :: names) = locale :: setValues names := by
  rw [setValues, List.filterMap_cons_some (b := locale)]
  · rfl
  · rw [Option.filter_some, if_pos (decide_eq_true h)]

theorem not_portableFirst_nil : ¬PortableFirst [] := by
  rintro ⟨before, locale, after, he, -⟩
  simp at he

theorem portableFirst_cons :
    PortableFirst (locale :: rest) ↔ IsPortable locale ∨ ¬NamesUtf8 locale ∧ PortableFirst rest := by
  constructor
  · rintro ⟨before, portable, after, he, hportable, hbefore⟩
    cases before with
    | nil =>
      obtain ⟨rfl, -⟩ := List.cons.inj he
      exact Or.inl hportable
    | cons other before =>
      obtain ⟨rfl, rfl⟩ := List.cons.inj he
      obtain ⟨hother, hbefore⟩ := List.forall_mem_cons.mp hbefore
      exact Or.inr ⟨hother, before, portable, after, rfl, hportable, hbefore⟩
  · rintro (hportable | ⟨hnames, before, portable, after, rfl, hportable, hbefore⟩)
    · exact ⟨[], locale, rest, rfl, hportable, nofun⟩
    · exact ⟨locale :: before, portable, after, rfl, hportable, List.forall_mem_cons.mpr ⟨hnames, hbefore⟩⟩

theorem IsPortable.not_namesUtf8 (h : IsPortable locale) : ¬NamesUtf8 locale := by
  rcases h with h | h
  · rw [NamesUtf8, h]
    decide
  · rw [NamesUtf8, h]
    decide

theorem localeSupportsUnicode_some : localeSupportsUnicode (some locale :: names) =
    if IsPortable locale then false else if NamesUtf8 locale then true else localeSupportsUnicode names := rfl

/-- What the loop over the variables comes to. -/
theorem localeSupportsUnicode_eq_false : localeSupportsUnicode names = false ↔ PortableFirst (setValues names) := by
  induction names with
  | nil => exact iff_of_false (fun h => nomatch h) not_portableFirst_nil
  | cons name names ih =>
    cases name with
    | none =>
      rw [setValues_none, ← ih]
      rfl
    | some locale =>
      by_cases hempty : locale = ""
      · -- An empty value is neither, so that the next variable counts.
        rw [hempty, setValues_empty, ← ih]
        rfl
      · rw [setValues_some hempty, portableFirst_cons, localeSupportsUnicode_some]
        by_cases hportable : IsPortable locale
        · rw [if_pos hportable]
          exact iff_of_true rfl (Or.inl hportable)
        · rw [if_neg hportable]
          by_cases hnames : NamesUtf8 locale
          · rw [if_pos hnames]
            refine iff_of_false (fun h => nomatch h) ?_
            rintro (h | ⟨h, -⟩)
            · exact hportable h
            · exact h hnames
          · rw [if_neg hnames, ih]
            exact ⟨fun h => Or.inr ⟨hnames, h⟩, fun h => (h.resolve_left hportable).2⟩

/-! ### Environments -/

namespace Environment

/-- The locale variables that are set and not empty, the one that takes precedence first. -/
def locales (env : Environment) : List String := setValues [env.lcAll, env.lcCtype, env.lang]

def effectiveLocale (env : Environment) : Option String := env.locales.head?

/-- The scenes are drawn in ASCII on a dumb terminal and with a locale that does not name UTF-8, and as configured
    with one that does. -/
def StyleFollows (env : Environment) : Prop :=
  (env.term = some "dumb" ∨ (∃ locale, env.effectiveLocale = some locale ∧ ¬NamesUtf8 locale) →
    ∀ configured, effectiveSceneStyle env configured = .ascii) ∧
  (env.term ≠ some "dumb" → (∃ locale, env.effectiveLocale = some locale ∧ NamesUtf8 locale) →
    ∀ configured, effectiveSceneStyle env configured = configured)

variable {env : Environment}

theorem terminalSupportsUnicode_iff (env : Environment) :
    terminalSupportsUnicode env = true ↔ env.term ≠ some "dumb" ∧ ¬PortableFirst env.locales := by
  rw [terminalSupportsUnicode, locales, ← localeSupportsUnicode_eq_false, Bool.not_eq_false]
  split
  · next hdumb => exact iff_of_false Bool.false_ne_true fun h => h.1 hdumb
  · next hdumb => exact ⟨fun h => ⟨hdumb, h⟩, And.right⟩

theorem terminalSupportsUnicode_eq_false (env : Environment) :
    terminalSupportsUnicode env = false ↔ env.term = some "dumb" ∨ PortableFirst env.locales := by
  rw [← Bool.not_eq_true, terminalSupportsUnicode_iff, not_and_or, not_not, not_not]

/-- A locale that names UTF-8 comes before any C locale when it takes precedence. -/
theorem not_portableFirst_of_utf8 {locale : String} (hsome : env.effectiveLocale = some locale)
    (hnames : NamesUtf8 locale) : ¬PortableFirst env.locales := by
  obtain ⟨rest, hlocales⟩ := List.head?_eq_some_iff.mp hsome
  rw [hlocales, portableFirst_cons]
  rintro (h | ⟨h, -⟩)
  · exact h.not_namesUtf8 hnames
  · exact h hnames

/-- The terminal decides between ASCII and what is configured. -/
theorem effectiveSceneStyle_eq (configured : SceneStyle) :
    effectiveSceneStyle env configured = if terminalSupportsUnicode env = true then configured else .ascii := by
  unfold effectiveSceneStyle
  cases configured <;> cases terminalSupportsUnicode env <;> rfl

theorem forall_style_ascii :
    (∀ configured, effectiveSceneStyle env configured = .ascii) ↔ terminalSupportsUnicode env = false := by
  simp only [effectiveSceneStyle_eq]
  cases terminalSupportsUnicode env with
  | false => exact iff_of_true (fun _ => rfl) rfl
  | true => exact iff_of_false (fun h => nomatch h .unicode) (fun h => nomatch h)

/-- With a locale that names UTF-8 the style is the configured one, but on a dumb terminal. -/
theorem StyleFollows.of_utf8 {locale : String} (hsome : env.effectiveLocale = some locale) (hnames : NamesUtf8 locale) :
    env.StyleFollows := by
  constructor
  · rintro (hdumb | ⟨other, hother, hnot⟩)
    · exact forall_style_ascii.mpr ((terminalSupportsUnicode_eq_false env).mpr (Or.inl hdumb))
    · obtain rfl := Option.some.inj (hsome.symm.trans hother)
      exact absurd hnames hnot
  · intro hdumb _ configured
    have hsupports := (terminalSupportsUnicode_iff env).mpr ⟨hdumb, not_portableFirst_of_utf8 hsome hnames⟩
    rw [effectiveSceneStyle_eq, if_pos hsupports]

/-- Without one, ASCII is all there is to ask for. -/
theorem styleFollows_of_other (hnames : ∀ locale, env.effectiveLocale = some locale → ¬NamesUtf8 locale) :
    env.StyleFollows ↔ (env.term = some "dumb" ∨ (∃ locale, env.effectiveLocale = some locale) →
      terminalSupportsUnicode env = false) := by
  have hother : (∃ locale, env.effectiveLocale = some locale ∧ ¬NamesUtf8 locale) ↔
      ∃ locale, env.effectiveLocale = some locale :=
    exists_congr fun locale => ⟨And.left, fun h => ⟨h, hnames locale h⟩⟩
  rw [StyleFollows, hother, forall_style_ascii]
  refine ⟨And.left, fun h => ⟨h, ?_⟩⟩
  rintro - ⟨locale, hsome, h⟩
  exact absurd h (hnames locale hsome)

/-- The style follows the locale exactly on a dumb terminal, without a locale, with one that names UTF-8, and with
    another one when the C locale comes before any that names UTF-8. -/
theorem style_follows (env : Environment) : env.StyleFollows ↔
    env.term = some "dumb" ∨ env.effectiveLocale = none ∨
      (∃ locale, env.effectiveLocale = some locale ∧ NamesUtf8 locale) ∨ PortableFirst env.locales := by
  by_cases hutf8 : ∃ locale, env.effectiveLocale = some locale ∧ NamesUtf8 locale
  · obtain ⟨locale, hsome, hnames⟩ := hutf8
    exact iff_of_true (StyleFollows.of_utf8 hsome hnames) (Or.inr (Or.inr (Or.inl ⟨locale, hsome, hnames⟩)))
  · have hother : ∀ locale, env.effectiveLocale = some locale → ¬NamesUtf8 locale :=
      fun locale hsome hnames => hutf8 ⟨locale, hsome, hnames⟩
    rw [styleFollows_of_other hother, terminalSupportsUnicode_eq_false]
    constructor
    · intro h
      cases hsome : env.effectiveLocale with
      | none => exact Or.inr (Or.inl rfl)
      | some locale =>
        rcases h (Or.inr ⟨locale, hsome⟩) with hdumb | hfirst
        · exact Or.inl hdumb
        · exact Or.inr (Or.inr (Or.inr hfirst))
    · rintro (hdumb | hnone | h | hfirst) hset
      · exact Or.inl hdumb
      · rcases hset with hdumb | ⟨locale, hsome⟩
        · exact Or.inl hdumb
        · cases hnone.symm.trans hsome
      · exact absurd h hutf8
      · exact Or.inr hfirst

/-- A locale with another charset does not keep a variable behind it from naming UTF-8. -/
theorem style_follows_fails : ¬StyleFollows
    { term := some "xterm", lcAll := some "de_DE.ISO-8859-1", lcCtype := none, lang := some "en_US.UTF-8" } := by
  intro h
  have hascii := h.1 (Or.inr ⟨"de_DE.ISO-8859-1", rfl, by decide⟩) .unicode
  exact absurd hascii (by decide)

end Environment

end NovaMux

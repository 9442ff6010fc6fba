import NovaMux.Theorems.Config

/-! Errors of configurations within the limits: the parser stops at the first line that it does not accept. Its
    error names that line and depends only on the lines up to it. -/

namespace NovaMux.Config
open Str

/-! ### Errors name their line -/

theorem choose_error {α : Type} {value : Option α} {line : Nat} {message : String} {update : α → Config}
    {error : ConfigError} (h : choose value line message update = some (.error error)) :
    error = .invalid line message := by
  cases value with
  | none =>
    cases h
    rfl
  | some a => cases h

theorem store_error {α β : Type} {parsed : Parsed α} {update : α → β} {error : ConfigError}
    (h : store parsed update = some (.error error)) : parsed = some (.error error) := by
  rcases parsed with _ | (error' | a)
  · cases h
  · cases h
    rfl
  · cases h

theorem parseColor_error {value : List Char} {line : Nat} {error : ConfigError}
    (h : parseColor value line = some (.error error)) : ∃ message, error = .invalid line message := by
  rw [parseColor] at h
  split at h
  · cases h
  · simp only at h
    split at h
    · split at h
      · cases h
      · cases h
      · cases h
        exact ⟨_, rfl⟩
    · cases h
      exact ⟨_, rfl⟩

theorem parseSceneStyle_error {value : List Char} {line : Nat} {error : ConfigError}
    (h : parseSceneStyle value line = some (.error error)) : ∃ message, error = .invalid line message := by
  rw [parseSceneStyle] at h
  split at h
  · cases h
  · cases h
    exact ⟨_, rfl⟩

theorem setting_error {config : Config} {key value : List Char} {line : Nat} {error : ConfigError}
    (h : config.setting key value line = some (.error error)) : ∃ message, error = .invalid line message := by
  have hcolor : ∀ update, config.setColor value line update = some (.error error) →
      ∃ message, error = .invalid line message := fun _ h => parseColor_error (store_error h)
  unfold setting at h
  split at h
  case h_1 | h_2 | h_3 => exact ⟨_, choose_error h⟩
  case h_4 =>
    split at h
    · cases h
      exact ⟨_, rfl⟩
    · split at h
      · cases h
      · cases h
        exact ⟨_, rfl⟩
  case h_5 => exact parseSceneStyle_error (store_error h)
  case h_12 =>
    cases h
    exact ⟨_, rfl⟩
  all_goals exact hcolor _ h

theorem parseLine_error {line : Nat} {raw : List Char} {config : Config} {seen : List (List Char)}
    {error : ConfigError} (h : parseLine line raw config seen = some (.error error)) :
    ∃ message, error = .invalid line message := by
  rcases parseLine_cases line raw config seen with ⟨message, he, -⟩ | ⟨he, -⟩ | ⟨key, value, he, -⟩
  · rw [he] at h
    cases h
    exact ⟨message, rfl⟩
  · rw [he] at h
    cases h
  · rw [he] at h
    exact setting_error (store_error h)

/-! ### The first bad line -/

/-- An error comes from one line: those before it are accepted, and those behind it do not matter. -/
theorem parseLines_error {line : Nat} {lines : List (List Char)} {config : Config} {seen : List (List Char)}
    {error : ConfigError} (h : parseLines line lines config seen = some (.error error)) :
    ∃ k message, error = .invalid (line + k) message ∧ k < lines.length ∧
      (∃ config', parseLines line (lines.take k) config seen = some (.ok config')) ∧
      ∀ rest, parseLines line (lines.take (k + 1) ++ rest) config seen = some (.error error) := by
  induction lines generalizing line config seen with
  | nil => cases h
  | cons raw lines ih =>
    rw [parseLines] at h
    rcases hline : parseLine line raw config seen with _ | (error' | ⟨config', seen'⟩)
    · rw [hline] at h
      cases h
    · rw [hline] at h
      cases h
      obtain ⟨message, rfl⟩ := parseLine_error hline
      refine ⟨0, message, rfl, Nat.succ_pos _, ⟨config, rfl⟩, fun rest => ?_⟩
      simp only [List.take_succ_cons, List.take_zero, List.cons_append, parseLines, hline]
    · rw [hline] at h
      obtain ⟨k, message, rfl, hk, ⟨config'', hok⟩, hrest⟩ := ih h
      refine ⟨k + 1, message, by rw [Nat.add_right_comm, Nat.add_assoc], Nat.succ_lt_succ hk,
        ⟨config'', ?_⟩, fun rest => ?_⟩
      · simp only [List.take_succ_cons, parseLines, hline, hok]
      · rw [List.take_succ_cons, List.cons_append, parseLines, hline]
        exact hrest rest

/-- Within the limits only the lines count. -/
theorem parse_of_bounded {source : String} (h : Bounded source) :
    parse source = parseLines 1 (lines source.toList) .default [] := by
  rw [parse, if_neg (Nat.not_lt.mpr h.bytes), if_neg (Nat.not_lt.mpr h.lines)]

/-- The text that consists of the first `k` lines. -/
def firstLines (k : Nat) (source : String) : String := String.ofList (Str.firstLines k source.toList)

theorem lines_firstLines (k : Nat) (source : String) :
    lines (firstLines k source).toList = (lines source.toList).take k := by
  rw [firstLines, String.toList_ofList, Str.lines_firstLines]

theorem Bounded.firstLines {source : String} (h : Bounded source) (k : Nat) : Bounded (firstLines k source) where
  bytes := by
    rw [Config.firstLines, String.toList_ofList]
    exact Nat.le_trans (size_firstLines_le k source.toList) h.bytes
  lines := by
    rw [lines_firstLines, List.length_take]
    exact Nat.le_trans (Nat.min_le_right _ _) h.lines

/-- The error of a text within the limits is that of a line: the text of the lines before it is accepted, the text
    that ends with it has the error already, and whatever follows it, the error stays the same. -/
theorem first_bad_line {source : String} (hb : Bounded source) {error : ConfigError}
    (h : parse source = some (.error error)) :
    ∃ n message, error = .invalid n message ∧ 1 ≤ n ∧ n ≤ (lines source.toList).length ∧
      (∃ config, parse (firstLines (n - 1) source) = some (.ok config)) ∧
      parse (firstLines n source) = some (.error (.invalid n message)) ∧
      ∀ source', Bounded source' → (lines source'.toList).take n = (lines source.toList).take n →
        parse source' = some (.error (.invalid n message)) := by
  rw [parse_of_bounded hb] at h
  obtain ⟨k, message, rfl, hk, ⟨config, hok⟩, hrest⟩ := parseLines_error h
  refine ⟨1 + k, message, rfl, by omega, by omega, ⟨config, ?_⟩, ?_, ?_⟩
  · rw [parse_of_bounded (hb.firstLines _), lines_firstLines, Nat.add_sub_cancel_left]
    exact hok
  · have hfirst := hrest []
    rw [List.append_nil] at hfirst
    rw [parse_of_bounded (hb.firstLines _), lines_firstLines, ← Nat.add_comm k]
    rwa [← Nat.add_comm k] at hfirst
  · intro source' hb' hsame
    have hlines : lines source'.toList = (lines source.toList).take (k + 1) ++ (lines source'.toList).drop (k + 1) := by
      rw [← Nat.add_comm 1, ← hsame, List.take_append_drop]
    rw [parse_of_bounded hb', hlines]
    exact hrest _

/-- A key given twice: the error is that of the second line, whatever follows it. -/
theorem first_bad_line_duplicate :
    parse "status = red\nstatus = blue\nnonsense" = some (.error (.invalid 2 "duplicate key 'status'")) ∧
      parse "status = red\nstatus = blue\nstatus" = some (.error (.invalid 2 "duplicate key 'status'")) := by
  have hb : Bounded "status = red\nstatus = blue\nnonsense" := ⟨by decide +kernel, by decide +kernel⟩
  have h : parse "status = red\nstatus = blue\nnonsense" = some (.error (.invalid 2 "duplicate key 'status'")) := by
    decide +kernel
  obtain ⟨n, message, he, -, -, -, -, hrest⟩ := first_bad_line hb h
  cases he
  exact ⟨h, hrest _ ⟨by decide +kernel, by decide +kernel⟩ (by decide +kernel)⟩

end NovaMux.Config

import NovaMux.Theorems.Artwork
import NovaMux.Theorems.Pictures

/-! The idle screen. Each line of the artwork is there in whole, in the middle of its row, the rows are in the middle of
    the screen, and nothing else is shown, on terminals of any size and in every frame. -/

namespace NovaMux

open Canvas

variable {size : UInt16 × UInt16} {lines : List String} {line : String} {column row : Nat}

/-! ### Places -/

/-- The row of the first line. -/
def idleTop (size : UInt16 × UInt16) (lines : List String) : Nat := (size.2.toNat - lines.length) / 2

/-- The column in which a line starts. -/
def idleLeft (size : UInt16 × UInt16) (line : String) : Nat := (size.1.toNat - displayWidth line) / 2

/-- What the idle screen shows in a cell. -/
def idlePicture (size : UInt16 × UInt16) (pen : Pen) (lines : List String) (column row : Nat) : Option (Char × Pen) :=
  if idleTop size lines ≤ row then lines[row - idleTop size lines]?.bind fun line =>
    if idleLeft size line ≤ column then (cover cellWidth line.toList)[column - idleLeft size line]?.map (·, pen) else none
  else none

/-- The place of a line. -/
def idleSpan (size : UInt16 × UInt16) (lines : List String) (entry : String × Nat) : Span where
  column := size.1.saturatingSub (.ofNatOr size.1 (displayWidth entry.1)) / 2
  row := (size.2.saturatingSub (.ofNatOr size.2 lines.length) / 2).saturatingAdd (.ofNatOr size.2 entry.2)
  text := entry.1

theorem Fits.placed_column (h : Fits lines size.1 size.2) {entry : String × Nat} (he : entry ∈ lines.zipIdx) :
    (idleSpan size lines entry).column.toNat = idleLeft size entry.1 ∧
      idleLeft size entry.1 + displayWidth entry.1 ≤ size.1.toNat := by
  have hcols := size.1.toNat_lt
  have hwidth := h.cells entry.1 (List.fst_mem_of_mem_zipIdx he)
  have htwo : (2 : UInt16).toNat = 2 := rfl
  rw [idleSpan, UInt16.toNat_div, UInt16.toNat_saturatingSub, UInt16.toNat_ofNatOr (by omega), htwo, idleLeft]
  omega

theorem Fits.placed_row (h : Fits lines size.1 size.2) {entry : String × Nat} (he : entry ∈ lines.zipIdx) :
    (idleSpan size lines entry).row.toNat = idleTop size lines + entry.2 ∧
      idleTop size lines + entry.2 < size.2.toNat := by
  have hrows := size.2.toNat_lt
  have hlength := h.rows
  have hentry := List.mem_zipIdx he
  have htwo : (2 : UInt16).toNat = 2 := rfl
  rw [idleSpan, UInt16.toNat_saturatingAdd, UInt16.toNat_div, UInt16.toNat_saturatingSub,
    UInt16.toNat_ofNatOr (by omega), UInt16.toNat_ofNatOr (by omega), htwo, idleTop]
  omega

/-! ### Drawing -/

/-- No line is left out. -/
theorem renderScreensaver_eq (env : Environment) (size : UInt16 × UInt16) (config : Config) (frame : Nat)
    (animationEnabled : Bool) (elapsed : Nat) :
    renderScreensaver env size config frame animationEnabled elapsed =
      let theme := animatedTheme config animationEnabled elapsed
      let lines := artwork config.screensaver (effectiveSceneStyle env config.sceneStyle) frame size.1 size.2
      [.hide, .setForegroundColor (toTerminalColor theme.focusedBorder),
        .setBackgroundColor (toTerminalColor theme.background), .clear] ++
        (lines.zipIdx.map (idleSpan size lines)).flatMap Span.queued := by
  unfold renderScreensaver
  dsimp only
  rw [List.flatMap_map]
  refine congrArg _ (List.flatMap_congr fun entry he => ?_)
  have hfits : Fits (artwork config.screensaver (effectiveSceneStyle env config.sceneStyle) frame size.1 size.2) size.1
      size.2 := fits_cut _ _ _
  obtain ⟨hrow, hlt⟩ := hfits.placed_row he
  rw [← hrow] at hlt
  exact if_pos (UInt16.lt_iff_toNat_lt.mpr hlt)

theorem get_idleSpan (h : Fits lines size.1 size.2) {entry : String × Nat} (he : entry ∈ lines.zipIdx) (pen : Pen) :
    ((idleSpan size lines entry).covering pen).get column row =
      if row = idleTop size lines + entry.2 ∧ idleLeft size entry.1 ≤ column then
        (cover cellWidth entry.1.toList)[column - idleLeft size entry.1]?.map (·, pen)
      else none := by
  have hcolumn := (h.placed_column he).1
  have hrow := (h.placed_row he).1
  simp only [Stroke.get, Span.covering, hcolumn, hrow]
  rfl

theorem paint_idle (h : Fits lines size.1 size.2) (pen : Pen) :
    paint ((lines.zipIdx.map (idleSpan size lines)).map (Span.covering pen)) column row =
      idlePicture size pen lines column row := by
  rw [List.map_map, idlePicture]
  -- The lines are on rows of their own, so at most one has anything in this row.
  have hother : ∀ entry ∈ lines.zipIdx, row ≠ idleTop size lines + entry.2 →
      ((idleSpan size lines entry).covering pen).get column row = none := by
    intro entry he hne
    rw [get_idleSpan h he, if_neg fun hin => hne hin.1]
  have hnone : (∀ entry ∈ lines.zipIdx, row ≠ idleTop size lines + entry.2) →
      paint (lines.zipIdx.map (Span.covering pen ∘ idleSpan size lines)) column row = none := by
    intro hne
    refine paint_eq_none fun stroke hs => ?_
    obtain ⟨entry, he, rfl⟩ := List.mem_map.mp hs
    exact hother entry he (hne entry he)
  split
  · next htop =>
    cases hline : lines[row - idleTop size lines]? with
    | none =>
      have hlength := List.getElem?_eq_none_iff.mp hline
      refine hnone fun entry he => ?_
      have hentry := List.mem_zipIdx he
      omega
    | some line =>
      have he : (line, row - idleTop size lines) ∈ lines.zipIdx := List.mem_zipIdx_iff_getElem?.mpr hline
      have hrow : row = idleTop size lines + (row - idleTop size lines) := by omega
      refine paint_eq (fun stroke hs => ?_) (List.mem_map_of_mem he) ?_
      · obtain ⟨entry, hentry, rfl⟩ := List.mem_map.mp hs
        by_cases hsame : row = idleTop size lines + entry.2
        · have hindex : row - idleTop size lines = entry.2 := by omega
          have hget := List.mem_zipIdx_iff_getElem?.mp hentry
          rw [hindex, hget] at hline
          right
          refine (get_idleSpan h hentry pen).trans ?_
          rw [Option.some.inj hline, Option.bind_some]
          simp only [hsame, true_and]
        · exact Or.inl (hother entry hentry hsame)
      · refine (get_idleSpan h he pen).trans ?_
        rw [Option.bind_some]
        simp only [← hrow, true_and]
  · exact hnone fun entry he => by omega

/-- The pen and the lines of the idle screen. -/
def idlePen (config : Config) (animationEnabled : Bool) (elapsed : Nat) : Pen :=
  let theme := animatedTheme config animationEnabled elapsed
  ⟨some (toTerminalColor theme.focusedBorder), some (toTerminalColor theme.background)⟩

def idleLines (env : Environment) (size : UInt16 × UInt16) (config : Config) (frame : Nat) : List String :=
  artwork config.screensaver (effectiveSceneStyle env config.sceneStyle) frame size.1 size.2

theorem idleLines_fits (env : Environment) (size : UInt16 × UInt16) (config : Config) (frame : Nat) :
    Fits (idleLines env size config frame) size.1 size.2 := fits_cut _ _ _

theorem run_renderScreensaver (env : Environment) (size : UInt16 × UInt16) (config : Config) (frame : Nat)
    (animationEnabled : Bool) (elapsed : Nat) (s : Display) (column row : Nat) :
    (s.run (renderScreensaver env size config frame animationEnabled elapsed)).cells column row =
      idlePicture size (idlePen config animationEnabled elapsed) (idleLines env size config frame) column row := by
  rw [renderScreensaver_eq, Display.run_append, run_spans]
  exact (Option.or_none).trans (paint_idle (idleLines_fits env size config frame) _)

/-- Whatever the terminal showed before, the idle screen is its lines: each in whole, in the middle of the terminal up
    to one cell, and nothing else. -/
theorem idle_screen (env : Environment) (size : UInt16 × UInt16) (config : Config) (frame : Nat) (animationEnabled : Bool)
    (elapsed : Nat) :
    let pen := idlePen config animationEnabled elapsed
    let lines := idleLines env size config frame
    (∀ (s : Display) column row, (s.run (renderScreensaver env size config frame animationEnabled elapsed)).cells column row =
        idlePicture size pen lines column row) ∧
      (∀ column row, size.1.toNat ≤ column ∨ size.2.toNat ≤ row → idlePicture size pen lines column row = none) ∧
      ∀ i line, lines[i]? = some line → idleTop size lines + i < size.2.toNat ∧
        idleLeft size line + (cover cellWidth line.toList).length ≤ size.1.toNat ∧
        Nat.dist (idleLeft size line) (size.1.toNat - (idleLeft size line + displayWidth line)) ≤ 1 ∧
        Nat.dist (idleTop size lines) (size.2.toNat - (idleTop size lines + lines.length)) ≤ 1 := by
  intro pen lines
  have hfits : Fits lines size.1 size.2 := idleLines_fits env size config frame
  -- Each line fits in its row, so what is beside the terminal belongs to no line.
  have hplace : ∀ i line, lines[i]? = some line → idleTop size lines + i < size.2.toNat ∧
      idleLeft size line + (cover cellWidth line.toList).length ≤ size.1.toNat := by
    intro i line hline
    have he : (line, i) ∈ lines.zipIdx := List.mem_zipIdx_iff_getElem?.mpr hline
    exact ⟨(hfits.placed_row he).2, length_cover line.toList ▸ (hfits.placed_column he).2⟩
  refine ⟨run_renderScreensaver env size config frame animationEnabled elapsed, fun column row hout => ?_, fun i line hline => ?_⟩
  · unfold idlePicture
    split
    · next htop =>
      cases hline : lines[row - idleTop size lines]? with
      | none => rfl
      | some line =>
        obtain ⟨hrow, hcolumn⟩ := hplace _ line hline
        rw [Option.bind_some]
        split
        · rw [List.getElem?_eq_none (by omega)]
          rfl
        · rfl
    · rfl
  · obtain ⟨hrow, hcolumn⟩ := hplace i line hline
    have hwidth := hfits.cells line (List.mem_of_getElem? hline)
    have hrows := hfits.rows
    refine ⟨hrow, hcolumn, ?_, ?_⟩
    · unfold Nat.dist idleLeft
      omega
    · unfold Nat.dist idleTop
      omega

/-- The last line of the scene with the cat on the smallest terminal with a scene. -/
theorem idle_screen_smallest :
    let lines := idleLines ⟨none, none, none, none⟩ (18, 7) { Config.default with screensaver := .catPlay } 0
    idleTop (18, 7) lines + 3 < 7 ∧ idleLeft (18, 7) "cat playing" + (cover cellWidth "cat playing".toList).length ≤ 18 := by
  intro lines
  obtain ⟨hrow, hcolumn, -⟩ := (idle_screen ⟨none, none, none, none⟩ (18, 7)
    { Config.default with screensaver := .catPlay } 0 false 0).2.2 3 "cat playing" (by decide +kernel)
  exact ⟨hrow, hcolumn⟩

end NovaMux

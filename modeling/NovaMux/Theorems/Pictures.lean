import NovaMux.Lib.Canvas
import NovaMux.Theorems.Drawing

/-! What a screen looks like. Each pane draws inside of its rectangle, the title over its border, and the rectangles are
    apart from each other and from the status line. So whatever the terminal showed before, each cell shows what the
    pane that it belongs to has there. Characters that do not take one cell are left out. -/

namespace NovaMux

open Canvas Str

/-! ### The terminal -/

/-- The colors that text is written in, unless they are the terminal's own. -/
structure Pen where
  foreground : Option TerminalColor
  background : Option TerminalColor
deriving DecidableEq, Repr

abbrev Display := Canvas Char Pen

/-- What the terminal makes of a command. -/
def Queued.exec (s : Display) : Queued → Display
  | .hide => s
  | .setForegroundColor color => s.withPen { s.pen with foreground := some color }
  | .setBackgroundColor color => s.withPen { s.pen with background := some color }
  | .clear => s.clear
  | .moveTo column row => s.moveTo column.toNat row.toNat
  | .print text => s.write cellWidth text.toList
  | .resetColor => s.withPen ⟨none, none⟩

/-- What the terminal makes of a queue. -/
def Display.run (s : Display) (queue : List Queued) : Display := queue.foldl Queued.exec s

/-- Each character takes one cell. -/
def Narrow (text : List Char) : Prop := ∀ c ∈ text, cellWidth c = 1

instance (text : List Char) : Decidable (Narrow text) := List.decidableBAll _ text

/-- The cells that a text covers. -/
def Span.covering (pen : Pen) (span : Span) : Stroke Char Pen :=
  ⟨span.column.toNat, span.row.toNat, cover cellWidth span.text.toList, pen⟩

/-- The cells of a text whose characters take one each. -/
def Span.stroke (pen : Pen) (span : Span) : Stroke Char Pen := ⟨span.column.toNat, span.row.toNat, span.text.toList, pen⟩

variable {s : Display} {theme : Theme} {rect : Rect} {column row : Nat}

theorem Display.run_append {queue queue' : List Queued} : s.run (queue ++ queue') = (s.run queue).run queue' :=
  List.foldl_append

/-- Strokes over a screen. -/
def overlay (strokes : List (Stroke Char Pen)) (cells : Nat → Nat → Option (Char × Pen)) : Nat → Nat → Option (Char × Pen) :=
  fun column row => (paint strokes column row).or (cells column row)

theorem overlay_append {strokes strokes' : List (Stroke Char Pen)} {cells : Nat → Nat → Option (Char × Pen)} :
    overlay (strokes ++ strokes') cells = overlay strokes' (overlay strokes cells) := by
  funext column row
  rw [overlay, paint_append, Option.or_assoc]
  rfl

/-- A queue draws strokes, whatever the screen and the pen before it. -/
def Draws (queue : List Queued) (strokes : List (Stroke Char Pen)) : Prop :=
  ∀ s : Display, (s.run queue).cells = overlay strokes s.cells

theorem Draws.nil : Draws [] [] := fun _ => rfl

theorem Draws.append {queue queue' : List Queued} {strokes strokes' : List (Stroke Char Pen)} (h : Draws queue strokes)
    (h' : Draws queue' strokes') : Draws (queue ++ queue') (strokes ++ strokes') := by
  intro s
  rw [Display.run_append, h', h, overlay_append]

theorem Draws.flatMap {ι : Type} {queue : ι → List Queued} {strokes : ι → List (Stroke Char Pen)} {l : List ι}
    (h : ∀ i ∈ l, Draws (queue i) (strokes i)) : Draws (l.flatMap queue) (l.flatMap strokes) := by
  induction l with
  | nil => exact Draws.nil
  | cons i l ih =>
    obtain ⟨hi, hl⟩ := List.forall_mem_cons.mp h
    exact hi.append (ih hl)

theorem run_spans (list : List Span) (s : Display) :
    (s.run (list.flatMap Span.queued)).cells = overlay (list.map (Span.covering s.pen)) s.cells := by
  induction list generalizing s with
  | nil => rfl
  | cons span list ih =>
    have hwrite := write_eq cellWidth span.text.toList (s.moveTo span.column.toNat span.row.toNat)
    rw [List.flatMap_cons, Display.run_append]
    refine (ih ((s.moveTo span.column.toNat span.row.toNat).write cellWidth span.text.toList)).trans ?_
    rw [hwrite, List.map_cons, ← List.singleton_append, overlay_append]
    rfl

/-- Narrow texts in the colors that are set before them. -/
theorem draws_spans {list : List Span} (h : ∀ span ∈ list, Narrow span.text.toList) (foreground background : TerminalColor) :
    Draws ([.setForegroundColor foreground, .setBackgroundColor background] ++ list.flatMap Span.queued)
      (list.map (Span.stroke ⟨some foreground, some background⟩)) := by
  intro s
  have hnarrow : list.map (Span.covering ⟨some foreground, some background⟩) =
      list.map (Span.stroke ⟨some foreground, some background⟩) :=
    List.map_congr_left fun span hs => by rw [Span.covering, Span.stroke, cover_narrow (h span hs)]
  exact (run_spans list (s.withPen ⟨some foreground, some background⟩)).trans (congrArg (overlay · s.cells) hnarrow)

/-! ### Narrow texts -/

theorem Narrow.append {a b : List Char} (ha : Narrow a) (hb : Narrow b) : Narrow (a ++ b) := by
  intro c hc
  rcases List.mem_append.mp hc with h | h
  · exact ha c h
  · exact hb c h

theorem cellWidth_of_ascii {c : Char} (h : c.toNat < 128) : cellWidth c = 1 := by
  have hle : ∀ n, n < 128 → (n == 0x200d || (0xfe00 ≤ n && n ≤ 0xfe0f) || (0x0300 ≤ n && n ≤ 0x036f)) = false ∧
      ((0x1100 ≤ n && n ≤ 0x115f) || (0x2e80 ≤ n && n ≤ 0xa4cf) || (0xac00 ≤ n && n ≤ 0xd7a3) ||
        (0xf900 ≤ n && n ≤ 0xfaff) || (0xfe10 ≤ n && n ≤ 0xfe6f) || (0xff00 ≤ n && n ≤ 0xff60) ||
        (0x1f300 ≤ n && n ≤ 0x1faff)) = false := by decide
  obtain ⟨hzero, hwide⟩ := hle c.toNat h
  simp only [cellWidth, hzero, hwide, Bool.false_eq_true, if_false]

theorem narrow_digits (n : Nat) : Narrow (toString n).toList := by
  intro c hc
  have hdigit : c.isDigit := by
    refine Nat.isDigit_of_mem_toDigits (b := 10) (n := n) (by decide) (by decide) ?_
    simpa [toString, Nat.repr] using hc
  refine cellWidth_of_ascii ?_
  have hle := (Char.isDigit_iff_toNat.mp hdigit).2
  have hnine : '9'.toNat = 57 := rfl
  omega

theorem narrow_label (pane : UInt64) (focused : Bool) : Narrow (borderLabel pane focused).toList := by
  have hpane : Narrow (toString pane).toList := narrow_digits pane.toNat
  have hstart : Narrow " pane ".toList := by decide +kernel
  have hend : Narrow (if focused then " *" else "").toList := by cases focused <;> decide +kernel
  have hspace : Narrow " ".toList := by decide +kernel
  simp only [borderLabel, String.toList_append]
  exact ((hstart.append hpane).append hend).append hspace

theorem narrow_fit {text : String} (h : Narrow text.toList) (width : UInt16) : Narrow (fit text width).toList := by
  rw [fit, String.toList_ofList]
  refine Narrow.append (fun c hc => h c (List.mem_of_mem_take hc)) fun c hc => ?_
  rw [List.eq_of_mem_replicate hc]
  decide

theorem length_fit (text : String) (width : UInt16) : (fit text width).toList.length = width.toNat := by
  rw [fit, String.toList_ofList, List.length_append, List.length_replicate]
  have := List.length_take (i := width.toNat) (l := text.toList)
  omega

/-! ### Panes -/

def borderChar (focused : Bool) : Char := if focused then '#' else '+'

theorem toList_borderGlyph (focused : Bool) : (borderGlyph focused).toList = [borderChar focused] := by
  cases focused <;> decide

namespace PaneSnapshot

variable {pane : PaneSnapshot}

def borderPen (theme : Theme) (pane : PaneSnapshot) : Pen :=
  ⟨some (toTerminalColor (if pane.focused then theme.focusedBorder else theme.paneBorder)),
    some (toTerminalColor theme.background)⟩

def textPen (theme : Theme) : Pen :=
  ⟨some (toTerminalColor theme.foreground), some (toTerminalColor theme.background)⟩

def title (pane : PaneSnapshot) : String := fit (borderLabel pane.id pane.focused) (pane.width.saturatingSub 2)

/-- A cell of the border of a pane. -/
def OnBorder (pane : PaneSnapshot) (column row : Nat) : Prop :=
  row = pane.y.toNat ∨ row + 1 = pane.y.toNat + pane.height.toNat ∨ column = pane.x.toNat ∨
    column + 1 = pane.x.toNat + pane.width.toNat

/-- A cell of the title of a pane. -/
def InTitle (pane : PaneSnapshot) (column row : Nat) : Prop :=
  row = pane.y.toNat ∧ pane.x.toNat < column ∧ column + 1 < pane.x.toNat + pane.width.toNat

instance : Decidable (pane.OnBorder column row) := inferInstanceAs (Decidable (_ ∨ _ ∨ _ ∨ _))

instance : Decidable (pane.InTitle column row) := inferInstanceAs (Decidable (_ ∧ _ ∧ _))

/-- What a pane shows in one of its cells: its title inside of the upper side of its border, and its text inside of the
    border. -/
def cell (theme : Theme) (pane : PaneSnapshot) (column row : Nat) : Option (Char × Pen) :=
  if pane.InTitle column row then pane.title.toList[column - pane.x.toNat - 1]?.map (·, pane.borderPen theme)
  else if pane.OnBorder column row then some (borderChar pane.focused, pane.borderPen theme)
  else ((shown pane.area pane.text)[row - pane.y.toNat - 1]?.bind (·[column - pane.x.toNat - 1]?)).map
    (·, textPen theme)

/-- The border of a pane with its title. -/
def borders (pane : PaneSnapshot) : List Span :=
  borderSpans pane.area (borderGlyph pane.focused) ++ [(⟨pane.x.saturatingAdd 1, pane.y, pane.title⟩ : Span)]

/-- A pane without cells draws nothing, and one without room inside of its border no text. -/
def strokes (theme : Theme) (pane : PaneSnapshot) : List (Stroke Char Pen) :=
  if pane.width = 0 ∨ pane.height = 0 then []
  else pane.borders.map (Span.stroke (pane.borderPen theme)) ++
    if pane.width > 2 ∧ pane.height > 2 then (textSpans pane.area pane.text).map (Span.stroke (textPen theme)) else []

/-- The lines of the text that are shown, as far as they are printed, are narrow. -/
def NarrowText (pane : PaneSnapshot) : Prop :=
  ∀ line ∈ shown pane.area pane.text, Narrow (line.take (pane.width.toNat - 2))

theorem text_borderSpans {glyph : String} {span : Span} (h : span ∈ borderSpans rect glyph) : span.text = glyph := by
  rw [borderSpans, List.mem_append, List.mem_flatMap, List.mem_flatMap] at h
  rcases h with ⟨coordinate, -, h⟩ | ⟨coordinate, -, h⟩
  all_goals
    split at h
    · rcases List.mem_cons.mp h with rfl | h
      · rfl
      · rw [List.mem_singleton.mp h]
    · rw [List.mem_singleton.mp h]

theorem narrow_borders (pane : PaneSnapshot) : ∀ span ∈ pane.borders, Narrow span.text.toList := by
  intro span hs
  rcases List.mem_append.mp hs with hs | hs
  · rw [text_borderSpans hs, toList_borderGlyph]
    cases pane.focused <;> decide +kernel
  · rw [List.mem_singleton.mp hs]
    exact narrow_fit (narrow_label _ _) _

theorem NarrowText.textSpans (h : pane.NarrowText) : ∀ span ∈ textSpans pane.area pane.text, Narrow span.text.toList := by
  intro span hs
  obtain ⟨entry, he, rfl⟩ := List.mem_map.mp hs
  have hwidth : (pane.area.width.saturatingSub 2).toNat = pane.width.toNat - 2 := UInt16.toNat_saturatingSub _ _
  rw [String.toList_ofList, hwidth]
  exact h entry.1 (List.fst_mem_of_mem_zipIdx he)

theorem NarrowText.draws (h : pane.NarrowText) (theme : Theme) : Draws (pane.queue theme) (pane.strokes theme) := by
  unfold queue strokes
  split
  · exact Draws.nil
  · refine (draws_spans pane.narrow_borders _ _).append ?_
    split
    · exact draws_spans h.textSpans _ _
    · exact Draws.nil

end PaneSnapshot

/-! ### Cells -/

theorem get_glyph {glyph : Char} {span : Span} (h : span.text.toList = [glyph]) (pen : Pen) :
    (span.stroke pen).get column row =
      if span.column.toNat = column ∧ span.row.toNat = row then some (glyph, pen) else none := by
  simp only [Stroke.get, Span.stroke, h]
  by_cases hrow : row = span.row.toNat
  · rcases Nat.lt_trichotomy column span.column.toNat with hlt | rfl | hgt
    · have h₁ : ¬span.column.toNat ≤ column := by omega
      have h₂ : span.column.toNat ≠ column := by omega
      simp [h₁, h₂]
    · simp [hrow]
    · have h₁ : span.column.toNat ≠ column := by omega
      have h₂ : [glyph].length ≤ column - span.column.toNat := Nat.sub_pos_of_lt hgt
      rw [List.getElem?_eq_none h₂]
      simp [h₁]
  · simp [hrow, Ne.symm hrow]

theorem mem_near_far {far : Prop} [Decidable far] {a b span : Span} :
    span ∈ (if far then [a, b] else [a]) ↔ span = a ∨ far ∧ span = b := by
  split <;> simp [*]

/-- The cells of a border. -/
theorem mem_borderSpans (h : rect.Fits) (hw : 0 < rect.width.toNat) (hh : 0 < rect.height.toNat) (glyph : String)
    (column row : Nat) :
    (∃ span ∈ borderSpans rect glyph, span.column.toNat = column ∧ span.row.toNat = row) ↔
      rect.contains column row = true ∧ (row = rect.y.toNat ∨ row + 1 = rect.y.toNat + rect.height.toNat ∨
        column = rect.x.toNat ∨ column + 1 = rect.x.toNat + rect.width.toNat) := by
  have hx := h.x
  have hy := h.y
  have hone : (1 : UInt16).toNat = 1 := rfl
  -- The far sides are the last column and the last row; coordinates do not wrap.
  have right : rect.width > 1 → (rect.x + (rect.width - 1)).toNat + 1 = rect.x.toNat + rect.width.toNat := toNat_last hx
  have bottom : rect.height > 1 → (rect.y + (rect.height - 1)).toNat + 1 = rect.y.toNat + rect.height.toNat :=
    toNat_last hy
  simp only [borderSpans, List.mem_append, List.mem_flatMap, mem_near_far, UInt16.mem_range,
    UInt16.toNat_saturatingAdd, Rect.contains, decide_eq_true_eq]
  simp only [gt_iff_lt, UInt16.lt_iff_toNat_lt, hone] at right bottom ⊢
  constructor
  · rintro ⟨span, ⟨x, hmem, rfl | ⟨hfar, rfl⟩⟩ | ⟨y, hmem, rfl | ⟨hfar, rfl⟩⟩, rfl, rfl⟩
    · dsimp only
      omega
    · have hlast := bottom hfar
      dsimp only
      omega
    · dsimp only
      omega
    · have hlast := right hfar
      dsimp only
      omega
  · rintro ⟨hin, hside⟩
    have hcolumn : (UInt16.ofNat column).toNat = column := UInt16.toNat_ofNat_of_lt' (show column < 65536 by omega)
    have hrow : (UInt16.ofNat row).toNat = row := UInt16.toNat_ofNat_of_lt' (show row < 65536 by omega)
    have horizontal : rect.x.toNat ≤ (UInt16.ofNat column).toNat ∧
        (UInt16.ofNat column).toNat < min (rect.x.toNat + rect.width.toNat) 65535 := by omega
    have vertical : rect.y.toNat ≤ (UInt16.ofNat row).toNat ∧
        (UInt16.ofNat row).toNat < min (rect.y.toNat + rect.height.toNat) 65535 := by omega
    rcases hside with hside | hside | hside | hside
    · exact ⟨_, Or.inl ⟨_, horizontal, Or.inl rfl⟩, hcolumn, hside.symm⟩
    -- With a single row the far side is the near one, and drawn once.
    · by_cases hfar : 1 < rect.height.toNat
      · have hlast := bottom hfar
        exact ⟨_, Or.inl ⟨_, horizontal, Or.inr ⟨hfar, rfl⟩⟩, hcolumn, by dsimp only; omega⟩
      · exact ⟨_, Or.inl ⟨_, horizontal, Or.inl rfl⟩, hcolumn, by dsimp only; omega⟩
    · exact ⟨_, Or.inr ⟨_, vertical, Or.inl rfl⟩, hside.symm, hrow⟩
    · by_cases hfar : 1 < rect.width.toNat
      · have hlast := right hfar
        exact ⟨_, Or.inr ⟨_, vertical, Or.inr ⟨hfar, rfl⟩⟩, by dsimp only; omega, hrow⟩
      · exact ⟨_, Or.inr ⟨_, vertical, Or.inl rfl⟩, by dsimp only; omega, hrow⟩

namespace PaneSnapshot

variable {pane : PaneSnapshot}

theorem paint_glyphs (h : pane.area.Fits) (hw : 0 < pane.width.toNat) (hh : 0 < pane.height.toNat) (pen : Pen) :
    paint ((borderSpans pane.area (borderGlyph pane.focused)).map (Span.stroke pen)) column row =
      if pane.area.contains column row = true ∧ pane.OnBorder column row then some (borderChar pane.focused, pen)
      else none := by
  have hget : ∀ span ∈ borderSpans pane.area (borderGlyph pane.focused), (span.stroke pen).get column row =
      if span.column.toNat = column ∧ span.row.toNat = row then some (borderChar pane.focused, pen) else none := by
    intro span hs
    exact get_glyph (by rw [text_borderSpans hs, toList_borderGlyph]) pen
  have hmem := mem_borderSpans h hw hh (borderGlyph pane.focused) column row
  split
  · next hin =>
    obtain ⟨span, hs, hplace⟩ := hmem.mpr hin
    refine paint_eq (fun stroke hstroke => ?_) (List.mem_map_of_mem hs) (by rw [hget span hs, if_pos hplace])
    obtain ⟨other, ho, rfl⟩ := List.mem_map.mp hstroke
    rw [hget other ho]
    split
    · exact Or.inr rfl
    · exact Or.inl rfl
  · next hout =>
    refine paint_eq_none fun stroke hstroke => ?_
    obtain ⟨span, hs, rfl⟩ := List.mem_map.mp hstroke
    rw [hget span hs, if_neg fun hplace => hout (hmem.mp ⟨span, hs, hplace⟩)]

theorem length_title (pane : PaneSnapshot) : pane.title.toList.length = pane.width.toNat - 2 := by
  rw [title, length_fit, UInt16.toNat_saturatingSub]
  rfl

theorem get_title (h : pane.area.Fits) (hw : 0 < pane.width.toNat) (pen : Pen) :
    ((⟨pane.x.saturatingAdd 1, pane.y, pane.title⟩ : Span).stroke pen).get column row =
      if row = pane.y.toNat ∧ pane.x.toNat < column then pane.title.toList[column - pane.x.toNat - 1]?.map (·, pen)
      else none := by
  have hx : pane.x.toNat + pane.width.toNat ≤ 65535 := h.x
  have hone : (1 : UInt16).toNat = 1 := rfl
  have hcolumn : (pane.x.saturatingAdd 1).toNat = pane.x.toNat + 1 := by
    rw [UInt16.toNat_saturatingAdd, hone]
    omega
  simp only [Stroke.get, Span.stroke, hcolumn, Nat.succ_le_iff, Nat.sub_sub]

theorem get_line (h : Roomy pane.area) {entry : List Char × Nat} (he : entry ∈ (shown pane.area pane.text).zipIdx)
    (pen : Pen) :
    ((⟨pane.area.x + 1, pane.area.y + 1 + UInt16.ofNat entry.2,
      String.ofList (entry.1.take (pane.area.width.saturatingSub 2).toNat)⟩ : Span).stroke pen).get column row =
      if row = pane.y.toNat + 1 + entry.2 ∧ pane.x.toNat < column ∧ column + 1 < pane.x.toNat + pane.width.toNat then
        entry.1[column - pane.x.toNat - 1]?.map (·, pen)
      else none := by
  have hcolumn : (pane.area.x + 1).toNat = pane.x.toNat + 1 := h.column
  have hrow : (pane.area.y + 1 + UInt16.ofNat entry.2).toNat = pane.y.toNat + 1 + entry.2 := h.row he
  have hwidth : (pane.area.width.saturatingSub 2).toNat = pane.width.toNat - 2 := UInt16.toNat_saturatingSub _ _
  simp only [Stroke.get, Span.stroke, hcolumn, hrow, hwidth, String.toList_ofList, Nat.succ_le_iff, Nat.sub_sub,
    List.getElem?_take]
  by_cases hin : column + 1 < pane.x.toNat + pane.width.toNat
  · by_cases hleft : pane.x.toNat < column
    · have hlt : column - (pane.x.toNat + 1) < pane.width.toNat - 2 := by omega
      simp [hin, hleft, hlt]
    · simp [hleft]
  · have hge : ¬column - (pane.x.toNat + 1) < pane.width.toNat - 2 := by omega
    simp [hin, hge]

theorem paint_text (h : Roomy pane.area) (pen : Pen) :
    paint ((textSpans pane.area pane.text).map (Span.stroke pen)) column row =
      if pane.y.toNat < row ∧ pane.x.toNat < column ∧ column + 1 < pane.x.toNat + pane.width.toNat then
        ((shown pane.area pane.text)[row - pane.y.toNat - 1]?.bind (·[column - pane.x.toNat - 1]?)).map (·, pen)
      else none := by
  rw [textSpans, List.map_map]
  -- A line shows nothing on another row, or beside the inside of the border.
  have hother : ∀ entry ∈ (shown pane.area pane.text).zipIdx, row ≠ pane.y.toNat + 1 + entry.2 ∨
      ¬(pane.x.toNat < column ∧ column + 1 < pane.x.toNat + pane.width.toNat) →
      ((⟨pane.area.x + 1, pane.area.y + 1 + UInt16.ofNat entry.2,
        String.ofList (entry.1.take (pane.area.width.saturatingSub 2).toNat)⟩ : Span).stroke pen).get column row = none := by
    intro entry he hne
    rw [get_line h he, if_neg]
    rintro ⟨hrow, hin⟩
    rcases hne with hne | hne
    · exact hne hrow
    · exact hne hin
  split
  · next hin =>
    cases hline : (shown pane.area pane.text)[row - pane.y.toNat - 1]? with
    | none =>
      have hlength := List.getElem?_eq_none_iff.mp hline
      refine paint_eq_none fun stroke hs => ?_
      obtain ⟨entry, he, rfl⟩ := List.mem_map.mp hs
      have hentry := List.mem_zipIdx he
      exact hother entry he (Or.inl (by omega))
    | some line =>
      have he : (line, row - pane.y.toNat - 1) ∈ (shown pane.area pane.text).zipIdx :=
        List.mem_zipIdx_iff_getElem?.mpr hline
      -- Every line with this row is this line, so the last one drawn there is.
      refine paint_eq (fun stroke hs => ?_) (List.mem_map_of_mem he) ?_
      · obtain ⟨entry, hentry, rfl⟩ := List.mem_map.mp hs
        by_cases hrow : row = pane.y.toNat + 1 + entry.2
        · have hsame := List.mem_zipIdx_iff_getElem?.mp hentry
          have hindex : row - pane.y.toNat - 1 = entry.2 := by omega
          rw [hindex] at hline
          right
          refine (get_line h hentry pen).trans ?_
          rw [if_pos ⟨hrow, hin.2⟩, Option.bind_some, Option.some.inj (hsame.symm.trans hline)]
        · exact Or.inl (hother entry hentry (Or.inl hrow))
      · refine (get_line h he pen).trans ?_
        rw [if_pos ⟨by dsimp only; omega, hin.2⟩, Option.bind_some]
  · next hout =>
    refine paint_eq_none fun stroke hs => ?_
    obtain ⟨entry, he, rfl⟩ := List.mem_map.mp hs
    refine hother entry he ?_
    by_cases hrow : row = pane.y.toNat + 1 + entry.2
    · exact Or.inr fun hin => hout ⟨by omega, hin⟩
    · exact Or.inl hrow

theorem contains_area : pane.area.contains column row = true ↔ pane.x.toNat ≤ column ∧
    column < pane.x.toNat + pane.width.toNat ∧ pane.y.toNat ≤ row ∧ row < pane.y.toNat + pane.height.toNat :=
  decide_eq_true_iff

/-- The title as far as a cell is behind its start. -/
theorem title_eq_none (hout : pane.x.toNat + pane.width.toNat ≤ column + 1) (hcolumn : pane.x.toNat < column) :
    pane.title.toList[column - pane.x.toNat - 1]? = none := by
  refine List.getElem?_eq_none ?_
  rw [length_title]
  omega

/-- The text ends above the lower side of the border. -/
theorem shown_eq_none (h : pane.y.toNat + pane.height.toNat ≤ row + 1) (hrow : pane.y.toNat < row) :
    (shown pane.area pane.text)[row - pane.y.toNat - 1]? = none := by
  have hlength : (shown pane.area pane.text).length = min (lines pane.text.toList).length (pane.height.toNat - 2) :=
    length_shown _ _
  refine List.getElem?_eq_none ?_
  omega

/-- The title covers the upper side of the border. -/
theorem paint_borders (h : pane.area.Fits) (hw : 0 < pane.width.toNat) (hh : 0 < pane.height.toNat) (pen : Pen) :
    paint (pane.borders.map (Span.stroke pen)) column row =
      if pane.InTitle column row then pane.title.toList[column - pane.x.toNat - 1]?.map (·, pen)
      else if pane.area.contains column row = true ∧ pane.OnBorder column row then some (borderChar pane.focused, pen)
      else none := by
  have htitle : paint ([(⟨pane.x.saturatingAdd 1, pane.y, pane.title⟩ : Span)].map (Span.stroke pen)) column row =
      if row = pane.y.toNat ∧ pane.x.toNat < column then pane.title.toList[column - pane.x.toNat - 1]?.map (·, pen)
      else none := (Option.none_or).trans (get_title h hw pen)
  rw [borders, List.map_append, paint_append, htitle, paint_glyphs h hw hh]
  by_cases hstart : row = pane.y.toNat ∧ pane.x.toNat < column
  · rw [if_pos hstart]
    by_cases hin : column + 1 < pane.x.toNat + pane.width.toNat
    · have hlt : column - pane.x.toNat - 1 < pane.title.toList.length := by
        rw [length_title]
        omega
      have hinside : pane.InTitle column row := ⟨hstart.1, hstart.2, hin⟩
      rw [if_pos hinside, List.getElem?_eq_getElem hlt]
      rfl
    · rw [if_neg fun htitle : pane.InTitle column row => hin htitle.2.2, title_eq_none (by omega) hstart.2]
      rfl
  · rw [if_neg hstart, if_neg fun htitle : pane.InTitle column row => hstart ⟨htitle.1, htitle.2.1⟩, Option.none_or]

/-- The text is inside of the border. -/
theorem paint_inner (h : pane.area.Fits) (pen : Pen) :
    paint (if pane.width > 2 ∧ pane.height > 2 then (textSpans pane.area pane.text).map (Span.stroke pen) else []) column
      row = if pane.area.contains column row = true ∧ ¬pane.OnBorder column row then
        ((shown pane.area pane.text)[row - pane.y.toNat - 1]?.bind (·[column - pane.x.toNat - 1]?)).map (·, pen)
      else none := by
  have htwo : (2 : UInt16).toNat = 2 := rfl
  have hinner : pane.area.contains column row = true ∧ ¬pane.OnBorder column row ↔ pane.y.toNat < row ∧
      row + 1 < pane.y.toNat + pane.height.toNat ∧ pane.x.toNat < column ∧
      column + 1 < pane.x.toNat + pane.width.toNat := by
    rw [contains_area, OnBorder]
    omega
  by_cases hroom : pane.width > 2 ∧ pane.height > 2
  · rw [if_pos hroom, paint_text (h.roomy hroom)]
    by_cases hin : pane.y.toNat < row ∧ pane.x.toNat < column ∧ column + 1 < pane.x.toNat + pane.width.toNat
    · rw [if_pos hin]
      by_cases hbottom : row + 1 < pane.y.toNat + pane.height.toNat
      · rw [if_pos (hinner.mpr ⟨hin.1, hbottom, hin.2⟩)]
      · rw [if_neg fun hall => hbottom (hinner.mp hall).2.1, shown_eq_none (by omega) hin.1]
        rfl
    · rw [if_neg hin, if_neg fun hall => hin ⟨(hinner.mp hall).1, (hinner.mp hall).2.2⟩]
  · simp only [gt_iff_lt, UInt16.lt_iff_toNat_lt, htwo] at hroom
    have hout : ¬(pane.area.contains column row = true ∧ ¬pane.OnBorder column row) := by
      rw [hinner]
      omega
    rw [if_neg hout, if_neg]
    · rfl
    · simpa only [gt_iff_lt, UInt16.lt_iff_toNat_lt, htwo] using hroom

/-- A pane draws its cells and no others. -/
theorem paint_strokes (h : pane.area.Fits) (theme : Theme) :
    paint (pane.strokes theme) column row =
      if pane.area.contains column row = true then pane.cell theme column row else none := by
  by_cases hzero : pane.width = 0 ∨ pane.height = 0
  · have hout : ¬pane.area.contains column row = true := by
      rw [contains_area]
      rcases hzero with hzero | hzero
      · have hwidth : pane.width.toNat = 0 := congrArg UInt16.toNat hzero
        omega
      · have hheight : pane.height.toNat = 0 := congrArg UInt16.toNat hzero
        omega
    rw [strokes, if_pos hzero, if_neg hout]
    rfl
  · obtain ⟨hwidth, hheight⟩ := not_or.mp hzero
    have hw : 0 < pane.width.toNat := Nat.pos_of_ne_zero fun he => hwidth (UInt16.toNat_inj.mp he)
    have hh : 0 < pane.height.toNat := Nat.pos_of_ne_zero fun he => hheight (UInt16.toNat_inj.mp he)
    rw [strokes, if_neg hzero, paint_append, paint_inner h, paint_borders h hw hh, cell]
    by_cases hin : pane.area.contains column row = true
    · have hcell := contains_area.mp hin
      have htitle : pane.InTitle column row → pane.OnBorder column row := fun htitle => Or.inl htitle.1
      by_cases hborder : pane.OnBorder column row
      · simp only [hin, hborder, not_true_eq_false, and_false, and_true, if_false, if_true, Option.none_or]
      · have hnot := mt htitle hborder
        simp only [hin, hborder, hnot, not_false_eq_true, and_self, and_false, if_false, if_true, Option.or_none]
    · have htitle : ¬pane.InTitle column row := by
        intro htitle
        obtain ⟨hrow, hleft, hright⟩ := htitle
        exact hin (contains_area.mpr (by omega))
      simp only [hin, htitle, Bool.false_eq_true, false_and, if_false, Option.none_or]

end PaneSnapshot

/-! ### Screens -/

def statusPen (theme : Theme) : Pen :=
  ⟨some (toTerminalColor theme.status), some (toTerminalColor theme.statusBackground)⟩

/-- What a screen shows in a cell: the status line in the last row, and above it what the pane that the cell belongs to
    has there. -/
def picture (size : UInt16 × UInt16) (theme : Theme) (panes : List PaneSnapshot) (status : String) (column row : Nat) :
    Option (Char × Pen) :=
  if row = size.2.toNat - 1 then (fit status size.1).toList[column]?.map (·, statusPen theme)
  else (panes.find? fun pane => pane.area.contains column row).bind fun pane => pane.cell theme column row

/-- The panes are above the status line and apart from each other. -/
structure Arranged (size : UInt16 × UInt16) (panes : List PaneSnapshot) : Prop where
  inside : ∀ pane ∈ panes, pane.area.Inside ⟨0, 0, size.1, size.2.saturatingSub 1⟩
  apart : ∀ column row, panes.countP (fun pane => pane.area.contains column row) ≤ 1

variable {size : UInt16 × UInt16} {panes : List PaneSnapshot} {status : String}

theorem area_fits (size : UInt16 × UInt16) : (⟨0, 0, size.1, size.2.saturatingSub 1⟩ : Rect).Fits := by
  have hcols := size.1.toNat_lt
  have hrows := (size.2.saturatingSub 1).toNat_lt
  constructor
  · show 0 + size.1.toNat ≤ 65535
    omega
  · show 0 + (size.2.saturatingSub 1).toNat ≤ 65535
    omega

theorem Arranged.fits (h : Arranged size panes) : ∀ pane ∈ panes, pane.area.Fits := fun pane hp =>
  (h.inside pane hp).fits (area_fits size)

/-- A cell that a pane contains is on the screen, above the status line. -/
theorem Arranged.above (h : Arranged size panes) {pane : PaneSnapshot} (hp : pane ∈ panes)
    (hin : pane.area.contains column row = true) : column < size.1.toNat ∧ row + 1 < size.2.toNat := by
  have hright : pane.x.toNat + pane.width.toNat ≤ 0 + size.1.toNat := (h.inside pane hp).right
  have hbottom : pane.y.toNat + pane.height.toNat ≤ 0 + (size.2.saturatingSub 1).toNat := (h.inside pane hp).bottom
  have hone : (1 : UInt16).toNat = 1 := rfl
  have hcell := PaneSnapshot.contains_area.mp hin
  rw [UInt16.toNat_saturatingSub, hone] at hbottom
  omega

theorem Arranged.unique (h : Arranged size panes) {pane other : PaneSnapshot} (hp : pane ∈ panes) (ho : other ∈ panes)
    (hpin : pane.area.contains column row = true) (hoin : other.area.contains column row = true) : other = pane := by
  have hle := h.apart column row
  rw [List.countP_eq_length_filter] at hle
  have hpmem : pane ∈ panes.filter fun pane => pane.area.contains column row := List.mem_filter.mpr ⟨hp, hpin⟩
  have homem : other ∈ panes.filter fun pane => pane.area.contains column row := List.mem_filter.mpr ⟨ho, hoin⟩
  obtain ⟨only, hfilter⟩ := List.length_eq_one_iff.mp (Nat.le_antisymm hle (List.length_pos_of_mem hpmem))
  rw [hfilter, List.mem_singleton] at hpmem homem
  rw [hpmem, homem]

theorem Arranged.above_found (h : Arranged size panes) {pane : PaneSnapshot}
    (hfind : panes.find? (fun pane => pane.area.contains column row) = some pane) :
    column < size.1.toNat ∧ row + 1 < size.2.toNat :=
  h.above (List.mem_of_find?_eq_some hfind) (List.find?_some (p := fun pane : PaneSnapshot => pane.area.contains column row) hfind)

/-- The panes of a screen show their cells. -/
theorem paint_panes (h : Arranged size panes) (theme : Theme) :
    paint (panes.flatMap (PaneSnapshot.strokes theme)) column row =
      (panes.find? fun pane => pane.area.contains column row).bind fun pane => pane.cell theme column row := by
  have hpaint : ∀ pane ∈ panes, paint (pane.strokes theme) column row =
      if pane.area.contains column row = true then pane.cell theme column row else none := fun pane hp =>
    PaneSnapshot.paint_strokes (h.fits pane hp) theme
  cases hfind : panes.find? fun pane => pane.area.contains column row with
  | none =>
    refine paint_flatMap_eq_none fun pane hp => ?_
    rw [hpaint pane hp, if_neg (List.find?_eq_none.mp hfind pane hp)]
  | some pane =>
    have hp := List.mem_of_find?_eq_some hfind
    have hin := List.find?_some (p := fun pane : PaneSnapshot => pane.area.contains column row) hfind
    refine paint_flatMap (fun other ho => ?_) hp (by rw [hpaint pane hp, if_pos hin]; rfl)
    rw [hpaint other ho]
    split
    · next hoin =>
      rw [h.unique hp ho hin hoin]
      exact Or.inr rfl
    · exact Or.inl rfl

theorem draws_status (hstatus : Narrow status.toList) (theme : Theme) :
    Draws [.moveTo 0 (size.2.saturatingSub 1), .setForegroundColor (toTerminalColor theme.status),
      .setBackgroundColor (toTerminalColor theme.statusBackground), .print (fit status size.1), .resetColor]
      [⟨0, size.2.toNat - 1, (fit status size.1).toList, statusPen theme⟩] := by
  intro s
  have hrow : (size.2.saturatingSub 1).toNat = size.2.toNat - 1 := UInt16.toNat_saturatingSub _ _
  have hwrite := write_eq cellWidth (fit status size.1).toList ((s.moveTo 0 (size.2.toNat - 1)).withPen (statusPen theme))
  rw [cover_narrow (narrow_fit hstatus size.1)] at hwrite
  refine Eq.trans ?_ (congrArg cells hwrite)
  rw [← hrow]
  rfl

/-- Whatever the terminal showed before, it shows the picture of the screen afterwards. -/
theorem run_screenQueue (h : Arranged size panes) (hnarrow : ∀ pane ∈ panes, pane.NarrowText)
    (hstatus : Narrow status.toList) (theme : Theme) (s : Display) (column row : Nat) :
    (s.run (screenQueue size theme panes status)).cells column row = picture size theme panes status column row := by
  have hpanes : Draws (panes.flatMap (PaneSnapshot.queue theme)) (panes.flatMap (PaneSnapshot.strokes theme)) :=
    Draws.flatMap fun pane hp => (hnarrow pane hp).draws theme
  have hopen : (s.run [.hide, .setForegroundColor (toTerminalColor theme.foreground),
      .setBackgroundColor (toTerminalColor theme.background), .clear]).cells = fun _ _ => none := rfl
  rw [screenQueue, Display.run_append, Display.run_append, draws_status hstatus, hpanes, hopen]
  simp only [overlay, Option.or_none, paint_panes h, picture]
  have hstroke : paint [(⟨0, size.2.toNat - 1, (fit status size.1).toList, statusPen theme⟩ : Stroke Char Pen)] column row =
      if row = size.2.toNat - 1 then (fit status size.1).toList[column]?.map (·, statusPen theme) else none := by
    simp [paint, latest, Stroke.get]
  rw [hstroke]
  split
  · next hlast =>
    cases hfind : panes.find? fun pane => pane.area.contains column row with
    | none => exact Option.or_none
    | some pane =>
      have habove := h.above_found hfind
      omega
  · exact Option.none_or

/-- The rectangles of a layout that leaves the last row free. -/
theorem Arranged.of_rects (node : Node)
    (h : panes.map PaneSnapshot.area = (node.rects ⟨0, 0, size.1, size.2.saturatingSub 1⟩).map Prod.snd) :
    Arranged size panes := by
  refine ⟨fun pane hp => ?_, fun column row => ?_⟩
  · have harea : pane.area ∈ panes.map PaneSnapshot.area := List.mem_map_of_mem hp
    rw [h] at harea
    obtain ⟨entry, he, hrect⟩ := List.mem_map.mp harea
    exact hrect ▸ node.rects_inside (area_fits size) entry he
  · have hareas : panes.countP (fun pane => pane.area.contains column row) =
        (panes.map PaneSnapshot.area).countP fun rect => rect.contains column row := by
      rw [List.countP_map]
      rfl
    have hrects := node.count_contains (area_fits size) column row
    rw [hareas, h, List.countP_map]
    refine hrects.trans_le ?_
    split <;> decide

theorem App.arranged (app : App) (view : View) (size : UInt16 × UInt16) : Arranged size (app.shots view size) := by
  refine Arranged.of_rects app.session.root ?_
  rw [App.shots, App.layout, Session.layout_eq, List.map_map]
  rfl

theorem App.narrow_statusText (app : App) : Narrow app.statusText.toList := by
  unfold App.statusText
  split <;> decide +kernel

theorem narrow_remoteStatus (copyMode : Bool) : Narrow (remoteStatus copyMode).toList := by
  cases copyMode <;> decide +kernel

end NovaMux

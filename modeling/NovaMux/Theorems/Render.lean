import NovaMux.Runtime.Render
import NovaMux.Theorems.Codec
import NovaMux.Lib.Except

/-! Received screens on the terminal. Nothing relates the position of a received pane to its extent: a pane that does
    not end before coordinate 65535 overflows the far side of its border, or the first column of its text. The text
    is cut by characters and not by cells, so that wide characters can reach over the border. -/

namespace NovaMux
open Str

variable {rect : Rect} {pane : PaneSnapshot} {theme : Theme} {text : String}

/-! ### Checked sums -/

/-- The last coordinate of an extent of more than one cell. -/
theorem last_isSome {α : Type} {start extent : UInt16} (h : 1 < extent) (f : UInt16 → α) :
    ((start.checkedAdd extent).bind fun stop => (stop.checkedSub 1).bind fun last => some (f last)).isSome ↔
      start.toNat + extent.toNat ≤ 65535 := by
  rw [← UInt16.checkedAdd_isSome]
  cases hsum : start.checkedAdd extent with
  | none => simp
  | some stop =>
    have hstop := UInt16.checkedAdd_eq_some.mp hsum
    have hone : (1 : UInt16).toNat = 1 := rfl
    have hextent := UInt16.lt_iff_toNat_lt.mp h
    have hlast : (stop.checkedSub 1).isSome := UInt16.checkedSub_isSome.mpr (by omega)
    obtain ⟨last, hlast⟩ := Option.isSome_iff_exists.mp hlast
    simp [hlast]

/-- One pair of sides of a border. -/
theorem sides_isSome {α : Type} {start extent across thickness : UInt16} (h : extent ≠ 0)
    {near : UInt16 → α} {both : UInt16 → UInt16 → α} :
    ((UInt16.range start (start.saturatingAdd extent)).mapM fun a =>
      if thickness > 1 then
        (across.checkedAdd thickness).bind fun stop => (stop.checkedSub 1).bind fun last => some (both a last)
      else some (near a)).isSome ↔
      thickness ≤ 1 ∨ start = 65535 ∨ across.toNat + thickness.toNat ≤ 65535 := by
  rw [Option.isSome_mapM, ← UInt16.range_saturating_eq_nil h]
  by_cases ht : thickness > 1
  · have hnot : ¬thickness ≤ 1 := UInt16.not_le.mpr ht
    simp only [if_pos ht, last_isSome ht, hnot, false_or]
    constructor
    · intro hall
      by_cases hnil : UInt16.range start (start.saturatingAdd extent) = []
      · exact Or.inl hnil
      · obtain ⟨a, ha⟩ := List.exists_mem_of_ne_nil _ hnil
        exact Or.inr (hall a ha)
    · intro hor a ha
      rcases hor with hnil | hfit
      · rw [hnil] at ha
        cases ha
      · exact hfit
  · simp [if_neg ht, UInt16.not_lt.mp ht]

/-! ### Borders and texts -/

theorem drawRemoteBorder_isSome {id : UInt64} {focused : Bool} (hw : rect.width ≠ 0) (hh : rect.height ≠ 0) :
    (drawRemoteBorder rect id focused theme).isSome ↔
      (rect.height ≤ 1 ∨ rect.x = 65535 ∨ rect.y.toNat + rect.height.toNat ≤ 65535) ∧
      (rect.width ≤ 1 ∨ rect.y = 65535 ∨ rect.x.toNat + rect.width.toNat ≤ 65535) := by
  have both : ∀ {α β γ : Type} {x : Option α} {y : Option β} {f : α → β → γ},
      (x.bind fun a => y.bind fun b => some (f a b)).isSome ↔ x.isSome ∧ y.isSome := by
    intro α β γ x y f
    cases x <;> cases y <;> simp
  rw [drawRemoteBorder, if_neg (not_or.mpr ⟨hw, hh⟩)]
  simp only [Option.bind_eq_bind, both, sides_isSome hw, sides_isSome hh]

/-- The lines of a text that are shown. -/
def shown (rect : Rect) (text : String) : List (List Char) :=
  (lines text.toList).drop ((lines text.toList).length - (rect.height.saturatingSub 2).toNat)

theorem length_shown (rect : Rect) (text : String) :
    (shown rect text).length = min (lines text.toList).length (rect.height.toNat - 2) := by
  rw [shown, List.length_drop, UInt16.toNat_saturatingSub]
  have htwo : (2 : UInt16).toNat = 2 := rfl
  omega

theorem length_shown_lt (rect : Rect) (text : String) : (shown rect text).length < 65536 := by
  have hlt := rect.height.toNat_lt
  rw [length_shown]
  omega

/-- A line of a text overflows where its column or its row does. -/
theorem line_isSome {left top : UInt16} {row : Nat} (hrow : row < 65536) {f : UInt16 → UInt16 → List Queued} :
    ((left.checkedAdd 1).bind fun x => (top.checkedAdd 1).bind fun first =>
      (first.checkedAdd (if row < 65536 then UInt16.ofNat row else 65535)).bind fun y => some (f x y)).isSome ↔
      left.toNat + 1 ≤ 65535 ∧ top.toNat + 1 + row ≤ 65535 := by
  have hone : (1 : UInt16).toNat = 1 := rfl
  have hoffset : (UInt16.ofNat row).toNat = row := UInt16.toNat_ofNat_of_lt' hrow
  rw [if_pos hrow]
  cases hx : left.checkedAdd 1 with
  | none =>
    have := mt UInt16.checkedAdd_isSome.mpr (by rw [hx]; exact Bool.false_ne_true)
    simp only [Option.bind_none, Option.isSome_none, Bool.false_eq_true, false_iff, not_and]
    omega
  | some x =>
    have := UInt16.checkedAdd_eq_some.mp hx
    have := x.toNat_lt
    cases hfirst : top.checkedAdd 1 with
    | none =>
      have := mt UInt16.checkedAdd_isSome.mpr (by rw [hfirst]; exact Bool.false_ne_true)
      simp only [Option.bind_some, Option.bind_none, Option.isSome_none, Bool.false_eq_true, false_iff, not_and]
      omega
    | some first =>
      have := UInt16.checkedAdd_eq_some.mp hfirst
      have hlast := UInt16.checkedAdd_isSome (a := first) (b := UInt16.ofNat row)
      simp only [Option.bind_some, Option.isSome_bind_some, hlast, hoffset]
      omega

theorem drawText_eq (rect : Rect) (text : String) : drawText rect text =
    ((shown rect text).zipIdx.mapM fun entry => (rect.x.checkedAdd 1).bind fun x => (rect.y.checkedAdd 1).bind fun first =>
      (first.checkedAdd (if entry.2 < 65536 then UInt16.ofNat entry.2 else 65535)).bind fun y =>
        some [.moveTo x y, .print (String.ofList (entry.1.take (rect.width.saturatingSub 2).toNat))]).bind
      fun drawn => some drawn.flatten := rfl

/-- A text overflows when it starts in the last column, or when its last line is below the last row. -/
theorem drawText_isSome : (drawText rect text).isSome ↔
    shown rect text = [] ∨ rect.x.toNat + 1 ≤ 65535 ∧ rect.y.toNat + (shown rect text).length ≤ 65535 := by
  have hlength := length_shown_lt rect text
  have hline : ∀ entry ∈ (shown rect text).zipIdx, entry.2 < (shown rect text).length := by
    intro entry he
    have := List.mem_zipIdx he
    omega
  rw [drawText_eq, Option.isSome_bind_some, Option.isSome_mapM, forall₂_congr fun entry he => line_isSome ((hline entry he).trans hlength)]
  constructor
  · intro h
    refine or_iff_not_imp_left.mpr fun hne => ?_
    have hpos := List.length_pos_of_ne_nil hne
    obtain ⟨hx, hy⟩ := h ((shown rect text)[(shown rect text).length - 1], (shown rect text).length - 1)
      (List.mem_zipIdx_iff_getElem?.mpr (List.getElem?_eq_getElem (by omega)))
    dsimp only at hy
    omega
  · intro h entry he
    have hrow := hline entry he
    rcases h with hnil | hfit
    · rw [hnil] at hrow
      exact absurd hrow (Nat.not_lt_zero _)
    · omega

/-! ### Screens -/

/-- A pane whose drawing stays within the coordinates: nothing of it is drawn, or its border ends before 65535 in both
    directions, as far as it is drawn at all, and its text does not start behind the last column. -/
def Drawable (pane : PaneSnapshot) : Prop :=
  pane.width = 0 ∨ pane.height = 0 ∨
    ((pane.height ≤ 1 ∨ pane.x = 65535 ∨ pane.y.toNat + pane.height.toNat ≤ 65535) ∧
      (pane.width ≤ 1 ∨ pane.y = 65535 ∨ pane.x.toNat + pane.width.toNat ≤ 65535)) ∧
    (pane.width ≤ 2 ∨ pane.height ≤ 2 ∨ lines pane.text.toList = [] ∨ pane.x ≠ 65535)

theorem drawPane_isSome : (drawPane theme pane).isSome ↔ Drawable pane := by
  have hthen : ∀ {α β γ : Type} {p : Prop} [Decidable p] {x : Option α} {y : Option β} {f : α → β → γ} {g : α → γ},
      (x.bind fun a => if p then y.bind fun b => some (f a b) else some (g a)).isSome ↔
        x.isSome ∧ (p → y.isSome) := by
    intro α β γ p _ x y f g
    by_cases hp : p
    · cases x <;> cases y <;> simp [hp]
    · cases x <;> simp [hp]
  rw [drawPane, Drawable]
  by_cases hzero : pane.width = 0 ∨ pane.height = 0
  · have hsmall : ¬(pane.width > 2 ∧ pane.height > 2) := by
      rintro ⟨hw, hh⟩
      rcases hzero with h | h
      · exact absurd (h ▸ hw) (by decide)
      · exact absurd (h ▸ hh) (by decide)
    rw [← or_assoc]
    simp [drawRemoteBorder, hzero, hsmall]
  · obtain ⟨hw, hh⟩ := not_or.mp hzero
    have hshown := length_shown ⟨pane.x, pane.y, pane.width, pane.height⟩ pane.text
    simp only [Option.bind_eq_bind, hthen]
    rw [drawRemoteBorder_isSome hw hh, drawText_isSome, ← List.length_eq_zero_iff, ← List.length_eq_zero_iff, hshown]
    -- What the border leaves open is whether the text starts behind the last column.
    have hzero : (0 : UInt16).toNat = 0 := rfl
    have hone : (1 : UInt16).toNat = 1 := rfl
    have htwo : (2 : UInt16).toNat = 2 := rfl
    have hmax : (65535 : UInt16).toNat = 65535 := rfl
    have hx := pane.x.toNat_lt
    simp only [gt_iff_lt, ne_eq, UInt16.lt_iff_toNat_lt, UInt16.le_iff_toNat_le, ← UInt16.toNat_inj, hzero, hone, htwo,
      hmax] at hw hh ⊢
    omega

/-- Drawing a received screen overflows nowhere exactly when each of its panes is drawable. -/
theorem render_received (size : UInt16 × UInt16) (panes : List PaneSnapshot) (copyMode : Bool) (theme : Theme) :
    (renderRemote size panes copyMode theme).isSome ↔ ∀ pane ∈ panes, Drawable pane := by
  rw [renderRemote, Option.bind_eq_bind, Option.isSome_bind_some, Option.isSome_mapM]
  simp only [drawPane_isSome]

/-- A pane two columns wide in the last column: the column of its right side does not exist. -/
theorem render_received_overflow :
    decodeResponse [78, 86, 77, 88, 1, 134, 0, 0, 0, 20, 1, 0, 0, 0, 0, 0, 0, 0, 1, 255, 255, 0, 0, 0, 2, 0, 1, 1, 0, 0] =
        .ok (.screen [⟨1, 65535, 0, 2, 1, true, ""⟩]) ∧
      renderRemote (80, 24) [⟨1, 65535, 0, 2, 1, true, ""⟩] false .defaultTheme = none := by
  refine ⟨by decide +kernel, ?_⟩
  have hpane : drawPane .defaultTheme ⟨1, 65535, 0, 2, 1, true, ""⟩ = none := by decide +kernel
  simp [renderRemote, hpane]

/-! ### Texts inside of their border -/

/-- A text that is printed, and where. -/
structure Span where
  column : UInt16
  row : UInt16
  text : String
deriving DecidableEq, Repr

def Span.queued (span : Span) : List Queued := [.moveTo span.column span.row, .print span.text]

/-- The texts that a queue prints, each behind a move to its place. -/
def spans : List Queued → List Span
  | .moveTo column row :: .print text :: queue => ⟨column, row, text⟩ :: spans queue
  | _ :: queue => spans queue
  | [] => []

theorem spans_queued (list : List Span) : spans (list.flatMap Span.queued) = list := by
  induction list with
  | nil => rfl
  | cons span list ih =>
    rw [List.flatMap_cons]
    exact congrArg (span :: ·) ih

/-- Every text stays inside of the border of a rectangle, on a row of its own. -/
structure Inside (rect : Rect) (list : List Span) : Prop where
  column : ∀ span ∈ list, span.column.toNat = rect.x.toNat + 1
  row : ∀ span ∈ list, rect.y.toNat + 1 ≤ span.row.toNat ∧ span.row.toNat + 2 ≤ rect.y.toNat + rect.height.toNat
  distinct : (list.map (·.row)).Nodup
  width : ∀ span ∈ list, displayWidth span.text + 2 ≤ rect.width.toNat

/-- No cell that a text takes is on the border of a rectangle, or outside of it. -/
def Clear (rect : Rect) (list : List Span) : Prop :=
  ∀ span ∈ list, ∀ column, span.column.toNat ≤ column → column < span.column.toNat + displayWidth span.text →
    rect.x.toNat < column ∧ column + 1 < rect.x.toNat + rect.width.toNat ∧
      rect.y.toNat < span.row.toNat ∧ span.row.toNat + 1 < rect.y.toNat + rect.height.toNat

theorem Inside.clear {list : List Span} (h : Inside rect list) : Clear rect list := by
  intro span hs column hfrom hto
  have hcolumn := h.column span hs
  have hrow := h.row span hs
  have hwidth := h.width span hs
  omega

/-- The texts of a rectangle that is on the screen. -/
def textSpans (rect : Rect) (text : String) : List Span :=
  (shown rect text).zipIdx.map fun entry =>
    ⟨rect.x + 1, rect.y + 1 + UInt16.ofNat entry.2, String.ofList (entry.1.take (rect.width.saturatingSub 2).toNat)⟩

/-- The rectangle ends on the screen, and there is room inside of its border. -/
structure Roomy (rect : Rect) : Prop where
  width : 2 < rect.width
  height : 2 < rect.height
  right : rect.x.toNat + rect.width.toNat ≤ 65535
  bottom : rect.y.toNat + rect.height.toNat ≤ 65535

theorem Roomy.sides (h : Roomy rect) : 2 < rect.width.toNat ∧ 2 < rect.height.toNat :=
  ⟨UInt16.lt_iff_toNat_lt.mp h.width, UInt16.lt_iff_toNat_lt.mp h.height⟩

theorem Roomy.column (h : Roomy rect) : (rect.x + 1).toNat = rect.x.toNat + 1 := by
  have hsides := h.sides
  have hright := h.right
  exact UInt16.toNat_add_of_le (show rect.x.toNat + 1 ≤ 65535 by omega)

/-- The rows of the lines that are shown end above the lower side of the border. -/
theorem Roomy.row_le (h : Roomy rect) {entry : List Char × Nat} (he : entry ∈ (shown rect text).zipIdx) :
    rect.y.toNat + 1 + entry.2 + 2 ≤ rect.y.toNat + rect.height.toNat := by
  have hsides := h.sides
  have hlength := length_shown rect text
  have hentry := List.mem_zipIdx he
  omega

theorem Roomy.top (h : Roomy rect) : (rect.y + 1).toNat = rect.y.toNat + 1 := by
  have hsides := h.sides
  have hbottom := h.bottom
  exact UInt16.toNat_add_of_le (show rect.y.toNat + 1 ≤ 65535 by omega)

theorem Roomy.offset (h : Roomy rect) {entry : List Char × Nat} (he : entry ∈ (shown rect text).zipIdx) :
    entry.2 < 65536 ∧ (UInt16.ofNat entry.2).toNat = entry.2 := by
  have hrow := h.row_le he
  have hbottom := h.bottom
  have hlt : entry.2 < 65536 := by omega
  exact ⟨hlt, UInt16.toNat_ofNat_of_lt' hlt⟩

theorem Roomy.row (h : Roomy rect) {entry : List Char × Nat} (he : entry ∈ (shown rect text).zipIdx) :
    (rect.y + 1 + UInt16.ofNat entry.2).toNat = rect.y.toNat + 1 + entry.2 := by
  have hrow := h.row_le he
  have hbottom := h.bottom
  rw [UInt16.toNat_add_of_le, h.top, (h.offset he).2]
  rw [h.top, (h.offset he).2]
  omega

theorem Roomy.drawText (h : Roomy rect) (text : String) :
    drawText rect text = some ((textSpans rect text).flatMap Span.queued) := by
  have hline : ∀ entry ∈ (shown rect text).zipIdx,
      ((rect.x.checkedAdd 1).bind fun x => (rect.y.checkedAdd 1).bind fun first =>
        (first.checkedAdd (if entry.2 < 65536 then UInt16.ofNat entry.2 else 65535)).bind fun y =>
          some [.moveTo x y, .print (String.ofList (entry.1.take (rect.width.saturatingSub 2).toNat))]) =
        some (Span.queued ⟨rect.x + 1, rect.y + 1 + UInt16.ofNat entry.2,
          String.ofList (entry.1.take (rect.width.saturatingSub 2).toNat)⟩) := by
    intro entry he
    have hsides := h.sides
    have hright := h.right
    have hbottom := h.bottom
    have hrow := h.row_le he
    obtain ⟨hlt, hoffset⟩ := h.offset he
    have hx : rect.x.checkedAdd 1 = some (rect.x + 1) :=
      UInt16.checkedAdd_of_le (show rect.x.toNat + 1 ≤ 65535 by omega)
    have hfirst : rect.y.checkedAdd 1 = some (rect.y + 1) :=
      UInt16.checkedAdd_of_le (show rect.y.toNat + 1 ≤ 65535 by omega)
    have hy : (rect.y + 1).checkedAdd (UInt16.ofNat entry.2) = some (rect.y + 1 + UInt16.ofNat entry.2) :=
      UInt16.checkedAdd_of_le (by rw [h.top, hoffset]; omega)
    rw [hx, Option.bind_some, hfirst, Option.bind_some, if_pos hlt, hy, Option.bind_some]
    rfl
  rw [drawText_eq, Option.mapM_eq_some hline, textSpans, List.flatMap_map]
  rfl

theorem Roomy.distinct (h : Roomy rect) (text : String) : ((textSpans rect text).map (·.row)).Nodup := by
  have hrows : ((textSpans rect text).map (·.row)).map UInt16.toNat =
      ((shown rect text).zipIdx.map Prod.snd).map (rect.y.toNat + 1 + ·) := by
    simp only [textSpans, List.map_map]
    exact List.map_congr_left fun entry he => h.row he
  refine List.Nodup.of_map UInt16.toNat ?_
  rw [hrows, List.zipIdx_map_snd]
  exact List.Nodup.map (fun a b hab => Nat.add_left_cancel hab) List.nodup_range'

/-! ### Wide characters -/

def isWide (c : Char) : Bool := cellWidth c = 2

def isZeroWidth (c : Char) : Bool := cellWidth c = 0

theorem cellWidth_le (c : Char) : cellWidth c ≤ 2 := by
  unfold cellWidth
  dsimp only
  split
  · exact Nat.zero_le _
  · split <;> decide

/-- Every character takes a cell, a wide one takes one more, and one without a width takes none. -/
theorem sum_cellWidth (text : List Char) :
    (text.map cellWidth).sum + text.countP isZeroWidth = text.length + text.countP isWide := by
  induction text with
  | nil => rfl
  | cons c text ih =>
    have hle := cellWidth_le c
    simp only [List.map_cons, List.sum_cons, List.length_cons, List.countP_cons, isWide, isZeroWidth, decide_eq_true_eq]
    split <;> split <;> omega

/-- What is left of a line has no more wide characters than characters without a width and columns that stay free. -/
def Balanced (width : Nat) (line : List Char) : Prop :=
  (line.take width).countP isWide ≤ (line.take width).countP isZeroWidth + (width - line.length)

theorem balanced_iff {width : Nat} {line : List Char} :
    Balanced width line ↔ displayWidth (String.ofList (line.take width)) ≤ width := by
  have hsum := sum_cellWidth (line.take width)
  have hlength : (line.take width).length = min width line.length := List.length_take
  rw [Balanced, displayWidth, String.toList_ofList]
  omega

/-- The text of a pane stays inside of the border exactly when each of the lines that are shown, cut behind as many
    characters as there are columns, has its wide characters made up for. -/
theorem text_inside (h : Roomy rect) (text : String) :
    (∃ queue, drawText rect text = some queue ∧ Inside rect (spans queue) ∧ Clear rect (spans queue)) ↔
      ∀ line ∈ shown rect text, Balanced (rect.width.toNat - 2) line := by
  have hsides := h.sides
  have hwidth : (rect.width.saturatingSub 2).toNat = rect.width.toNat - 2 := UInt16.toNat_saturatingSub _ _
  simp only [h.drawText, Option.some.injEq, exists_eq_left', spans_queued]
  constructor
  · intro hin line hl
    obtain ⟨row, hrow, rfl⟩ := List.mem_iff_getElem.mp hl
    have hspan := hin.1.width _ (List.mem_map_of_mem
      (List.mem_zipIdx_iff_getElem?.mpr (List.getElem?_eq_getElem hrow) : ((shown rect text)[row], row) ∈ _))
    rw [balanced_iff]
    rw [hwidth] at hspan
    dsimp only at hspan
    omega
  · intro hb
    have hin : Inside rect (textSpans rect text) := by
      refine ⟨fun span hs => ?_, fun span hs => ?_, h.distinct text, fun span hs => ?_⟩
      all_goals
        obtain ⟨entry, he, rfl⟩ := List.mem_map.mp hs
      · exact h.column
      · have hrow := h.row_le he
        rw [h.row he]
        omega
      · have hline := balanced_iff.mp (hb entry.1 (List.fst_mem_of_mem_zipIdx he))
        rw [hwidth]
        dsimp only
        omega
    exact ⟨hin, hin.clear⟩

/-- Letters that fill the columns, in two lines of which the last is shown. -/
theorem text_inside_narrow : ∃ queue, drawText ⟨0, 0, 4, 3⟩ "ls\nok" = some queue ∧
    Inside ⟨0, 0, 4, 3⟩ (spans queue) ∧ Clear ⟨0, 0, 4, 3⟩ (spans queue) := by
  refine (text_inside ⟨by decide, by decide, by decide, by decide⟩ "ls\nok").mpr fun line hl => ?_
  have hshown : shown ⟨0, 0, 4, 3⟩ "ls\nok" = ["ok".toList] := by decide +kernel
  rw [hshown, List.mem_singleton] at hl
  rw [hl]
  exact (by decide +kernel : ("ok".toList.take 2).countP isWide ≤ ("ok".toList.take 2).countP isZeroWidth + (2 - 2))

/-- A panda in a pane with room for one column. -/
theorem text_inside_wide :
    drawText ⟨0, 0, 3, 3⟩ "🐼" = some [.moveTo 1 1, .print "🐼"] ∧ displayWidth "🐼" = 2 ∧
      ¬Inside ⟨0, 0, 3, 3⟩ (spans [.moveTo 1 1, .print "🐼"]) := by
  refine ⟨by decide +kernel, by decide +kernel, fun h => ?_⟩
  have hwidth := h.width ⟨1, 1, "🐼"⟩ List.mem_cons_self
  exact absurd hwidth (by decide +kernel)

end NovaMux

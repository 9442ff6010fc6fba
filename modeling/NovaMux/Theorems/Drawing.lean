import NovaMux.Runtime.Draw
import NovaMux.Theorems.Render
import NovaMux.Theorems.Layout

/-! What the two clients draw. On a rectangle that ends on the screen both draw the same border, although they compute
    its far sides in different ways, so that the local client draws a session as the attached client draws a snapshot of
    it. The rectangles of a layout do end on the screen: nothing that the local client draws overflows. -/

namespace NovaMux

open Str

variable {rect : Rect} {theme : Theme} {focused : Bool}

/-! ### Borders -/

theorem toNat_last {start extent : UInt16} (hfit : start.toNat + extent.toNat ≤ 65535) (h : extent > 1) :
    (start + (extent - 1)).toNat + 1 = start.toNat + extent.toNat := by
  have hone : (1 : UInt16).toNat = 1 := rfl
  have hlt := UInt16.lt_iff_toNat_lt.mp h
  have hpred : (extent - 1).toNat = extent.toNat - 1 := by
    rw [UInt16.toNat_sub_of_le _ _ (UInt16.le_iff_toNat_le.mpr (by omega)), hone]
  rw [UInt16.toNat_add_of_le (by omega), hpred]
  omega

/-- The two ways to compute the last coordinate of an extent. -/
theorem last_eq {start extent : UInt16} (hfit : start.toNat + extent.toNat ≤ 65535) (h : extent > 1) :
    start.checkedAdd (extent.saturatingSub 1) = some (start + (extent - 1)) ∧
      ((start.checkedAdd extent).bind fun stop => stop.checkedSub 1) = some (start + (extent - 1)) := by
  have hone : (1 : UInt16).toNat = 1 := rfl
  have hlt := UInt16.lt_iff_toNat_lt.mp h
  have hlast := toNat_last hfit h
  constructor
  · rw [UInt16.checkedAdd_eq_some, UInt16.toNat_saturatingSub, hone]
    omega
  · have hstop : (start + extent).toNat = start.toNat + extent.toNat := UInt16.toNat_add_of_le hfit
    have hsub : 1 ≤ start + extent := UInt16.le_iff_toNat_le.mpr (by omega)
    rw [UInt16.checkedAdd_of_le hfit, Option.bind_some, UInt16.checkedSub, if_pos hsub, Option.some.injEq,
      ← UInt16.toNat_inj, UInt16.toNat_sub_of_le _ _ hsub, hstop]
    omega

/-- The glyphs of a border, with the corners in both directions. -/
def borderSpans (rect : Rect) (glyph : String) : List Span :=
  ((UInt16.range rect.x (rect.x.saturatingAdd rect.width)).flatMap fun x =>
    if rect.height > 1 then [(⟨x, rect.y, glyph⟩ : Span), ⟨x, rect.y + (rect.height - 1), glyph⟩]
    else [⟨x, rect.y, glyph⟩]) ++
  (UInt16.range rect.y (rect.y.saturatingAdd rect.height)).flatMap fun y =>
    if rect.width > 1 then [(⟨rect.x, y, glyph⟩ : Span), ⟨rect.x + (rect.width - 1), y, glyph⟩]
    else [⟨rect.x, y, glyph⟩]

def borderGlyph (focused : Bool) : String := if focused then "#" else "+"

def borderLabel (pane : UInt64) (focused : Bool) : String :=
  " pane " ++ toString pane ++ (if focused then " *" else "") ++ " "

/-- The border of a pane and its title. -/
def borderQueue (rect : Rect) (pane : UInt64) (focused : Bool) (theme : Theme) : List Queued :=
  [.setForegroundColor (toTerminalColor (if focused then theme.focusedBorder else theme.paneBorder)),
    .setBackgroundColor (toTerminalColor theme.background)] ++
  (borderSpans rect (borderGlyph focused) ++
    [(⟨rect.x.saturatingAdd 1, rect.y, fit (borderLabel pane focused) (rect.width.saturatingSub 2)⟩ : Span)]).flatMap
      Span.queued

/-- The sides that run in one direction. -/
theorem mapM_sides (coordinates : List UInt16) {start extent : UInt16} (hfit : start.toNat + extent.toNat ≤ 65535)
    (place : UInt16 → UInt16 → Span) :
    (coordinates.mapM fun coordinate =>
      if extent > 1 then (start.checkedAdd extent).bind fun stop => (stop.checkedSub 1).bind fun last =>
        some ((place coordinate start).queued ++ (place coordinate last).queued)
      else some (place coordinate start).queued) =
      some (coordinates.map fun coordinate =>
        (if extent > 1 then [place coordinate start, place coordinate (start + (extent - 1))]
          else [place coordinate start]).flatMap Span.queued) := by
  refine Option.mapM_eq_some fun coordinate _ => ?_
  split
  · next hgt =>
    rw [← Option.bind_assoc, (last_eq hfit hgt).2]
    rfl
  · rfl

theorem drawRemoteBorder_eq (h : rect.Fits) (hw : rect.width ≠ 0) (hh : rect.height ≠ 0) (pane : UInt64) :
    drawRemoteBorder rect pane focused theme = some (borderQueue rect pane focused theme) := by
  have horizontal := mapM_sides (UInt16.range rect.x (rect.x.saturatingAdd rect.width)) h.y
    fun x y => ⟨x, y, borderGlyph focused⟩
  have vertical := mapM_sides (UInt16.range rect.y (rect.y.saturatingAdd rect.height)) h.x
    fun y x => ⟨x, y, borderGlyph focused⟩
  rw [drawRemoteBorder, if_neg (not_or.mpr ⟨hw, hh⟩)]
  refine (congrArg (Option.bind · _) horizontal).trans ?_
  refine (congrArg (Option.bind · _) vertical).trans ?_
  simp only [Option.bind_some, borderQueue, borderSpans, List.flatMap_append, List.flatMap_assoc, List.append_assoc]
  rfl

/-- Both clients draw the same border. -/
theorem drawBorder_eq (h : rect.Fits) (pane : PaneId) :
    drawBorder rect pane focused theme = drawRemoteBorder rect pane.get focused theme := by
  have last : ∀ {α : Type} {start extent : UInt16} (f : UInt16 → Option α) (g : Option α),
      start.toNat + extent.toNat ≤ 65535 →
      (if extent > 1 then (start.checkedAdd (extent.saturatingSub 1)).bind f else g) =
        if extent > 1 then (start.checkedAdd extent).bind fun stop => (stop.checkedSub 1).bind f else g := by
    intro α start extent f g hfit
    split
    · next hgt =>
      obtain ⟨hfirst, hsecond⟩ := last_eq hfit hgt
      rw [← Option.bind_assoc, hfirst, hsecond]
    · rfl
  simp only [drawBorder, drawRemoteBorder, Option.bind_eq_bind, last _ _ h.x, last _ _ h.y]

/-! ### Panes -/

namespace PaneSnapshot

def area (pane : PaneSnapshot) : Rect := { x := pane.x, y := pane.y, width := pane.width, height := pane.height }

/-- What is drawn of a pane that ends on the screen. -/
def queue (theme : Theme) (pane : PaneSnapshot) : List Queued :=
  if pane.width = 0 ∨ pane.height = 0 then []
  else borderQueue pane.area pane.id pane.focused theme ++
    if pane.width > 2 ∧ pane.height > 2 then
      [.setForegroundColor (toTerminalColor theme.foreground), .setBackgroundColor (toTerminalColor theme.background)] ++
        (textSpans pane.area pane.text).flatMap Span.queued
    else []

end PaneSnapshot

theorem Rect.Fits.roomy (h : rect.Fits) (hroom : rect.width > 2 ∧ rect.height > 2) : Roomy rect :=
  ⟨hroom.1, hroom.2, h.x, h.y⟩

theorem not_roomy_of_zero {width height : UInt16} (h : width = 0 ∨ height = 0) : ¬(width > 2 ∧ height > 2) := by
  rintro ⟨hw, hh⟩
  rcases h with rfl | rfl
  · exact absurd hw (by decide)
  · exact absurd hh (by decide)

/-- The border and, where there is room, the text of a pane. -/
theorem drawn_eq (h : rect.Fits) (theme : Theme) (id : UInt64) (focused : Bool) (text : String) :
    ((drawRemoteBorder rect id focused theme).bind fun border =>
      if rect.width > 2 ∧ rect.height > 2 then (drawText rect text).bind fun drawn =>
        some (border ++ [.setForegroundColor (toTerminalColor theme.foreground),
          .setBackgroundColor (toTerminalColor theme.background)] ++ drawn)
      else some border) =
      some ((⟨id, rect.x, rect.y, rect.width, rect.height, focused, text⟩ : PaneSnapshot).queue theme) := by
  by_cases hzero : rect.width = 0 ∨ rect.height = 0
  · simp [PaneSnapshot.queue, drawRemoteBorder, hzero, not_roomy_of_zero hzero]
  · obtain ⟨hw, hh⟩ := not_or.mp hzero
    rw [drawRemoteBorder_eq h hw hh, Option.bind_some, PaneSnapshot.queue, if_neg hzero]
    by_cases hroom : rect.width > 2 ∧ rect.height > 2
    · rw [if_pos hroom, if_pos hroom, (h.roomy hroom).drawText, Option.bind_some, List.append_assoc]
      rfl
    · rw [if_neg hroom, if_neg hroom, List.append_nil]
      rfl

theorem drawPane_eq {pane : PaneSnapshot} (h : pane.area.Fits) : drawPane theme pane = some (pane.queue theme) :=
  drawn_eq h theme pane.id pane.focused pane.text

/-! ### Screens -/

/-- What is queued for a screen: its panes, and the status line below them. -/
def screenQueue (size : UInt16 × UInt16) (theme : Theme) (panes : List PaneSnapshot) (status : String) : List Queued :=
  [.hide, .setForegroundColor (toTerminalColor theme.foreground), .setBackgroundColor (toTerminalColor theme.background),
    .clear] ++ panes.flatMap (PaneSnapshot.queue theme) ++
  [.moveTo 0 (size.2.saturatingSub 1), .setForegroundColor (toTerminalColor theme.status),
    .setBackgroundColor (toTerminalColor theme.statusBackground), .print (fit status size.1), .resetColor]

def remoteStatus (copyMode : Bool) : String :=
  if copyMode then " COPY MODE (current remote viewport)  Esc/q exit "
  else " NovaMux attached  Ctrl-B [ copy | d detach | % split | \" split | o focus | x close "

theorem renderRemote_eq {panes : List PaneSnapshot} (h : ∀ pane ∈ panes, pane.area.Fits) (size : UInt16 × UInt16)
    (copyMode : Bool) : renderRemote size panes copyMode theme = some (screenQueue size theme panes (remoteStatus copyMode)) := by
  have hdrawn : panes.mapM (drawPane theme) = some (panes.map (PaneSnapshot.queue theme)) :=
    Option.mapM_eq_some fun pane hp => drawPane_eq (h pane hp)
  rw [renderRemote, hdrawn]
  rfl

namespace App

variable {app : App} {view : View} {size : UInt16 × UInt16}

/-- What a snapshot would say of a pane with the given text. -/
def shot (app : App) (entry : PaneId × Rect) (text : String) : PaneSnapshot where
  id := entry.1.get
  x := entry.2.x
  y := entry.2.y
  width := entry.2.width
  height := entry.2.height
  focused := entry.1 = app.session.focused
  text

/-- The terminals of all panes can be read. -/
def Readable (view : View) : Prop := ∀ pane, ∃ shown, view pane = .ok shown

/-- The text of a pane whose terminal can be read. -/
def textOf (app : App) (view : View) (pane : PaneId) : String := (app.text view pane).toOption.getD ""

theorem text_eq (h : Readable view) (app : App) (pane : PaneId) : app.text view pane = .ok (app.textOf view pane) := by
  obtain ⟨shown, hs⟩ := h pane
  unfold textOf text
  rw [hs]
  cases app.panes.get pane <;> rfl

/-- The panes of a layout with what their terminals show. -/
def shots (app : App) (view : View) (size : UInt16 × UInt16) : List PaneSnapshot :=
  (app.layout size).map fun entry => app.shot entry (app.textOf view entry.1)

theorem layout_fits (app : App) (size : UInt16 × UInt16) : ∀ entry ∈ app.layout size, entry.2.Fits := by
  have hcols := size.1.toNat_lt
  have hrows := (size.2.saturatingSub statusRows).toNat_lt
  have harea : (⟨0, 0, size.1, size.2.saturatingSub statusRows⟩ : Rect).Fits := by
    constructor
    · show 0 + size.1.toNat ≤ 65535
      omega
    · show 0 + (size.2.saturatingSub statusRows).toNat ≤ 65535
      omega
  rw [App.layout, Session.layout_eq]
  exact fun entry he => (app.session.root.rects_inside harea entry he).fits harea

theorem drawPane_eq (h : Readable view) {entry : PaneId × Rect} (hfit : entry.2.Fits) :
    app.drawPane theme view entry =
      some (.ok ((app.shot entry (app.textOf view entry.1)).queue theme)) := by
  obtain ⟨pane, rect⟩ := entry
  have hdrawn := congrArg (Option.map (Except.ok : List Queued → Except String (List Queued)))
    (drawn_eq hfit theme pane.get (pane = app.session.focused) (app.textOf view pane))
  rw [← drawBorder_eq hfit] at hdrawn
  refine Eq.trans ?_ hdrawn
  simp only [App.drawPane, text_eq h, Option.bind_eq_bind]
  cases drawBorder rect pane (pane = app.session.focused) theme with
  | none => rfl
  | some border =>
    simp only [Option.bind_some]
    split
    · cases drawText rect (app.textOf view pane) <;> rfl
    · rfl

theorem drawPanes_eq (h : Readable view) {layout : List (PaneId × Rect)} (hfits : ∀ entry ∈ layout, entry.2.Fits) :
    app.drawPanes theme view layout = some (.ok (layout.flatMap fun entry =>
      (app.shot entry (app.textOf view entry.1)).queue theme)) := by
  induction layout with
  | nil => rfl
  | cons entry layout ih =>
    obtain ⟨hentry, hlayout⟩ := List.forall_mem_cons.mp hfits
    simp only [drawPanes, drawPane_eq h hentry, ih hlayout, Option.bind_eq_bind, Option.bind_some]
    rfl

/-- The local client draws its session as an attached client draws a snapshot of it. -/
theorem renderPanes_eq (h : Readable view) (size : UInt16 × UInt16) (theme : Theme) :
    app.renderPanes size theme view = some (.ok (screenQueue size theme (app.shots view size) app.statusText)) := by
  rw [renderPanes, drawPanes_eq h (app.layout_fits size), shots, screenQueue, List.flatMap_map]
  rfl

end App

end NovaMux

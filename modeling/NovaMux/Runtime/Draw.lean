import NovaMux.Runtime.App
import NovaMux.Runtime.Screensaver

/-! Drawing the local client: its panes with a status line below them, or the idle artwork. What the terminals of the
    panes show is an input. As with a received screen, the terminal accepts what is queued, and there is no queue when a
    sum overflows. -/

namespace NovaMux

/-! ### Animated themes -/

/-- Animation is configured, and the terminal is not known to be dumb. -/
def animationEnabled (env : Environment) (config : Config) : Bool :=
  config.animation = .subtle && env.term ≠ some "dumb"

def pulse (color : Color) (frame : Nat) : Color :=
  let amount : UInt8 := match frame % 4 with
    | 1 | 3 => 10
    | 2 => 18
    | _ => 0
  match color with
  | .rgb red green blue =>
    .rgb (red.saturatingAdd amount) (green.saturatingAdd amount) (blue.saturatingAdd amount)
  | named => named

/-- The theme after the given number of nanoseconds. -/
def animatedTheme (config : Config) (enabled : Bool) (elapsed : Nat) : Theme :=
  if enabled = false then config.theme
  else
    let frame := elapsed / 10 ^ 6 / 125 % 2 ^ 64 % 4
    { config.theme with
      focusedBorder := pulse config.theme.focusedBorder frame
      statusBackground := pulse config.theme.statusBackground frame }

/-! ### The idle screen -/

/-- The lines of the artwork, in the middle of the screen. -/
def renderScreensaver (env : Environment) (size : UInt16 × UInt16) (config : Config) (frame : Nat)
    (animationEnabled : Bool) (elapsed : Nat) : List Queued :=
  let theme := animatedTheme config animationEnabled elapsed
  let lines := artwork config.screensaver (effectiveSceneStyle env config.sceneStyle) frame size.1 size.2
  let top := size.2.saturatingSub (.ofNatOr size.2 lines.length) / 2
  let opening : List Queued := [.hide, .setForegroundColor (toTerminalColor theme.focusedBorder),
    .setBackgroundColor (toTerminalColor theme.background), .clear]
  opening ++ lines.zipIdx.flatMap fun (line, row) =>
    let x := size.1.saturatingSub (.ofNatOr size.1 (displayWidth line)) / 2
    let y := top.saturatingAdd (.ofNatOr size.2 row)
    if y < size.2 then [.moveTo x y, .print line] else []

/-! ### Panes -/

def drawBorder (rect : Rect) (pane : PaneId) (focused : Bool) (theme : Theme) : Option (List Queued) :=
  if rect.width = 0 ∨ rect.height = 0 then some []
  else do
    let border := if focused then theme.focusedBorder else theme.paneBorder
    let glyph := if focused then "#" else "+"
    let horizontal ← (UInt16.range rect.x (rect.x.saturatingAdd rect.width)).mapM fun x =>
      if rect.height > 1 then do
        let bottom ← rect.y.checkedAdd (rect.height.saturatingSub 1)
        some [.moveTo x rect.y, .print glyph, .moveTo x bottom, .print glyph]
      else some [.moveTo x rect.y, .print glyph]
    let vertical ← (UInt16.range rect.y (rect.y.saturatingAdd rect.height)).mapM fun y =>
      if rect.width > 1 then do
        let right ← rect.x.checkedAdd (rect.width.saturatingSub 1)
        some [.moveTo rect.x y, .print glyph, .moveTo right y, .print glyph]
      else some [.moveTo rect.x y, .print glyph]
    let label := " pane " ++ toString pane.get ++ (if focused then " *" else "") ++ " "
    let colors : List Queued :=
      [.setForegroundColor (toTerminalColor border), .setBackgroundColor (toTerminalColor theme.background)]
    let title : List Queued :=
      [.moveTo (rect.x.saturatingAdd 1) rect.y, .print (fit label (rect.width.saturatingSub 2))]
    some (colors ++ horizontal.flatten ++ vertical.flatten ++ title)

/-- What a terminal shows: its screen, and the screen at an offset into its history. -/
structure Shown where
  visible : String
  viewport : UInt64 → String

/-- What the terminals of the panes show. A terminal whose lock is poisoned cannot be read. -/
abbrev View := PaneId → Except String Shown

namespace App

def statusText (app : App) : String :=
  if app.copyMode.active then " COPY MODE  ↑/k older | ↓/j newer | PgUp/PgDn page | Esc/q exit "
  else " NovaMux  Ctrl-B [ copy | % split | \" split | o focus | x close | q quit "

/-- The text of a pane, which is empty for one without a runtime. In copy mode the focused pane shows its history. -/
def text (app : App) (view : View) (pane : PaneId) : Except String String :=
  match app.panes.get pane with
  | none => .ok ""
  | some _ => (view pane).map fun shown =>
    if pane = app.session.focused ∧ app.copyMode.active then shown.viewport app.copyMode.offset else shown.visible

def drawPane (app : App) (theme : Theme) (view : View) (entry : PaneId × Rect) :
    Option (Except String (List Queued)) := do
  let (pane, rect) := entry
  let border ← drawBorder rect pane (pane = app.session.focused) theme
  if rect.width > 2 ∧ rect.height > 2 then
    match app.text view pane with
    | .error error => pure (.error error)
    | .ok text => do
      let drawn ← drawText rect text
      let colors : List Queued := [.setForegroundColor (toTerminalColor theme.foreground),
        .setBackgroundColor (toTerminalColor theme.background)]
      pure (.ok (border ++ colors ++ drawn))
  else pure (.ok border)

/-- Draws panes in turn, up to the first whose terminal cannot be read. -/
def drawPanes (app : App) (theme : Theme) (view : View) : List (PaneId × Rect) → Option (Except String (List Queued))
  | [] => some (.ok [])
  | entry :: layout => do
    match ← app.drawPane theme view entry with
    | .error error => pure (.error error)
    | .ok drawn =>
      let rest ← app.drawPanes theme view layout
      pure (rest.map (drawn ++ ·))

/-- The panes and the status line. -/
def renderPanes (app : App) (size : UInt16 × UInt16) (theme : Theme) (view : View) :
    Option (Except String (List Queued)) := do
  let drawn ← app.drawPanes theme view (app.layout size)
  let opening : List Queued := [.hide, .setForegroundColor (toTerminalColor theme.foreground),
    .setBackgroundColor (toTerminalColor theme.background), .clear]
  let statusLine : List Queued := [.moveTo 0 (size.2.saturatingSub 1),
    .setForegroundColor (toTerminalColor theme.status),
    .setBackgroundColor (toTerminalColor theme.statusBackground), .print (fit app.statusText size.1), .resetColor]
  pure (drawn.map (opening ++ · ++ statusLine))

end App

end NovaMux

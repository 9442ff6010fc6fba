import NovaMux.Core.Protocol
import NovaMux.Runtime.Config

/-! Drawing a received screen: what is queued for the terminal, which accepts all of it. Sums and differences that
    the source does not saturate are checked; there is no queue when one of them overflows. -/

namespace NovaMux

/-! ### Cells -/

/-- The number of terminal cells that a character takes. -/
def cellWidth (character : Char) : Nat :=
  let value := character.toNat
  if value == 0x200d || (0xfe00 ≤ value && value ≤ 0xfe0f) || (0x0300 ≤ value && value ≤ 0x036f) then 0
  else if (0x1100 ≤ value && value ≤ 0x115f) || (0x2e80 ≤ value && value ≤ 0xa4cf) ||
      (0xac00 ≤ value && value ≤ 0xd7a3) || (0xf900 ≤ value && value ≤ 0xfaff) ||
      (0xfe10 ≤ value && value ≤ 0xfe6f) || (0xff00 ≤ value && value ≤ 0xff60) ||
      (0x1f300 ≤ value && value ≤ 0x1faff) then 2
  else 1

def displayWidth (text : String) : Nat := (text.toList.map cellWidth).sum

/-- The first characters of a text that do not take more than `maximum` cells, `width` of which are taken. -/
def clip (maximum : Nat) : Nat → List Char → List Char
  | _, [] => []
  | width, c :: text =>
    if width + cellWidth c > maximum then [] else c :: clip maximum (width + cellWidth c) text

def clipCells (text : String) (maximum : Nat) : String := String.ofList (clip maximum 0 text.toList)

/-! ### The terminal -/

inductive TerminalColor where
  | black
  | red
  | green
  | yellow
  | blue
  | magenta
  | cyan
  | white
  | darkGrey
  | grey
  | rgb (r g b : UInt8)
deriving DecidableEq, Repr

def toTerminalColor : Color → TerminalColor
  | .black => .black
  | .red => .red
  | .green => .green
  | .yellow => .yellow
  | .blue => .blue
  | .magenta => .magenta
  | .cyan => .cyan
  | .white => .white
  | .darkGrey => .darkGrey
  | .grey => .grey
  | .rgb red green blue => .rgb red green blue

/-- A command that is queued for the terminal. -/
inductive Queued where
  | hide
  | setForegroundColor (color : TerminalColor)
  | setBackgroundColor (color : TerminalColor)
  | clear
  | moveTo (column row : UInt16)
  | print (text : String)
  | resetColor
deriving DecidableEq, Repr

/-! ### Panes -/

/-- The first characters of a text, filled up with blanks. -/
def fit (text : String) (width : UInt16) : String :=
  let value := text.toList.take width.toNat
  String.ofList (value ++ List.replicate (width.toNat - value.length) ' ')

def drawRemoteBorder (rect : Rect) (pane : UInt64) (focused : Bool) (theme : Theme) : Option (List Queued) :=
  if rect.width = 0 ∨ rect.height = 0 then some []
  else do
    let border := if focused then theme.focusedBorder else theme.paneBorder
    let glyph := if focused then "#" else "+"
    let horizontal ← (UInt16.range rect.x (rect.x.saturatingAdd rect.width)).mapM fun x =>
      if rect.height > 1 then do
        let stop ← rect.y.checkedAdd rect.height
        let bottom ← stop.checkedSub 1
        some [.moveTo x rect.y, .print glyph, .moveTo x bottom, .print glyph]
      else some [.moveTo x rect.y, .print glyph]
    let vertical ← (UInt16.range rect.y (rect.y.saturatingAdd rect.height)).mapM fun y =>
      if rect.width > 1 then do
        let stop ← rect.x.checkedAdd rect.width
        let right ← stop.checkedSub 1
        some [.moveTo rect.x y, .print glyph, .moveTo right y, .print glyph]
      else some [.moveTo rect.x y, .print glyph]
    let label := " pane " ++ toString pane ++ (if focused then " *" else "") ++ " "
    let colors : List Queued :=
      [.setForegroundColor (toTerminalColor border), .setBackgroundColor (toTerminalColor theme.background)]
    let title : List Queued :=
      [.moveTo (rect.x.saturatingAdd 1) rect.y, .print (fit label (rect.width.saturatingSub 2))]
    some (colors ++ horizontal.flatten ++ vertical.flatten ++ title)

/-- The last lines of a text, inside of the border. -/
def drawText (rect : Rect) (text : String) : Option (List Queued) := do
  let width := (rect.width.saturatingSub 2).toNat
  let height := (rect.height.saturatingSub 2).toNat
  let lines := Str.lines text.toList
  let start := lines.length - height
  let drawn ← (lines.drop start).zipIdx.mapM fun (line, row) => do
    let x ← rect.x.checkedAdd 1
    let first ← rect.y.checkedAdd 1
    let y ← first.checkedAdd (if row < 65536 then UInt16.ofNat row else 65535)
    some [Queued.moveTo x y, Queued.print (String.ofList (line.take width))]
  some drawn.flatten

def drawPane (theme : Theme) (pane : PaneSnapshot) : Option (List Queued) := do
  let rect : Rect := { x := pane.x, y := pane.y, width := pane.width, height := pane.height }
  let border ← drawRemoteBorder rect pane.id pane.focused theme
  if rect.width > 2 ∧ rect.height > 2 then do
    let text ← drawText rect pane.text
    let colors : List Queued := [.setForegroundColor (toTerminalColor theme.foreground),
      .setBackgroundColor (toTerminalColor theme.background)]
    some (border ++ colors ++ text)
  else some border

def renderRemote (size : UInt16 × UInt16) (panes : List PaneSnapshot) (copyMode : Bool) (theme : Theme) :
    Option (List Queued) := do
  let drawn ← panes.mapM (drawPane theme)
  let status :=
    if copyMode then " COPY MODE (current remote viewport)  Esc/q exit "
    else " NovaMux attached  Ctrl-B [ copy | d detach | % split | \" split | o focus | x close "
  let opening : List Queued := [.hide, .setForegroundColor (toTerminalColor theme.foreground),
    .setBackgroundColor (toTerminalColor theme.background), .clear]
  let statusLine : List Queued := [.moveTo 0 (size.2.saturatingSub 1),
    .setForegroundColor (toTerminalColor theme.status),
    .setBackgroundColor (toTerminalColor theme.statusBackground), .print (fit status size.1), .resetColor]
  some (opening ++ drawn.flatten ++ statusLine)

end NovaMux

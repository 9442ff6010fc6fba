import NovaMux.Runtime.App

/-! The event loop of the local client. Each round looks at the size of the terminal, handles at most one
    event and then closes the first pane whose shell has exited. What the terminal and the shells do is an
    input of the round; drawing and the idle screen are left out. -/

namespace NovaMux

/-! ### Terminal events -/

inductive KeyCode where
  | char (character : Char)
  | enter
  | tab
  | backTab
  | backspace
  | esc
  | up
  | down
  | right
  | left
  | home
  | end_
  | pageUp
  | pageDown
  | delete
  /-- Insert, function, lock, media and modifier keys. -/
  | other
deriving DecidableEq, Repr

inductive KeyEventKind where
  | press
  | repeated
  | release
deriving DecidableEq, Repr

structure KeyEvent where
  code : KeyCode
  /-- Whether the modifiers contain Control. -/
  control : Bool
  kind : KeyEventKind
deriving DecidableEq, Repr

inductive TerminalEvent where
  | key (key : KeyEvent)
  | resize (cols rows : UInt16)
  | mouse
  /-- A change of the terminal's focus, or a paste. -/
  | other
deriving DecidableEq, Repr

def copyModeAction (key : KeyEvent) : Option CopyModeAction :=
  match key.code with
  | .up | .char 'k' => some .olderLine
  | .down | .char 'j' => some .newerLine
  | .pageUp => some .olderPage
  | .pageDown => some .newerPage
  | .esc | .char 'q' => some .exit
  | _ => none

/-- The byte of a letter that is typed with Control. -/
def controlBytes (character : Char) : List UInt8 :=
  let lower := character.toLower.toNat
  if 'a'.toNat ≤ lower ∧ lower ≤ 'z'.toNat then [UInt8.ofNat (lower - 'a'.toNat + 1)] else []

/-- The three bytes of a control sequence that ends in a letter. -/
def sequence (letter : Char) : List UInt8 := [0x1b, '['.toUInt8, letter.toUInt8]

def keyBytes (key : KeyEvent) : List UInt8 :=
  match key.code with
  | .char character => if key.control then controlBytes character else String.utf8EncodeChar character
  | .enter => ['\r'.toUInt8]
  | .tab => ['\t'.toUInt8]
  | .backTab => sequence 'Z'
  | .backspace => [0x7f]
  | .esc => [0x1b]
  | .up => sequence 'A'
  | .down => sequence 'B'
  | .right => sequence 'C'
  | .left => sequence 'D'
  | .home => sequence 'H'
  | .end_ => sequence 'F'
  | .delete => [0x1b, '['.toUInt8, '3'.toUInt8, '~'.toUInt8]
  | .pageUp | .pageDown | .other => []

/-! ### One round -/

/-- What happens outside the client during a round. -/
structure Tick where
  /-- The event that is read, if one is there in time. -/
  event : Option TerminalEvent
  /-- The panes whose shells have exited by the end of the round. -/
  exited : List PaneId
  /-- How far the focused terminal can be scrolled back. -/
  history : UInt64
deriving DecidableEq, Repr

/-- The size that the terminal has behind the event, as the event tells it. -/
def Tick.sizeAfter (tick : Tick) (size : UInt16 × UInt16) : UInt16 × UInt16 :=
  match tick.event with
  | some (.resize cols rows) => (cols, rows)
  | _ => size

/-- A round in which a key is pressed and nothing else happens. -/
def pressed (code : KeyCode) (control : Bool) : Tick where
  event := some (.key { code, control, kind := .press })
  exited := []
  history := 0

/-- How a round goes on after its event. -/
inductive Flow where
  /-- With the exited shells. -/
  | proceed
  /-- With the next round. -/
  | skip
  /-- Not at all: the client leaves. -/
  | leave
deriving DecidableEq, Repr

namespace App

/-- Moves through the retained history of the focused pane, whose terminal may be poisoned. -/
def navigateCopyMode (app : App) (key : KeyEvent) (size : UInt16 × UInt16) (history : UInt64) (os : Os) :
    Except String Unit × App × Os :=
  match copyModeAction key with
  | none => (.ok (), app, os)
  | some action =>
    let pageRows := (max (size.2.saturatingSub (statusRows + 2)) 1).toUInt64
    match app.panes.get app.session.focused with
    | none => (.ok (), { app with copyMode := app.copyMode.apply action pageRows 0 }, os)
    | some _ =>
      match os.attempt with
      | (some fault, os) => (.error fault.message, app, os)
      | (none, os) => (.ok (), { app with copyMode := app.copyMode.apply action pageRows history }, os)

/-- Bytes go to the focused pane, if it has a runtime. -/
def forward (app : App) (bytes : List UInt8) (os : Os) : Except String Unit × App × Os :=
  match app.panes.get app.session.focused with
  | none => (.ok (), app, os)
  | some runtime =>
    match runtime.write bytes os with
    | (.error error, runtime, os) =>
      (.error error, { app with panes := app.panes.set app.session.focused runtime }, os)
    | (.ok (), runtime, os) => (.ok (), { app with panes := app.panes.set app.session.focused runtime }, os)

/-- Routes one byte of a key and returns whether the client is to leave. -/
def byte (app : App) (size : UInt16 × UInt16) (byte : UInt8) (os : Os) : Option (Except String Bool × App × Os) :=
  let (action, router) := app.router.route byte
  let app := { app with router }
  match action with
  | .pending => some (.ok false, app, os)
  | .forward bytes =>
    let (result, app, os) := app.forward bytes os
    some ((fun _ => false) <$> result, app, os)
  | .command command => app.command command size os

/-- Routes the bytes of a key in turn, up to a failure or to the command to leave. -/
def keys (size : UInt16 × UInt16) : List UInt8 → App → Os → Option (Except String Bool × App × Os)
  | [], app, os => some (.ok false, app, os)
  | byte :: bytes, app, os => do
    match ← app.byte size byte os with
    | (.ok false, app, os) => keys size bytes app os
    | (result, app, os) => pure (result, app, os)

def handle (app : App) (size : UInt16 × UInt16) (event : TerminalEvent) (history : UInt64) (os : Os) :
    Option (Except String Flow × App × Os) :=
  match event with
  | .key key =>
    if key.kind = .release then some (.ok .proceed, app, os)
    else if app.copyMode.active then
      let (result, app, os) := app.navigateCopyMode key size history os
      some ((fun _ => .skip) <$> result, app, os)
    else do
      let (result, app, os) ← keys size (keyBytes key) app os
      pure ((fun leave => if leave then .leave else .proceed) <$> result, app, os)
  | .resize cols rows =>
    let (result, app, os) := app.resized (cols, rows) os
    some ((fun _ => .proceed) <$> result, app, os)
  | .mouse | .other => some (.ok .proceed, app, os)

/-- Focuses the next pane until `pane` is focused; no result when it is not reached in the given number of
    moves. -/
def focusOn (pane : PaneId) : Nat → Session → Option Session
  | 0, session => if session.focused = pane then some session else none
  | moves + 1, session =>
    if session.focused = pane then some session
    else do
      let session ← session.focusNext
      focusOn pane moves session

/-- Closes the first pane with a shell that has exited, unless it is the last pane. -/
def reap (exited : List PaneId) : List PaneId → App → Os → Option (Except String Unit × App × Os)
  | [], app, os => some (.ok (), app, os)
  | pane :: panes, app, os =>
    if (app.panes.get pane).isSome ∧ pane ∈ exited ∧ 1 < app.session.panes.length then do
      let session ← focusOn pane app.session.panes.length app.session
      { app with session }.closeFocused os
    else reap exited panes app os

/-- One round of the event loop on a terminal of the given size. Returns whether the client leaves. -/
def round (app : App) (size : UInt16 × UInt16) (tick : Tick) (os : Os) : Option (Except String Bool × App × Os) :=
  match if size ≠ app.lastSize then app.resized size os else (.ok (), app, os) with
  | (.error error, app, os) => some (.error error, app, os)
  | (.ok (), app, os) => do
    match ← (tick.event.elim (some (.ok .proceed, app, os)) fun event => app.handle size event tick.history os) with
    | (.error error, app, os) => pure (.error error, app, os)
    | (.ok .leave, app, os) => pure (.ok true, app, os)
    | (.ok .skip, app, os) => pure (.ok false, app, os)
    | (.ok .proceed, app, os) => do
      let (result, app, os) ← reap tick.exited app.session.panes app os
      pure ((fun _ => false) <$> result, app, os)

end App

/-! ### The loop -/

/-- Whether an event loop goes on, has been left, or has ended with an error. -/
inductive Status where
  | running
  | left
  | failed
deriving DecidableEq, Repr

/-- The local client on its terminal. -/
structure Local where
  app : App
  size : UInt16 × UInt16
  os : Os
  status : Status

namespace Local

/-- The client at the head of its loop. -/
def start (app : App) (size : UInt16 × UInt16) (os : Os) : Local := { app, size, os, status := .running }

/-- A round. The terminal changes its size only with the event that tells so. No result when the loop has
    ended, or where the source would panic. -/
def step (s : Local) (tick : Tick) : Option Local :=
  if s.status = .running then do
    let (result, app, os) ← s.app.round s.size tick s.os
    let status := match result with
      | .ok false => .running
      | .ok true => .left
      | .error _ => .failed
    some { app, size := tick.sizeAfter s.size, os, status }
  else none

end Local

end NovaMux

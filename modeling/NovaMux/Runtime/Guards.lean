import NovaMux.Runtime.ConfigFile
import NovaMux.Runtime.Screen

/-! The two interactive clients from their start to their end, with the guard that takes the user's terminal over and gives
    it back on every way out. The system decides what fails: a loop that still runs behind its last round ends there, since
    the terminal fails, and what a round has queued before it failed is drawn as well. -/

namespace NovaMux

/-- What the terminal is told. -/
inductive Told where
  | enableRawMode
  | disableRawMode
  | enterAlternateScreen
  | leaveAlternateScreen
  | resetAttributes
  | show
  | queued (command : Queued)
deriving DecidableEq, Repr

/-- What the terminal refuses. A refused execution takes some of its commands before it fails. -/
structure Refusals where
  enable : Option String
  enter : Option Fault
  leave : Option Fault
  disable : Option String
deriving DecidableEq, Repr

namespace Refusals

def taken (commands : List Told) : Option Fault → List Told
  | none => commands
  | some fault => commands.take fault.accepted

def disableRawMode (refusals : Refusals) : List Told := if refusals.disable.isNone then [.disableRawMode] else []

end Refusals

/-! ### Guards -/

namespace ScreenGuard

def enter (refusals : Refusals) : Except String Unit × List Told :=
  match refusals.enable with
  | some message => (.error message, [])
  | none =>
    let told := Told.enableRawMode :: Refusals.taken [.enterAlternateScreen, .queued .hide] refusals.enter
    match refusals.enter with
    | some fault => (.error fault.message, told ++ refusals.disableRawMode)
    | none => (.ok (), told)

def drop (refusals : Refusals) : List Told :=
  Refusals.taken [.resetAttributes, .queued .resetColor, .show, .leaveAlternateScreen] refusals.leave ++
    refusals.disableRawMode

end ScreenGuard

namespace RawModeGuard

/-- The guard of a terminal that is not interactive does nothing. -/
def new (enabled : Bool) (refusals : Refusals) : Except String Unit × List Told :=
  if enabled then
    match refusals.enable with
    | some message => (.error message, [])
    | none => (.ok (), [.enableRawMode])
  else (.ok (), [])

def drop (enabled : Bool) (refusals : Refusals) : List Told := if enabled then refusals.disableRawMode else []

end RawModeGuard

/-! ### Clients -/

/-- What a client finds when it starts. -/
structure Setting where
  /-- Whether the standard input and output are terminals. -/
  interactive : Bool
  config : Except LoadError Config
  env : Environment
  size : Except String (UInt16 × UInt16)
  refusals : Refusals
  now : Nat

/-- How a client ends. -/
inductive Ended where
  | refused (message : String)
  | failed
  | left
deriving DecidableEq, Repr

def Status.ended : Status → Ended
  | .left => .left
  | .running | .failed => .failed

namespace App

/-- Terminates the shells of some panes, whatever fails. Beside the system: the shells, in order. -/
def terminateAll (panes : PaneRegistry LivePty) : List PaneId → Os → List Nat × Os
  | [], os => ([], os)
  | pane :: rest, os =>
    match panes.get pane with
    | none => terminateAll panes rest os
    | some runtime =>
      let (_, os) := runtime.terminate os
      let (children, os) := terminateAll panes rest os
      (runtime.child :: children, os)

def shutdown (app : App) (os : Os) : List Nat × Os := terminateAll app.panes app.session.panes os

end App

namespace Tui

/-- What becomes of the local client: how it ends, what the terminal has been told and which shells have been terminated in
    the end. No result where the source would panic. -/
def run (setting : Setting) (os : Os) (rounds : List Round) (unfinished : List Queued) :
    Option (Ended × List Told × List Nat) :=
  if !setting.interactive then some (.refused "novamux start requires an interactive terminal", [], [])
  else
    match setting.config with
    | .error error => some (.refused error.display, [], [])
    | .ok config =>
      match ScreenGuard.enter setting.refusals with
      | (.error error, told) => some (.refused error, told, [])
      | (.ok (), entered) =>
        let left := ScreenGuard.drop setting.refusals
        match setting.size with
        | .error error => some (.refused error, entered ++ left, [])
        | .ok size =>
          match App.new size os with
          | (.error error, _) => some (.refused error, entered ++ left, [])
          | (.ok app, os) => do
            let visuals : Visuals := { config, env := setting.env, idleAllowed := setting.interactive }
            let s ← Machine.run (LocalScreen.step visuals) (.start (.start app size os) setting.now) rounds
            let drawn := s.frames.flatten ++ unfinished
            pure (s.client.status.ended, entered ++ drawn.map .queued ++ left, (s.client.app.shutdown s.client.os).1)

end Tui

end NovaMux

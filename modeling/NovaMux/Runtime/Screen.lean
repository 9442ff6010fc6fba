import NovaMux.Runtime.Draw
import NovaMux.Runtime.RunAttached

/-! The event loops with their screens. Each round first draws, the panes or the idle screen, and a key that dismisses
    the idle screen does nothing else. The clock and what the terminals show are inputs of the round, beside its event.
    Instants are nanoseconds. -/

namespace NovaMux

/-- What the screen of a client depends on from its start on. -/
structure Visuals where
  config : Config
  env : Environment
  /-- Whether the standard input and output are terminals. -/
  idleAllowed : Bool

/-- What the clock says in a round. -/
structure Clock where
  /-- When the round is drawn. -/
  now : Nat
  /-- The time since the start of the animation then. -/
  elapsed : Nat
  /-- When its event is handled. -/
  input : Nat
deriving DecidableEq, Repr

structure Round where
  tick : Tick
  clock : Clock
  view : View

/-! ### The local client -/

namespace App

/-- Draws the idle screen when it is due, and the panes otherwise. -/
def render (app : App) (visuals : Visuals) (idle : IdleState) (size : UInt16 × UInt16) (clock : Clock) (view : View) :
    Option (Except String (List Queued) × IdleState) :=
  let config := visuals.config
  let animated := animationEnabled visuals.env config
  let (active, idle) := idle.update clock.now config.screensaver config.idleSeconds visuals.idleAllowed
  if active then
    some (.ok (renderScreensaver visuals.env size config (idle.frame clock.now) animated clock.elapsed), idle)
  else do
    let drawn ← app.renderPanes size (animatedTheme config animated clock.elapsed) view
    pure (drawn, idle)

/-- Handles an event unless it is a key that dismisses the idle screen. -/
def handleAwake (app : App) (idle : IdleState) (size : UInt16 × UInt16) (event : TerminalEvent) (input : Nat)
    (history : UInt64) (os : Os) : Option (Except String Flow × App × IdleState × Os) :=
  match event with
  | .key key =>
    if key.kind = .release then some (.ok .proceed, app, idle, os)
    else
      let (consumed, idle) := idle.input input
      if consumed then some (.ok .skip, app, idle, os)
      else do
        let (result, app, os) ← app.handle size (.key key) history os
        pure (result, app, idle, os)
  | .resize cols rows => do
    let (result, app, os) ← app.handle size (.resize cols rows) history os
    pure (result, app, idle, os)
  | .mouse => some (.ok .proceed, app, (idle.input input).2, os)
  | .other => some (.ok .proceed, app, idle, os)

end App

/-- The local client with its screen. -/
structure LocalScreen where
  client : Local
  idle : IdleState
  /-- What has been drawn, round by round. -/
  frames : List (List Queued)

namespace LocalScreen

/-- The client at the head of its loop. -/
def start (client : Local) (now : Nat) : LocalScreen := { client, idle := .new now, frames := [] }

/-- The client behind a round. -/
def after (s : LocalScreen) (size : UInt16 × UInt16) (result : Except String Bool) (app : App) (idle : IdleState)
    (os : Os) : LocalScreen :=
  let status := match result with
    | .ok false => .running
    | .ok true => .left
    | .error _ => .failed
  { s with client := { app, size, os, status }, idle }

/-- A round. No result when the loop has ended, or where the source would panic. -/
def step (visuals : Visuals) (s : LocalScreen) (round : Round) : Option LocalScreen :=
  if s.client.status = .running then
    let size := s.client.size
    let sizeAfter := round.tick.sizeAfter size
    match if size ≠ s.client.app.lastSize then s.client.app.resized size s.client.os
      else (.ok (), s.client.app, s.client.os) with
    | (.error error, app, os) => some (s.after sizeAfter (.error error) app s.idle os)
    | (.ok (), app, os) => do
      match ← app.render visuals s.idle size round.clock round.view with
      | (.error error, idle) => pure (s.after sizeAfter (.error error) app idle os)
      | (.ok frame, idle) => do
        let s := { s with frames := s.frames ++ [frame] }
        match ← (round.tick.event.elim (some (.ok .proceed, app, idle, os)) fun event =>
          app.handleAwake idle size event round.clock.input round.tick.history os) with
        | (.error error, app, idle, os) => pure (s.after sizeAfter (.error error) app idle os)
        | (.ok .leave, app, idle, os) => pure (s.after sizeAfter (.ok true) app idle os)
        | (.ok .skip, app, idle, os) => pure (s.after sizeAfter (.ok false) app idle os)
        | (.ok .proceed, app, idle, os) => do
          let (result, app, os) ← app.reap round.tick.exited app.session.panes os
          pure (s.after sizeAfter ((fun _ => false) <$> result) app idle os)
  else none

end LocalScreen

/-! ### The attached client -/

/-- An attached client with its screen. -/
structure AttachedScreen where
  client : Attached
  size : UInt16 × UInt16
  idle : IdleState
  frames : List (List Queued)

namespace AttachedScreen

def start (client : Attached) (size : UInt16 × UInt16) (now : Nat) : AttachedScreen :=
  { client, size, idle := .new now, frames := [] }

/-- What a round draws: the idle screen, or the panes of the last response if that is a screen. -/
def render (visuals : Visuals) (s : AttachedScreen) (active : Bool) (clock : Clock) : Option (Option (List Queued)) :=
  let config := visuals.config
  let animated := animationEnabled visuals.env config
  if active then
    some (some (renderScreensaver visuals.env s.size config (s.idle.frame clock.now) animated clock.elapsed))
  else
    match s.client.response with
    | .screen panes =>
      (renderRemote s.size panes s.client.copyMode.active (animatedTheme config animated clock.elapsed)).map some
    | _ => some none

variable (c : ConnId) (name : SessionName)

/-- Handles an event unless it is a key that dismisses the idle screen. -/
def handle (s : AttachedScreen) (event : TerminalEvent) (input : Nat) : Option AttachedScreen :=
  match event with
  | .key key =>
    if key.kind = .release then some s
    else
      let (consumed, idle) := s.idle.input input
      let s := { s with idle }
      if consumed then some s
      else do
        let client ← s.client.handle c name (.key key)
        pure { s with client }
  | .resize cols rows => do
    let client ← s.client.handle c name (.resize cols rows)
    pure { s with client, size := (cols, rows) }
  | .mouse => some { s with idle := (s.idle.input input).2 }
  | .other => some s

/-- A round. No result when the loop has ended, or where the source would panic. -/
def step (visuals : Visuals) (s : AttachedScreen) (round : Round) : Option AttachedScreen :=
  if s.client.status = .running then do
    let (active, idle) := s.idle.update round.clock.now visuals.config.screensaver visuals.config.idleSeconds
      visuals.idleAllowed
    let s := { s with idle }
    match ← s.render visuals active round.clock with
    | none => pure { s with client := { s.client with status := .failed } }
    | some frame =>
      let s := { s with frames := s.frames ++ [frame] }
      match round.tick.event with
      | none => do
        let client ← s.client.request c .snapshot
        pure { s with client }
      | some event => s.handle c name event round.clock.input
  else none

end AttachedScreen

end NovaMux

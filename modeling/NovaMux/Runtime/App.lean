import NovaMux.Core.CopyMode
import NovaMux.Core.Input
import NovaMux.Runtime.LivePty

/-! The local multiplexer client: the same pane operations as a hosted session, on PTYs that the client
    owns itself. Errors are the texts of the boxed errors of the source. -/

namespace NovaMux

def statusRows : UInt16 := 1

structure App where
  session : Session
  panes : PaneRegistry LivePty
  router : InputRouter
  lastSize : UInt16 × UInt16
  copyMode : CopyMode

namespace App

def layout (app : App) (size : UInt16 × UInt16) : List (PaneId × Rect) :=
  app.session.layout { x := 0, y := 0, width := size.1, height := size.2.saturatingSub statusRows }

def resizePanes (app : App) (size : UInt16 × UInt16) (os : Os) : Except String Unit × App × Os :=
  let (result, panes, os) := resizeRuntimes (app.layout size) app.panes os
  (result, { app with panes }, os)

/-- The client of a terminal of the given size. -/
def new (size : UInt16 × UInt16) (os : Os) : Except String App × Os :=
  let session := Session.new ⟨"local", by decide, by decide, by decide⟩
  match PaneRegistry.new.reconcile session (fun _ => LivePty.spawn (.new 2 2)) os with
  | (.error error, _, os) => (.error error, os)
  | (.ok _, panes, os) =>
    let app : App := { session, panes, router := .new, lastSize := size, copyMode := .default }
    match app.resizePanes size os with
    | (.error error, _, os) => (.error error, os)
    | (.ok (), app, os) => (.ok app, os)

/-- The session that it starts with. -/
def localSession : Session := .new ⟨"local", by decide, by decide, by decide⟩

def split (app : App) (direction : SplitDirection) (size : UInt16 × UInt16) (os : Os) :
    Option (Except String Unit × App × Os) := do
  let (_, candidate) ← app.session.splitFocused direction
  match app.panes.reconcile candidate (fun _ => LivePty.spawn (.new 2 2)) os with
  | (.error error, panes, os) => pure (.error error, { app with panes }, os)
  | (.ok _, panes, os) => pure ({ app with panes, session := candidate }.resizePanes size os)

def closeFocused (app : App) (os : Os) : Option (Except String Unit × App × Os) := do
  let (closed, session) ← app.session.closeFocused
  let app := { app with session }
  if closed then
    match app.panes.reconcile session (fun _ => LivePty.spawn (.new 2 2)) os with
    | (.error error, panes, os) => pure (.error error, { app with panes }, os)
    | (.ok removed, panes, os) =>
      let (result, os) := terminateRuntimes removed os
      pure (result, { app with panes }, os)
  else pure (.ok (), app, os)

/-- Runs a command and returns whether the client is to leave. -/
def command (app : App) (command : MultiplexerCommand) (size : UInt16 × UInt16) (os : Os) :
    Option (Except String Bool × App × Os) :=
  match command with
  | .splitHorizontal => do
    let (result, app, os) ← app.split .horizontal size os
    pure ((fun _ => false) <$> result, app, os)
  | .splitVertical => do
    let (result, app, os) ← app.split .vertical size os
    pure ((fun _ => false) <$> result, app, os)
  | .focusNext => do
    let session ← app.session.focusNext
    pure (.ok false, { app with session }, os)
  | .closeFocused => do
    let (result, app, os) ← app.closeFocused os
    pure ((fun _ => false) <$> result, app, os)
  | .enterCopyMode => some (.ok false, { app with copyMode := app.copyMode.enter }, os)
  | .detach | .quit => some (.ok true, app, os)

def resized (app : App) (size : UInt16 × UInt16) (os : Os) : Except String Unit × App × Os :=
  match app.resizePanes size os with
  | (.error error, app, os) => (.error error, app, os)
  | (.ok (), app, os) => (.ok (), { app with lastSize := size }, os)

end App

end NovaMux

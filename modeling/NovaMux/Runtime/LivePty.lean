import NovaMux.Core.Registry

/-! Live pane PTYs. The operating system decides whether an operation succeeds and what a shell has printed
    so far: `Os` lists its answers, in the order in which they will be asked for. An operation that fails
    half way keeps what it did before the failure. -/

namespace NovaMux

/-- Dimensions of one terminal pane in character cells. -/
structure TerminalSize where
  rows : UInt16
  cols : UInt16
deriving DecidableEq, Repr

/-- Creates a non-empty terminal size. -/
def TerminalSize.new (rows cols : UInt16) : TerminalSize where
  rows := if rows = 0 then 1 else rows
  cols := if cols = 0 then 1 else cols

/-- Why an operation failed, and how many bytes a failed write had handed over. -/
structure Fault where
  message : String
  accepted : Nat
deriving DecidableEq, Repr

structure Os where
  /-- The number of shells started so far. -/
  spawned : Nat
  /-- The outcome of each operation to come; those after the last one succeed. -/
  faults : List (Option Fault)
  /-- The visible text at each reading of a terminal to come; those after the last one are empty. -/
  screens : List String
deriving DecidableEq, Repr

namespace Os

def attempt (os : Os) : Option Fault × Os :=
  match os.faults with
  | [] => (none, os)
  | outcome :: faults => (outcome, { os with faults })

def screen (os : Os) : String × Os :=
  match os.screens with
  | [] => ("", os)
  | text :: screens => (text, { os with screens })

end Os

/-- A live shell, the size of its PTY and that of its parsed terminal, and the bytes written to it. -/
structure LivePty where
  child : Nat
  master : TerminalSize
  terminal : TerminalSize
  written : List UInt8
deriving DecidableEq, Repr

namespace LivePty

def spawn (size : TerminalSize) (os : Os) : Except String LivePty × Os :=
  match os.attempt with
  | (some fault, os) => (.error fault.message, os)
  | (none, os) =>
    (.ok { child := os.spawned, master := size, terminal := size, written := [] },
      { os with spawned := os.spawned + 1 })

def write (runtime : LivePty) (bytes : List UInt8) (os : Os) : Except String Unit × LivePty × Os :=
  match os.attempt with
  | (some fault, os) =>
    (.error fault.message, { runtime with written := runtime.written ++ bytes.take fault.accepted }, os)
  | (none, os) => (.ok (), { runtime with written := runtime.written ++ bytes }, os)

/-- Resizes the operating-system PTY, then the parsed terminal buffer, whose lock may be poisoned. -/
def resize (runtime : LivePty) (size : TerminalSize) (os : Os) : Except String Unit × LivePty × Os :=
  match os.attempt with
  | (some fault, os) => (.error fault.message, runtime, os)
  | (none, os) =>
    let runtime := { runtime with master := size }
    match os.attempt with
    | (some fault, os) => (.error fault.message, runtime, os)
    | (none, os) => (.ok (), { runtime with terminal := size }, os)

/-- The visible text of the terminal, whose lock may be poisoned. -/
def visibleText (_runtime : LivePty) (os : Os) : Except String String × Os :=
  match os.attempt with
  | (some fault, os) => (.error fault.message, os)
  | (none, os) =>
    let (text, os) := os.screen
    (.ok text, os)

/-- Terminates the child shell, which is dropped afterwards. -/
def terminate (_runtime : LivePty) (os : Os) : Except String Unit × Os :=
  match os.attempt with
  | (some fault, os) => (.error fault.message, os)
  | (none, os) => (.ok (), os)

end LivePty

/-- The size of the terminal inside the border of a rectangle. -/
def contentSize (rect : Rect) : TerminalSize :=
  TerminalSize.new (max (rect.height.saturatingSub 2) 2) (max (rect.width.saturatingSub 2) 2)

/-- Resizes the runtimes of a layout in turn, up to the first failure. -/
def resizeRuntimes : List (PaneId × Rect) → PaneRegistry LivePty → Os →
    Except String Unit × PaneRegistry LivePty × Os
  | [], panes, os => (.ok (), panes, os)
  | (pane, rect) :: layout, panes, os =>
    match panes.get pane with
    | none => resizeRuntimes layout panes os
    | some runtime =>
      match runtime.resize (contentSize rect) os with
      | (.error error, runtime, os) => (.error error, panes.set pane runtime, os)
      | (.ok (), runtime, os) => resizeRuntimes layout (panes.set pane runtime) os

/-- Terminates the runtimes of removed panes in turn, up to the first failure. -/
def terminateRuntimes : List (PaneId × LivePty) → Os → Except String Unit × Os
  | [], os => (.ok (), os)
  | (_, runtime) :: removed, os =>
    match runtime.terminate os with
    | (.error error, os) => (.error error, os)
    | (.ok (), os) => terminateRuntimes removed os

end NovaMux

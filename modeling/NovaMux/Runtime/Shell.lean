import NovaMux.Runtime.Commands
import NovaMux.Runtime.Guards
import NovaMux.Runtime.Terminal

/-! One shell without panes, on a PTY between the user's terminal and two threads: one copies what the shell prints and the
    other one what the user types. The main thread looks after the shell and the size of the terminal, and in the end waits
    for the first of the threads, but not for the second. The threads interleave at their reads. -/

namespace NovaMux

open ByteStream

/-- The size of the terminal, or the usual one when it is not known. -/
def currentPtySize (size : Option (UInt16 × UInt16)) : TerminalSize :=
  let (cols, rows) := size.getD (80, 24)
  { rows := max rows 1, cols := max cols 1 }

/-- A thread that copies, how it has ended, and where the bytes go. -/
structure Copier where
  started : Bool
  ended : Option (Except IoError Unit)
  sink : Output
deriving DecidableEq

namespace Copier

def running (copier : Copier) : Bool := copier.started && copier.ended.isNone

/-- A thread that runs, with what its next read returns. -/
def reads (copier : Copier) (event : Event) : Copier :=
  let (ended, sink) := copyAndFlush [event] copier.sink
  { copier with ended, sink }

end Copier

def ioMessage : IoError → String
  | .unexpectedEof => "failed to fill whole buffer"
  | .other message => message

/-- What comes of the calls between the guard and the loop. -/
inductive Setup where
  | ready
  /-- Neither of the threads has been started. -/
  | refused (message : String)
  /-- Only the thread that copies what the shell prints has been started. -/
  | halfway (message : String)
deriving DecidableEq, Repr

/-- Where the main thread is. -/
inductive ShellPhase where
  /-- Before it asks whether the shell has ended. -/
  | polling
  /-- Before it asks for the size of the terminal. -/
  | measuring
  /-- Behind the end of the shell, before it joins the thread that copies what the shell has printed. -/
  | joining (status : UInt32)
  | returned (result : Except String UInt8)
deriving DecidableEq

structure Shell where
  interactive : Bool
  refusals : Refusals
  /-- What the user's terminal has been told, apart from what the shell prints. -/
  told : List Told
  /-- The size of the PTY. -/
  master : TerminalSize
  lastSize : TerminalSize
  output : Copier
  input : Copier
  phase : ShellPhase
deriving DecidableEq

namespace Shell

/-- The exit code of the program, which has one byte. -/
def exitCode (status : UInt32) : UInt8 := if status.toNat < 256 then UInt8.ofNat status.toNat else 1

/-- Returns and drops the guard. -/
def finish (s : Shell) (result : Except String UInt8) : Shell :=
  { s with phase := .returned result, told := s.told ++ RawModeGuard.drop s.interactive s.refusals }

/-- The shell at the head of the loop, or behind what has failed before. -/
def start (interactive : Bool) (refusals : Refusals) (size : Option (UInt16 × UInt16)) (setup : Setup)
    (stdout pty : Output) : Shell :=
  let (entered, told) := RawModeGuard.new interactive refusals
  let initialSize := currentPtySize size
  let idle : Shell :=
    { interactive, refusals, told, master := initialSize, lastSize := initialSize
      output := { started := false, ended := none, sink := stdout }
      input := { started := false, ended := none, sink := pty }, phase := .polling }
  match entered with
  | .error error => { idle with phase := .returned (.error error) }
  | .ok () =>
    match setup with
    | .refused message => idle.finish (.error message)
    | .halfway message => { idle with output.started := true }.finish (.error message)
    | .ready => { idle with output.started := true, input.started := true }

inductive Action where
  /-- The shell prints, or its output ends. -/
  | print (event : Event)
  /-- The user types, or the standard input ends. -/
  | type (event : Event)
  /-- The main thread asks whether the shell has ended. -/
  | tryWait (outcome : Except String (Option UInt32))
  /-- The main thread asks for the size; to resize the PTY may fail. -/
  | measure (size : Option (UInt16 × UInt16)) (fault : Option String)
  | join
deriving DecidableEq

def step (s : Shell) : Action → Option Shell
  | .print event => if s.output.running then some { s with output := s.output.reads event } else none
  | .type event => if s.input.running then some { s with input := s.input.reads event } else none
  | .tryWait outcome =>
    match s.phase with
    | .polling =>
      match outcome with
      | .error error => some (s.finish (.error error))
      | .ok (some status) => some { s with phase := .joining status }
      | .ok none => some { s with phase := .measuring }
    | _ => none
  | .measure told fault =>
    match s.phase with
    | .measuring =>
      let size := currentPtySize told
      if size ≠ s.lastSize then
        match fault with
        | some error => some (s.finish (.error error))
        | none => some { s with master := size, lastSize := size, phase := .polling }
      else some { s with phase := .polling }
    | _ => none
  | .join =>
    match s.phase, s.output.ended with
    | .joining status, some (.ok ()) => some (s.finish (.ok (exitCode status)))
    | .joining _, some (.error error) => some (s.finish (.error (ioMessage error)))
    | _, _ => none

end Shell

/-- What `novamux shell` leaves behind when its main thread has returned. -/
def Commands.runShell (result : Except String UInt8) : Printed :=
  let entering := "NovaMux: entering PTY shell (type 'exit' or press Control-D to return)\n"
  match result with
  | .ok code => { out := "", err := entering ++ "NovaMux: PTY shell closed\n", code }
  | .error error => failure (entering ++ "NovaMux shell failed: " ++ error ++ "\n")

end NovaMux

import Mathlib.Control.Monad.Basic

/-! The shell of a live pane as a process, with its owner and the thread that reads what it prints. The process and the
    thread end on their own; a call of the owner is several calls of the system, and each of them may fail. -/

namespace NovaMux

/-- A child process. It stays until it has been reaped, and its identifier is not given to another process before that; so
    it is where the signal of its end is not ignored. -/
inductive ChildState where
  | running
  | exited (status : UInt32)
  | reaped (status : UInt32)
deriving DecidableEq, Repr

namespace ChildState

def exit (status : UInt32) : ChildState → ChildState
  | .running => .exited status
  | child => child

def reap : ChildState → ChildState
  | .exited status => .reaped status
  | child => child

/-- Asks whether a child has ended, which reaps it. The handle remembers the status of a child that has been reaped. -/
def tryWait (child : ChildState) (fault : Option String) : Except String (Option UInt32) × ChildState :=
  match child, fault with
  | .reaped status, _ => (.ok (some status), .reaped status)
  | child, some message => (.error message, child)
  | .exited status, none => (.ok (some status), .reaped status)
  | .running, none => (.ok none, .running)

end ChildState

/-- Which of the two calls ends the child. -/
inductive Ending where
  | terminate
  | drop
deriving DecidableEq, Repr

/-- Where the owner of a live pane is. -/
inductive Owner where
  | idle
  /-- The child has not been found to have ended. -/
  | killing (ending : Ending)
  | waiting (ending : Ending)
  /-- Before it joins the reader. -/
  | joining (ending : Ending)
  | dropped
deriving DecidableEq, Repr

structure PaneProcess where
  child : ChildState
  /-- How the thread that reads has ended. -/
  reader : Option (Except String Unit)
  /-- Whether the owner still has the handle of the reader, which it gives away to join it. -/
  readerThread : Bool
  owner : Owner
  /-- What the last termination has returned. -/
  terminated : Option (Except String Unit)
deriving DecidableEq

namespace PaneProcess

def spawned : PaneProcess :=
  { child := .running, reader := none, readerThread := true, owner := .idle, terminated := none }

/-- Terminating returns. -/
def terminates (s : PaneProcess) (result : Except String Unit) : PaneProcess :=
  { s with owner := .idle, terminated := some result }

inductive Action where
  /-- The child ends. -/
  | exit (status : UInt32)
  /-- The reader ends. -/
  | readerEnds (result : Except String Unit)
  | tryWait (fault : Option String)
  | terminate (fault : Option String)
  | drop (fault : Option String)
  /-- A signal is sent; the child may be reaped before the call returns. -/
  | kill (outcome : Except String (Option UInt32))
  | wait (fault : Option String)
  | join
deriving DecidableEq

def step (s : PaneProcess) : Action → Option PaneProcess
  | .exit status => if s.child = .running then some { s with child := .exited status } else none
  | .readerEnds result => if s.reader = none then some { s with reader := some result } else none
  | .tryWait fault => if s.owner = .idle then some { s with child := (s.child.tryWait fault).2 } else none
  | .terminate fault =>
    if s.owner = .idle then
      match s.child.tryWait fault with
      | (.error error, child) => some ({ s with child }.terminates (.error error))
      | (.ok none, child) => some { s with child, owner := .killing .terminate }
      | (.ok (some _), child) => some { s with child, owner := .joining .terminate }
    else none
  | .drop fault =>
    if s.owner = .idle then
      match s.child.tryWait fault with
      | (.ok (some _), child) => some { s with child, owner := .joining .drop }
      | (_, child) => some { s with child, owner := .killing .drop }
    else none
  | .kill outcome =>
    match s.owner, outcome with
    | .killing .terminate, .error error => some (s.terminates (.error error))
    | .killing .drop, .error _ => some { s with owner := .waiting .drop }
    | .killing ending, .ok none => some { s with owner := .waiting ending }
    | .killing ending, .ok (some status) =>
      some { s with child := (s.child.exit status).reap, owner := .waiting ending }
    | _, _ => none
  | .wait fault =>
    match s.owner, fault with
    | .waiting .terminate, some error => some (s.terminates (.error error))
    | .waiting .drop, some _ => some { s with owner := .joining .drop }
    | .waiting ending, none =>
      if s.child = .running then none else some { s with child := s.child.reap, owner := .joining ending }
    | _, _ => none
  | .join =>
    match s.owner with
    | .joining ending =>
      let result := if s.readerThread then s.reader else some (.ok ())
      result.map fun result =>
        match ending with
        | .terminate => { s with readerThread := false }.terminates result
        | .drop => { s with readerThread := false, owner := .dropped }
    | _ => none

end PaneProcess

end NovaMux

import NovaMux.Runtime.Link
import NovaMux.Runtime.Endpoint

/-! The session service of one user: processes that run the daemon entry point on one runtime directory, each with
    sessions of its own once it holds the endpoint, and clients that connect to whatever listens at the control path. A
    daemon accepts connections while it serves, and its threads go on as long as its process does. -/

namespace NovaMux

structure Host (n : Nat) where
  dir : RuntimeDir n
  daemon : Fin n → Daemon
  /-- The process that a connection has reached. -/
  peer : ConnId → Option (Fin n)

namespace Host

variable {n : Nat}

def start (n euid : Nat) (control : Option Metadata) (os : Fin n → Os) : Host n where
  dir := .start n euid control
  daemon i := .start (os i)
  peer _ := none

inductive Action (n : Nat) where
  /-- A process binds, holds or drops its endpoint. -/
  | endpoint (a : RuntimeDir.Action n)
  /-- A client connects to the control path. -/
  | connect (c : ConnId)
  /-- A daemon or the client of one of its connections goes on. -/
  | serve (i : Fin n) (a : Daemon.Action)
deriving DecidableEq

/-- The process behind the object at the control path. -/
def reached (s : Host n) : Option (Fin n) := do
  let metadata ← s.dir.control
  (List.finRange n).find? fun i => (s.dir.starter i).listener = some metadata.ino

/-- Whether a process accepts connections in `run_daemon`. -/
def accepts (s : Host n) (i : Fin n) : Bool :=
  match s.dir.starter i with
  | .serving _ _ => true
  | _ => false

/-- Whether an action of the daemon of a process can be taken now. -/
def lets (s : Host n) (i : Fin n) : Daemon.Action → Bool
  | .accept _ => s.accepts i
  | _ => (s.dir.starter i).listener.isSome

def step (s : Host n) : Action n → Option (Host n)
  | .endpoint a => do
    let dir ← s.dir.step a
    some { s with dir }
  | .connect c => do
    let i ← s.reached
    if s.peer c = none then some { s with peer := fun d => if d = c then some i else s.peer d } else none
  | .serve i a =>
    if s.lets i a ∧ s.peer a.conn = some i then do
      let daemon ← (s.daemon i).step a
      some { s with daemon := fun j => if j = i then daemon else s.daemon j }
    else none

end Host

end NovaMux

import Mathlib.Logic.Function.Basic
import Mathlib.Data.List.FinRange

/-! The control endpoint of the daemon: processes of one user that run `LocalEndpoint::bind` on one private
    runtime directory, hold the endpoint and drop it. They share the object at the control path and
    interleave at their system calls. Binding creates a new object and listens on it at once; a process
    that ends closes its listener and leaves the path as it is. -/

namespace NovaMux

/-- What `symlink_metadata` tells about an object. -/
structure Metadata where
  isSocket : Bool
  uid : Nat
  ino : Nat
deriving DecidableEq

inductive ErrorKind where
  | addrInUse | notFound | other
deriving DecidableEq

/-- Failures establishing the local session transport. -/
inductive TransportError where
  | insecurePath (reason : String)
  | alreadyRunning
  | io (kind : ErrorKind)
deriving DecidableEq

def validateStaleSocket (euid : Nat) (metadata : Metadata) : Except TransportError Unit :=
  if !metadata.isSocket then .error (.insecurePath "existing control endpoint is not a socket")
  else if metadata.uid ≠ euid then
    .error (.insecurePath "existing control socket is owned by another user")
  else .ok ()

/-- Where a process is in `LocalEndpoint::bind` and behind it; `ino` is the socket it listens on. -/
inductive Starter where
  /-- Before `UnixListener::bind`, the second time if it has `recovered` a stale socket. -/
  | binding (recovered : Bool)
  /-- In `bind_private`, before setting the permissions. -/
  | securing (ino : Nat)
  /-- In `bind_private`, before removing the path since setting the permissions failed. -/
  | undoing (ino : Nat)
  /-- In `recover_stale_socket`, before connecting. -/
  | probing
  /-- In `recover_stale_socket`, before reading the metadata. Every object numbered from `since` on is
      newer than the failed connection; nothing but the proofs reads `since`. -/
  | checking (since : Nat)
  /-- In `recover_stale_socket`, before removing the path. -/
  | removing (since : Nat)
  /-- In `from_bound`, before reading the metadata. -/
  | naming (ino : Nat)
  /-- Holding the endpoint with its socket identity. -/
  | serving (ino identity : Nat)
  /-- In `drop`, before reading the metadata. -/
  | leaving (ino identity : Nat)
  /-- In `drop`, before removing the path. -/
  | unlinking (ino : Nat)
  /-- Done with the path, before the listener closes. -/
  | closing (ino : Nat)
  | failed (error : TransportError)
  | exited
deriving DecidableEq

namespace Starter

/-- The socket the process listens on. -/
def listener : Starter → Option Nat
  | .securing ino | .undoing ino | .naming ino | .serving ino _ | .leaving ino _ | .unlinking ino
  | .closing ino => some ino
  | _ => none

/-- Whether the process holds a bound `LocalEndpoint`. -/
def holds : Starter → Bool
  | .serving _ _ | .leaving _ _ | .unlinking _ => true
  | _ => false

end Starter

/-- The object at the control path and `n` processes with the effective user `euid`. -/
structure RuntimeDir (n : Nat) where
  euid : Nat
  control : Option Metadata
  nextIno : Nat
  starter : Fin n → Starter

namespace RuntimeDir

variable {n : Nat}

def start (n euid : Nat) (control : Option Metadata) : RuntimeDir n where
  euid
  control
  nextIno := control.elim 0 fun metadata => metadata.ino + 1
  starter _ := .binding false

inductive Action (n : Nat) where
  | bind (i : Fin n)
  | secure (i : Fin n) (ok : Bool)
  | connect (i : Fin n)
  | lstat (i : Fin n)
  | unlink (i : Fin n) (ok : Bool)
  /-- The daemon returns and drops its endpoint. -/
  | stop (i : Fin n)
  /-- The process ends, wherever it is. -/
  | exit (i : Fin n)
deriving DecidableEq

/-- The process `i` goes on, and nothing else changes. -/
def move (s : RuntimeDir n) (i : Fin n) (starter : Starter) : RuntimeDir n :=
  { s with starter := Function.update s.starter i starter }

/-- Whether a connection to the object `ino` succeeds. -/
def live (s : RuntimeDir n) (ino : Nat) : Bool :=
  (List.finRange n).any fun i => (s.starter i).listener = some ino

/-- One system call. Removing an absent path and securing one fail. -/
def step (s : RuntimeDir n) : Action n → Option (RuntimeDir n)
  | .bind i =>
    match s.starter i, s.control with
    | .binding _, none =>
      some { s.move i (.securing s.nextIno) with
        control := some { isSocket := true, uid := s.euid, ino := s.nextIno }
        nextIno := s.nextIno + 1 }
    | .binding false, some _ => some (s.move i .probing)
    | .binding true, some _ => some (s.move i (.failed (.io .addrInUse)))
    | _, _ => none
  | .secure i true =>
    match s.starter i, s.control with
    | .securing ino, some _ => some (s.move i (.naming ino))
    | _, _ => none
  | .secure i false =>
    match s.starter i with
    | .securing ino => some (s.move i (.undoing ino))
    | _ => none
  | .connect i =>
    match s.starter i with
    | .probing =>
      if s.control.any fun metadata => s.live metadata.ino then some (s.move i (.failed .alreadyRunning))
      else some (s.move i (.checking s.nextIno))
    | _ => none
  | .lstat i =>
    match s.starter i, s.control with
    | .checking since, some metadata =>
      match validateStaleSocket s.euid metadata with
      | .ok () => some (s.move i (.removing since))
      | .error error => some (s.move i (.failed error))
    | .naming ino, some metadata => some (s.move i (.serving ino metadata.ino))
    | .checking _, none | .naming _, none => some (s.move i (.failed (.io .notFound)))
    | .leaving ino identity, some metadata =>
      if metadata.isSocket ∧ metadata.uid = s.euid ∧ metadata.ino = identity then
        some (s.move i (.unlinking ino))
      else some (s.move i (.closing ino))
    | .leaving ino _, none => some (s.move i (.closing ino))
    | _, _ => none
  | .unlink i true =>
    match s.starter i, s.control with
    | .removing _, some _ => some { s.move i (.binding true) with control := none }
    | .undoing ino, some _ | .unlinking ino, some _ => some { s.move i (.closing ino) with control := none }
    | _, _ => none
  | .unlink i false =>
    match s.starter i with
    | .removing _ | .undoing _ => some (s.move i (.failed (.io .other)))
    | .unlinking _ => some (s.move i .exited)
    | _ => none
  | .stop i =>
    match s.starter i with
    | .serving ino identity => some (s.move i (.leaving ino identity))
    | _ => none
  | .exit i => some (s.move i .exited)

end RuntimeDir

end NovaMux

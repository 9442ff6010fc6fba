import NovaMux.Runtime.Endpoint
import NovaMux.Runtime.LivePty
import NovaMux.Runtime.Stream

/-! Clients that start the daemon when they do not find one. Each attempt to send a request is a connection of its own;
    `Attempt` lists what the system makes of its steps. Times are milliseconds. -/

namespace NovaMux

open ByteStream

def startTimeout : Nat := 3000

def startRetry : Nat := 25

/-- Only connecting finds no object at the control path, or nobody behind it. -/
inductive IoKind where
  | notFound
  | connectionRefused
  | other (message : String)
deriving DecidableEq, Repr

/-- Session-service failures of a client. -/
inductive RequestError where
  | transport (error : TransportError)
  | io (kind : IoKind)
  | protocol (message : String)
deriving DecidableEq

def RequestError.absent : RequestError → Bool
  | .io .notFound | .io .connectionRefused => true
  | _ => false

/-- The outcomes of `default_runtime_dir`, of connecting, of setting the timeouts and of writing, and what is read. -/
structure Attempt where
  directory : Option TransportError
  connect : Option IoKind
  timeouts : Option String
  write : Option Fault
  events : List Event

/-- Sends a request over a new connection. Beside the result: the bytes that the connection has taken. -/
def sendRequest (request : Request) (attempt : Attempt) : Except RequestError Response × List UInt8 :=
  match attempt.directory with
  | some error => (.error (.transport error), [])
  | none =>
  match attempt.connect with
  | some kind => (.error (.io kind), [])
  | none =>
  match attempt.timeouts with
  | some message => (.error (.io (.other message)), [])
  | none =>
  match encodeRequest request with
  | .error error => (.error (.protocol error.display), [])
  | .ok frame =>
  match attempt.write with
  | some fault => (.error (.io (.other fault.message)), frame.take fault.accepted)
  | none =>
  match readResponse attempt.events with
  | .done response _ => (.ok response, frame)
  | .error (.io .unexpectedEof) => (.error (.io (.other "failed to fill whole buffer")), frame)
  | .error (.io (.other message)) => (.error (.io (.other message)), frame)
  | .error (.protocol message) => (.error (.protocol message), frame)
  -- the read timeout
  | .waiting _ => (.error (.io (.other "Resource temporarily unavailable (os error 11)")), frame)

inductive Deed where
  | sent (bytes : List UInt8)
  | spawned
  | slept
deriving DecidableEq, Repr

/-- What comes of a call: its result, what it did on the way, and the attempts and clock readings it has left. -/
structure Asked where
  result : Except RequestError Response
  deeds : List Deed
  attempts : List Attempt
  clock : List Nat

def Asked.after (deeds : List Deed) (asked : Asked) : Asked := { asked with deeds := deeds ++ asked.deeds }

/-- The loop behind the start of a daemon. There is no result where the script of attempts or of the clock is too short. -/
def retry (request : Request) (deadline : Nat) : List Attempt → List Nat → Option Asked
  | [], _ => none
  | attempt :: attempts, clock =>
    match sendRequest request attempt with
    | (.ok response, bytes) => some { result := .ok response, deeds := [.sent bytes], attempts, clock }
    | (.error (.io kind), bytes) =>
      match clock with
      | [] => none
      | now :: clock =>
        if now < deadline ∧ (RequestError.io kind).absent then
          (retry request deadline attempts clock).map (Asked.after [.sent bytes, .slept])
        else some { result := .error (.io kind), deeds := [.sent bytes], attempts, clock }
    | (.error error, bytes) => some { result := .error error, deeds := [.sent bytes], attempts, clock }

/-- Sends a request and starts a daemon if there is none; `spawn` is the outcome of that. -/
def requestWithAutostart (request : Request) (spawn : Option String) : List Attempt → List Nat → Option Asked
  | [], _ => none
  | attempt :: attempts, clock =>
    match sendRequest request attempt with
    | (.ok response, bytes) => some { result := .ok response, deeds := [.sent bytes], attempts, clock }
    | (.error error, bytes) =>
      if error.absent then
        match spawn with
        | some message => some { result := .error (.io (.other message)), deeds := [.sent bytes], attempts, clock }
        | none =>
          match clock with
          | [] => none
          | now :: clock =>
            (retry request (now + startTimeout) attempts clock).map (Asked.after [.sent bytes, .spawned])
      else some { result := .error error, deeds := [.sent bytes], attempts, clock }

/-- Connects to a session, over a connection of its own once a daemon answers. -/
def AttachedClient.connect (name : SessionName) (spawn : Option String) (attempts : List Attempt) (clock : List Nat) :
    Option (Except RequestError Unit × List Deed) := do
  let asked ← requestWithAutostart (.ping 0) spawn attempts clock
  match asked.result with
  | .error error => some (.error error, asked.deeds)
  | .ok _ =>
    match asked.attempts with
    | [] => none
    | attempt :: _ =>
      let (result, bytes) := sendRequest (.attach name) attempt
      let deeds := asked.deeds ++ [.sent bytes]
      match result with
      | .ok (.attached attached) =>
        if attached = name then some (.ok (), deeds)
        else some (.error (.protocol "unexpected attach response"), deeds)
      | .ok (.error _ message) => some (.error (.protocol message), deeds)
      | .ok _ => some (.error (.protocol "unexpected attach response"), deeds)
      | .error error => some (.error error, deeds)

end NovaMux

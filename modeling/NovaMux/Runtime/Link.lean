import NovaMux.Lib.Machine
import NovaMux.Lib.Pipe
import NovaMux.Runtime.Stream
import NovaMux.Runtime.Daemon

/-! An attached client and the thread that serves its connection, down to the bytes between them. The bytes
    of a message are written, travel and arrive in pieces, reads and writes fail at any point, and the other
    threads of the daemon run in between. What has happened on the connection is kept in a log. -/

namespace NovaMux

open ByteStream

/-- Where an attached client is. -/
inductive ClientPhase where
  | connecting
  /-- Writing a request. -/
  | writing
  /-- Reading the response to it. -/
  | reading
  /-- Attached, between two exchanges. -/
  | idle
  /-- Behind its first error. -/
  | stopped
deriving DecidableEq

namespace Phase

/-- The request that the thread has read and not applied. -/
def request : Phase → Option Request
  | .dispatching request | .serving _ request => some request
  | .attaching name => some (.attach name)
  | _ => none

end Phase

/-- The connection of an action. -/
def Daemon.Action.conn : Daemon.Action → ConnId
  | .accept c | .send c _ | .read c _ | .enter c | .write c _ => c

/-- What has happened on a connection, in order: the requests that the client sent, those that the thread
    read, those that it applied and the responses it computed for them, the responses that it wrote and those
    that the client decoded. -/
structure Log where
  sent : List Request
  read : List Request
  applied : List Request
  answers : List (Request × Response)
  written : List Response
  received : List Response

namespace Log

def empty : Log := { sent := [], read := [], applied := [], answers := [], written := [], received := [] }

/-- The thread has applied its request, which may have left it a response to write. -/
def enter (log : Log) (before after : Phase) : Log :=
  match before.request with
  | none => log
  | some request =>
    { log with
      applied := log.applied ++ [request]
      answers := log.answers ++ (after.reply.map (request, ·)).toList }

end Log

/-- The two ends of a connection and the bytes between them. -/
structure Link where
  daemon : Daemon
  /-- Whether the thread has started to write its response. -/
  writing : Bool
  client : ClientPhase
  up : Pipe
  down : Pipe
  log : Log

namespace Link

/-- A connection that the daemon has just accepted. -/
def start (daemon : Daemon) (c : ConnId) : Link where
  daemon := daemon.setConn c { phase := .reading, inbox := [], outbox := [] }
  writing := false
  client := .connecting
  up := .empty
  down := .empty
  log := .empty

inductive Action where
  /-- The client attaches. -/
  | connect
  | exchange (request : Request)
  | clientPush (n : Nat)
  | clientFlush
  | clientFail
  /-- The client's read of a response returns. -/
  | clientRead
  /-- The thread's read of a request returns. -/
  | serverRead
  /-- The thread locks the sessions. -/
  | serverEnter
  /-- The thread starts to write its response. -/
  | respond
  | serverPush (n : Nat)
  | serverFlush
  | serverFail
  | upward (arrival : Arrival)
  | downward (arrival : Arrival)
  /-- Another connection, its client or its thread. -/
  | other (action : Daemon.Action)

/-- Starts to write a request. One that cannot be encoded is the client's last. -/
def writeRequest (s : Link) (request : Request) : Link :=
  match encodeRequest request with
  | .ok frame =>
    { s with client := .writing, up := s.up.write frame, log := { s.log with sent := s.log.sent ++ [request] } }
  | .error _ => { s with client := .stopped }

/-- Goes on with a response: the first one has to confirm the attachment. -/
def receive (s : Link) (name : SessionName) (response : Response) (rest : List Event) : Link :=
  { s with
    client := if s.log.received = [] ∧ response ≠ .attached name then .stopped else .idle
    down := { s.down with arrived := rest }
    log := { s.log with received := s.log.received ++ [response] } }

/-- One step of the client of connection `c`, which attaches to the session `name`, of the thread that serves
    it, of the network or of the rest of the daemon. -/
def step (c : ConnId) (name : SessionName) (s : Link) : Action → Option Link
  | .connect => if s.client = .connecting then some (s.writeRequest (.attach name)) else none
  | .exchange request => if s.client = .idle then some (s.writeRequest request) else none
  | .clientPush n => if s.client = .writing then some { s with up := s.up.push n } else none
  | .clientFlush => if s.client = .writing ∧ s.up.unsent = [] then some { s with client := .reading } else none
  | .clientFail => if s.client = .writing then some { s with client := .stopped } else none
  | .clientRead =>
    if s.client = .reading then
      match readResponse s.down.arrived with
      | .done response rest => some (s.receive name response rest)
      | .error _ => some { s with client := .stopped }
      | .waiting _ => none
    else none
  | .serverRead =>
    match readRequest s.up.arrived with
    | .done request rest => do
      let daemon ← Machine.run Daemon.step s.daemon [.send c request, .read c true]
      some { s with
        daemon
        up := { s.up with arrived := rest }
        log := { s.log with read := s.log.read ++ [request] } }
    | .error _ => do
      let daemon ← s.daemon.step (.read c false)
      some { s with daemon }
    | .waiting _ => none
  | .serverEnter => do
    let before ← s.daemon.conns c
    let daemon ← s.daemon.step (.enter c)
    let after ← daemon.conns c
    some { s with daemon, log := s.log.enter before.phase after.phase }
  | .respond => do
    let conn ← s.daemon.conns c
    let response ← conn.phase.reply
    if s.writing then none
    else
      match encodeResponse response with
      | .ok frame =>
        some { s with
          writing := true
          down := s.down.write frame
          log := { s.log with written := s.log.written ++ [response] } }
      | .error _ => do
        let daemon ← s.daemon.step (.write c false)
        some { s with daemon }
  | .serverPush n => if s.writing then some { s with down := s.down.push n } else none
  | .serverFlush =>
    if s.writing ∧ s.down.unsent = [] then do
      let daemon ← s.daemon.step (.write c true)
      some { s with daemon, writing := false }
    else none
  | .serverFail =>
    if s.writing then do
      let daemon ← s.daemon.step (.write c false)
      some { s with daemon, writing := false }
    else none
  | .upward arrival => some { s with up := s.up.arrive arrival }
  | .downward arrival => some { s with down := s.down.arrive arrival }
  | .other action =>
    if action.conn = c then none
    else do
      let daemon ← s.daemon.step action
      some { s with daemon }

end Link

end NovaMux

import NovaMux.Runtime.Hosted

/-! The session daemon: a map of sessions behind one mutex and a thread for each accepted connection. The
    threads interleave at their socket operations and at the mutex; what a thread does between locking and
    the next socket operation is one step. A mutex is never poisoned here: a step in which the source would
    panic is not enabled. -/

namespace NovaMux

open Std

abbrev Sessions := ExtTreeMap String HostedSession

/-- Answers a request that is not an attachment. -/
def dispatch (sessions : Sessions) (request : Request) (os : Os) : Response × Sessions × Os :=
  match request with
  | .ping nonce => (.pong nonce, sessions, os)
  | .list => (.sessions (sessions.values.map HostedSession.info), sessions, os)
  | .create name =>
    if sessions.contains name.asStr then (serviceError .alreadyExists "session already exists", sessions, os)
    else if sessions.size ≥ maxListedSessions then
      (serviceError .conflict "session limit reached", sessions, os)
    else
      match HostedSession.create name os with
      | (.ok hosted, os) => (.created name, sessions.insert name.asStr hosted, os)
      | (.error error, os) => (serviceError .internal error.display, sessions, os)
  | .attach _ | .detach _ | .input _ | .resize _ _ | .command _ | .snapshot =>
    (serviceError .conflict "attach and detach streaming are not implemented", sessions, os)

/-- Where the thread of a connection is. -/
inductive Phase where
  /-- Before its first request. -/
  | reading
  /-- Before locking the sessions to dispatch a request. -/
  | dispatching (request : Request)
  /-- Before locking the sessions to attach. -/
  | attaching (name : SessionName)
  /-- Before its only response, with the sessions locked. -/
  | replying (response : Response)
  /-- Before the response to its attachment; the sessions are free again. -/
  | greeting (name : SessionName)
  /-- In the attached loop, before the next request. -/
  | looping (name : SessionName)
  /-- In the attached loop, before locking the sessions. -/
  | serving (name : SessionName) (request : Request)
  /-- In the attached loop, before a response, with the sessions locked. -/
  | responding (name : SessionName) (response : Response)
  /-- In the attached loop, before confirming a detachment, with the sessions locked. -/
  | detaching (name : SessionName)
  /-- Behind the attached loop, before locking the sessions to clear the reservation. -/
  | leaving (name : SessionName)
  | done
deriving DecidableEq

namespace Phase

def reply : Phase → Option Response
  | .replying response | .responding _ response => some response
  | .greeting name => some (.attached name)
  | .detaching name => some (.detached name)
  | _ => none

/-- Where the thread goes once the response is written. -/
def afterWrite : Phase → Phase
  | .greeting name | .responding name _ => .looping name
  | .detaching name => .leaving name
  | _ => .done

/-- Where the thread goes when the write fails. -/
def afterFailedWrite : Phase → Phase
  | .responding name _ | .detaching name => .leaving name
  | _ => .done

/-- Where the thread goes with a request. -/
def afterRead : Phase → Request → Option Phase
  | .reading, .attach name => some (.attaching name)
  | .reading, request => some (.dispatching request)
  | .looping name, request => some (.serving name request)
  | _, _ => none

/-- Where the thread goes when the connection ends, times out or carries no request. -/
def afterFailedRead : Phase → Option Phase
  | .reading => some .done
  | .looping name => some (.leaving name)
  | _ => none

/-- Whether the sessions stay locked until the response is written. -/
def inLock : Phase → Bool
  | .replying _ | .responding _ _ | .detaching _ => true
  | _ => false

end Phase

/-- A connection: its thread, the requests on their way to it and the responses its client has received. -/
structure Conn where
  phase : Phase
  inbox : List Request
  outbox : List Response

abbrev ConnId := Nat

structure Daemon where
  sessions : Sessions
  lock : Option ConnId
  conns : ConnId → Option Conn
  os : Os

namespace Daemon

def start (os : Os) : Daemon := { sessions := ∅, lock := none, conns := fun _ => none, os }

inductive Action where
  /-- A connection is accepted and its thread started. -/
  | accept (c : ConnId)
  /-- The client sends a request. -/
  | send (c : ConnId) (request : Request)
  | read (c : ConnId) (ok : Bool)
  /-- The thread locks the sessions and runs to its next socket operation, or to its end. -/
  | enter (c : ConnId)
  | write (c : ConnId) (ok : Bool)
deriving DecidableEq

def setConn (s : Daemon) (c : ConnId) (conn : Conn) : Daemon :=
  { s with conns := fun d => if d = c then some conn else s.conns d }

/-- What the thread does with the sessions locked: where it is then, and what it leaves behind. -/
def critical (s : Daemon) : Phase → Option (Phase × Sessions × Os)
  | .dispatching request =>
    let (response, sessions, os) := dispatch s.sessions request s.os
    some (.replying response, sessions, os)
  | .attaching name =>
    match s.sessions[name.asStr]? with
    | none => some (.replying (serviceError .notFound "session not found"), s.sessions, s.os)
    | some hosted =>
      if hosted.attached then
        some (.replying (serviceError .conflict "session already has an attached client"), s.sessions, s.os)
      else some (.greeting name, s.sessions.insert name.asStr { hosted with attached := true }, s.os)
  | .serving name request =>
    match s.sessions[name.asStr]? with
    -- "attached session disappeared"
    | none => some (.leaving name, s.sessions, s.os)
    | some hosted =>
      if request = .detach name then some (.detaching name, s.sessions, s.os)
      else do
        let (reply, hosted, os) ← hosted.respond request s.os
        let sessions := s.sessions.insert name.asStr hosted
        match reply with
        | .ok response => some (.responding name response, sessions, os)
        | .error _ => some (.leaving name, sessions, os)
  | .leaving name =>
    match s.sessions[name.asStr]? with
    | none => some (.done, s.sessions, s.os)
    | some hosted => some (.done, s.sessions.insert name.asStr { hosted with attached := false }, s.os)
  | _ => none

/-- One step of the daemon or of a client. A response that cannot be encoded is never written. -/
def step (s : Daemon) : Action → Option Daemon
  | .accept c =>
    match s.conns c with
    | none => some (s.setConn c { phase := .reading, inbox := [], outbox := [] })
    | some _ => none
  | .send c request => do
    let conn ← s.conns c
    some (s.setConn c { conn with inbox := conn.inbox ++ [request] })
  | .read c true => do
    let conn ← s.conns c
    match conn.inbox with
    | [] => none
    | request :: inbox =>
      let phase ← conn.phase.afterRead request
      some (s.setConn c { conn with phase, inbox })
  | .read c false => do
    let conn ← s.conns c
    let phase ← conn.phase.afterFailedRead
    some (s.setConn c { conn with phase })
  | .enter c => do
    let conn ← s.conns c
    if s.lock = none then
      let (phase, sessions, os) ← s.critical conn.phase
      let lock := if phase.inLock then some c else none
      some ({ s with sessions, os, lock }.setConn c { conn with phase })
    else none
  | .write c true => do
    let conn ← s.conns c
    let response ← conn.phase.reply
    match encodeResponse response with
    | .ok _ =>
      let lock := if conn.phase.inLock then none else s.lock
      some ({ s with lock }.setConn c
        { conn with phase := conn.phase.afterWrite, outbox := conn.outbox ++ [response] })
    | .error _ => none
  | .write c false => do
    let conn ← s.conns c
    let _ ← conn.phase.reply
    let lock := if conn.phase.inLock then none else s.lock
    some ({ s with lock }.setConn c { conn with phase := conn.phase.afterFailedWrite })

end Daemon

end NovaMux

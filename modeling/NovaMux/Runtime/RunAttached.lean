import NovaMux.Lib.Machine
import NovaMux.Runtime.Daemon
import NovaMux.Runtime.EventLoop

/-! The event loop of an attached client. It routes keys itself and asks the daemon for everything else, one
    exchange at a time; the thread that serves its connection is the only one that acts in between. Drawing
    and the idle screen are left out. -/

namespace NovaMux

def commandCode : MultiplexerCommand → UInt8
  | .splitHorizontal => 1
  | .splitVertical => 2
  | .focusNext => 3
  | .closeFocused => 4
  | .detach | .quit | .enterCopyMode => 0

/-- What arrives of a request, and of a response. -/
def deliverRequest (request : Request) : Except DecodeError Request := encodeRequest request >>= decodeRequest

def deliverResponse (response : Response) : Except DecodeError Response := encodeResponse response >>= decodeResponse

/-- Sends a request on connection `c` and waits for its response. There is no response when the request or
    the response cannot be encoded and when the thread ends the connection; there is no result where the
    thread would panic. -/
def exchange (c : ConnId) (daemon : Daemon) (request : Request) : Option (Option Response × Daemon) :=
  match deliverRequest request with
  | .error _ => some (none, daemon)
  | .ok request => do
    let daemon ← Machine.run Daemon.step daemon [.send c request, .read c true, .enter c]
    match daemon.step (.write c true) with
    | none => pure (none, daemon)
    | some daemon =>
      let conn ← daemon.conns c
      let response ← conn.outbox.getLast?
      pure ((deliverResponse response).toOption, daemon)

/-- An attached client, with the daemon at the other end of its connection. -/
structure Attached where
  daemon : Daemon
  router : InputRouter
  copyMode : CopyMode
  /-- The last response, which is the screen to draw. -/
  response : Response
  status : Status

namespace Attached

variable (c : ConnId) (name : SessionName)

def request (s : Attached) (request : Request) : Option Attached := do
  match ← exchange c s.daemon request with
  | (some response, daemon) => pure { s with daemon, response }
  | (none, daemon) => pure { s with daemon, status := .failed }

/-- Releases the attachment and leaves. -/
def detach (s : Attached) : Option Attached := do
  match ← exchange c s.daemon (.detach name) with
  | (some (.detached _), daemon) => pure { s with daemon, status := .left }
  | (_, daemon) => pure { s with daemon, status := .failed }

def command (s : Attached) (command : MultiplexerCommand) : Option Attached :=
  match command with
  | .detach | .quit => s.detach c name
  | .enterCopyMode => some { s with copyMode := s.copyMode.enter }
  | command => s.request c (.command (commandCode command))

/-- Routes one byte of a key. -/
def byte (s : Attached) (byte : UInt8) : Option Attached :=
  let (action, router) := s.router.route byte
  let s := { s with router }
  match action with
  | .pending => some s
  | .forward bytes => s.request c (.input bytes)
  | .command command => s.command c name command

def keys : List UInt8 → Attached → Option Attached
  | [], s => some s
  | byte :: bytes, s => do
    let s ← s.byte c name byte
    if s.status = .running then keys bytes s else pure s

/-- In copy mode only the key that ends it does something. -/
def navigateCopyMode (s : Attached) (key : KeyEvent) : Attached :=
  if copyModeAction key = some .exit then { s with copyMode := s.copyMode.exit } else s

def handle (s : Attached) : TerminalEvent → Option Attached
  | .key key =>
    if key.kind = .release then some s
    else if s.copyMode.active then some (s.navigateCopyMode key)
    else s.keys c name (keyBytes key)
  | .resize cols rows => s.request c (.resize cols rows)
  | .mouse | .other => some s

/-- A round of the loop. Without an event it asks for the current screen. No result when the loop has ended. -/
def step (s : Attached) (tick : Tick) : Option Attached :=
  if s.status = .running then
    match s.response with
    | .screen _ => tick.event.elim (s.request c .snapshot) (s.handle c name)
    | _ => some { s with status := .failed }
  else none

/-- Attaches to the session, and returns the daemon when it has confirmed the attachment. -/
def connect (daemon : Daemon) : Option Daemon := do
  match ← exchange c daemon (.attach name) with
  | (some (.attached attached), daemon) => if attached = name then some daemon else none
  | _ => none

/-- A client that has attached and told the size of its terminal. -/
def start (daemon : Daemon) (size : UInt16 × UInt16) : Option Attached := do
  let daemon ← connect c name daemon
  let (response, daemon) ← exchange c daemon (.resize size.1 size.2)
  let response ← response
  some { daemon, router := .new, copyMode := .default, response, status := .running }

end Attached

end NovaMux

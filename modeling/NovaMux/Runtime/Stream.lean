import NovaMux.Core.Protocol
import NovaMux.Lib.ByteStream

/-! Messages on the stream of a connection, in the session service and in its clients: a frame is read in two
    steps, its header first, and then decoded. -/

namespace NovaMux

open ByteStream

/-- Session-service failures of a stream. -/
inductive StreamError where
  | io (error : IoError)
  | protocol (error : String)
deriving DecidableEq, Repr

/-- Reads the payload that a header declares. Its size is checked before there is room for it. -/
def readPayload (header : List UInt8) (events : List Event) : Outcome StreamError (List UInt8) :=
  let payloadLen := (UInt32.fromBeBytes (header.extract 6 10)).toNat
  let total := headerBytes + payloadLen
  if total ≤ maxFrameBytes then ((readExact payloadLen events).mapError .io).map (header ++ ·)
  else .error (.protocol "frame exceeds size limit")

/-- Reads one frame. -/
def readFrame (events : List Event) : Outcome StreamError (List UInt8) :=
  ((readExact headerBytes events).mapError .io).bind readPayload

/-- Goes on with a decoded frame. -/
def decoded {α : Type} (decode : List UInt8 → Except DecodeError α) (frame : List UInt8) (rest : List Event) :
    Outcome StreamError α :=
  match decode frame with
  | .ok message => .done message rest
  | .error error => .error (.protocol error.display)

def readRequest (events : List Event) : Outcome StreamError Request := (readFrame events).bind (decoded decodeRequest)

def readResponse (events : List Event) : Outcome StreamError Response :=
  (readFrame events).bind (decoded decodeResponse)

end NovaMux

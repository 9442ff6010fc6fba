import NovaMux.Core.Session
import NovaMux.Lib.Wire

/-! Bounded messages of the local session service: frames, requests, responses and their codec. Lengths
    are `usize` in the source; every length here is that of a byte string in memory, so the sums of the
    source that are checked for overflow are sums of natural numbers here. -/

namespace NovaMux

def magic : List UInt8 := [0x4e, 0x56, 0x4d, 0x58]

def headerBytes : Nat := 10

def protocolVersion : UInt8 := 1

def maxFrameBytes : Nat := 8 * 1024

def maxListedSessions : Nat := 64

def maxErrorMessageBytes : Nat := 256

def maxInputBytes : Nat := 4 * 1024

def maxSnapshotPanes : Nat := 32

namespace Kind

@[match_pattern] abbrev create : UInt8 := 1
@[match_pattern] abbrev list : UInt8 := 2
@[match_pattern] abbrev attach : UInt8 := 3
@[match_pattern] abbrev detach : UInt8 := 4
@[match_pattern] abbrev ping : UInt8 := 5
@[match_pattern] abbrev input : UInt8 := 6
@[match_pattern] abbrev resize : UInt8 := 7
@[match_pattern] abbrev command : UInt8 := 8
@[match_pattern] abbrev snapshot : UInt8 := 9
@[match_pattern] abbrev created : UInt8 := 0x81
@[match_pattern] abbrev sessions : UInt8 := 0x82
@[match_pattern] abbrev attached : UInt8 := 0x83
@[match_pattern] abbrev detached : UInt8 := 0x84
@[match_pattern] abbrev pong : UInt8 := 0x85
@[match_pattern] abbrev screen : UInt8 := 0x86
@[match_pattern] abbrev error : UInt8 := 0xff

end Kind

/-! ### Messages -/

/-- A request sent by an attached client. -/
inductive Request where
  | create (name : SessionName)
  | list
  | attach (name : SessionName)
  | detach (name : SessionName)
  | ping (nonce : UInt64)
  | input (bytes : List UInt8)
  | resize (cols rows : UInt16)
  | command (command : UInt8)
  | snapshot
deriving DecidableEq

structure PaneSnapshot where
  id : UInt64
  x : UInt16
  y : UInt16
  width : UInt16
  height : UInt16
  focused : Bool
  text : String
deriving DecidableEq, Repr

structure SessionInfo where
  name : SessionName
  attachedClients : UInt16
deriving DecidableEq

inductive ErrorCode where
  | alreadyExists
  | notFound
  | permissionDenied
  | conflict
  | internal
deriving DecidableEq, Repr

def ErrorCode.toByte : ErrorCode → UInt8
  | .alreadyExists => 1
  | .notFound => 2
  | .permissionDenied => 3
  | .conflict => 4
  | .internal => 5

def ErrorCode.fromByte : UInt8 → Option ErrorCode
  | 1 => some .alreadyExists
  | 2 => some .notFound
  | 3 => some .permissionDenied
  | 4 => some .conflict
  | 5 => some .internal
  | _ => none

/-- A structured response sent by the session service. -/
inductive Response where
  | created (name : SessionName)
  | sessions (sessions : List SessionInfo)
  | attached (name : SessionName)
  | detached (name : SessionName)
  | pong (nonce : UInt64)
  | screen (panes : List PaneSnapshot)
  | error (code : ErrorCode) (message : String)
deriving DecidableEq

inductive DecodeError where
  | truncated
  | invalidMagic
  | unsupportedVersion (version : UInt8)
  | unknownMessageType (kind : UInt8)
  | frameTooLarge
  | trailingBytes
  | invalidLength
  | invalidUtf8
  | invalidSessionName (error : SessionNameError)
  | unknownErrorCode (code : UInt8)
deriving DecidableEq, Repr

def DecodeError.display : DecodeError → String
  | .truncated => "protocol frame is truncated"
  | .invalidMagic => "invalid protocol magic"
  | .unsupportedVersion version => "unsupported protocol version " ++ toString version
  | .unknownMessageType kind => "unknown message type " ++ toString kind
  | .frameTooLarge => "protocol frame exceeds its size limit"
  | .trailingBytes => "protocol frame contains trailing bytes"
  | .invalidLength => "protocol field has an invalid length"
  | .invalidUtf8 => "protocol text is not valid UTF-8"
  | .invalidSessionName error => "invalid session name: " ++ error.display
  | .unknownErrorCode code => "unknown protocol error code " ++ toString code

/-! ### Frames -/

def frame (kind : UInt8) (payload : List UInt8) : Except DecodeError (List UInt8) :=
  let frameLen := headerBytes + payload.length
  if frameLen > maxFrameBytes then .error .frameTooLarge
  else if 2 ^ 32 ≤ payload.length then .error .frameTooLarge
  else .ok (magic ++ [protocolVersion, kind] ++ (UInt32.ofNat payload.length).toBeBytes ++ payload)

/-- The kind and the payload of a frame. The bytes that are read are there once the length is checked. -/
def unframe (bytes : List UInt8) : Except DecodeError (UInt8 × List UInt8) :=
  if bytes.length < headerBytes then .error .truncated
  else if bytes.take 4 ≠ magic then .error .invalidMagic
  else if bytes.getD 4 0 ≠ protocolVersion then .error (.unsupportedVersion (bytes.getD 4 0))
  else
    let payloadLen := (UInt32.fromBeBytes (bytes.extract 6 10)).toNat
    let frameLen := headerBytes + payloadLen
    if frameLen > maxFrameBytes then .error .frameTooLarge
    else match compare bytes.length frameLen with
      | .lt => .error .truncated
      | .gt => .error .trailingBytes
      | .eq => .ok (bytes.getD 5 0, bytes.drop headerBytes)

/-- A name is at most 64 bytes long, so its length fits in one byte. -/
def putName (output : List UInt8) (name : SessionName) : List UInt8 :=
  output ++ [UInt8.ofNat (Utf8.bytes name.asStr).length] ++ Utf8.bytes name.asStr

def putBytes (output bytes : List UInt8) : Except DecodeError (List UInt8) :=
  if 2 ^ 16 ≤ bytes.length then .error .invalidLength
  else .ok (output ++ (UInt16.ofNat bytes.length).toBeBytes ++ bytes)

/-! ### Encoding -/

def encodeRequest (request : Request) : Except DecodeError (List UInt8) := do
  let (kind, payload) ← match request with
    | .create name => pure (Kind.create, putName [] name)
    | .list => pure (Kind.list, [])
    | .attach name => pure (Kind.attach, putName [] name)
    | .detach name => pure (Kind.detach, putName [] name)
    | .ping nonce => pure (Kind.ping, nonce.toBeBytes)
    | .input bytes =>
      if bytes.length > maxInputBytes then throw .invalidLength
      else (Kind.input, ·) <$> putBytes [] bytes
    | .resize cols rows => pure (Kind.resize, cols.toBeBytes ++ rows.toBeBytes)
    | .command command => pure (Kind.command, [command])
    | .snapshot => pure (Kind.snapshot, [])
  frame kind payload

def putSession (payload : List UInt8) (session : SessionInfo) : List UInt8 :=
  putName payload session.name ++ session.attachedClients.toBeBytes

def putPane (payload : List UInt8) (pane : PaneSnapshot) : Except DecodeError (List UInt8) :=
  putBytes (payload ++ pane.id.toBeBytes ++ pane.x.toBeBytes ++ pane.y.toBeBytes ++ pane.width.toBeBytes ++
    pane.height.toBeBytes ++ [if pane.focused then 1 else 0]) (Utf8.bytes pane.text)

/-- Encodes a structured response as one complete bounded frame. A count within its limit fits in one
    byte. -/
def encodeResponse (response : Response) : Except DecodeError (List UInt8) := do
  let (kind, payload) ← match response with
    | .created name => pure (Kind.created, putName [] name)
    | .sessions sessions =>
      if sessions.length > maxListedSessions then throw .invalidLength
      else pure (Kind.sessions, sessions.foldl putSession [UInt8.ofNat sessions.length])
    | .attached name => pure (Kind.attached, putName [] name)
    | .detached name => pure (Kind.detached, putName [] name)
    | .pong nonce => pure (Kind.pong, nonce.toBeBytes)
    | .screen panes =>
      if panes.length > maxSnapshotPanes then throw .invalidLength
      else (Kind.screen, ·) <$> panes.foldlM putPane [UInt8.ofNat panes.length]
    | .error code message =>
      if (Utf8.bytes message).length > maxErrorMessageBytes then throw .invalidLength
      else (Kind.error, ·) <$> putBytes [code.toByte] (Utf8.bytes message)
  frame kind payload

/-! ### Decoding -/

/-- A position in a payload. -/
structure Cursor where
  bytes : List UInt8
  offset : Nat
  inBounds : offset ≤ bytes.length

/-- A step of a decoder: it moves the cursor and returns a value, or fails. -/
abbrev Decoder := StateT Cursor (Except DecodeError)

namespace Cursor

def new (bytes : List UInt8) : Cursor := ⟨bytes, 0, Nat.zero_le _⟩

def byte : Decoder UInt8 := fun cursor =>
  if h : cursor.offset < cursor.bytes.length then
    .ok (cursor.bytes[cursor.offset], { cursor with offset := cursor.offset + 1, inBounds := h })
  else .error .truncated

def take (len : Nat) : Decoder (List UInt8) := fun cursor =>
  let stop := cursor.offset + len
  if h : stop ≤ cursor.bytes.length then
    .ok (cursor.bytes.extract cursor.offset stop, { cursor with offset := stop, inBounds := h })
  else .error .truncated

def u16 : Decoder UInt16 := UInt16.fromBeBytes <$> take 2

def u64 : Decoder UInt64 := UInt64.fromBeBytes <$> take 8

def boundedBytes (maximum : Nat) : Decoder (List UInt8) := do
  let len ← u16
  if len.toNat > maximum then throw .invalidLength
  else take len.toNat

def utf8 (raw : List UInt8) : Except DecodeError String :=
  match Utf8.text? raw with
  | some value => .ok value
  | none => .error .invalidUtf8

def sessionName (raw : List UInt8) : Except DecodeError SessionName := do
  match SessionName.parse (← utf8 raw) with
  | .ok name => .ok name
  | .error error => .error (.invalidSessionName error)

def name : Decoder SessionName := do
  let len ← byte
  if len = 0 ∨ len > 64 then throw .invalidLength
  else do
    let raw ← take len.toNat
    sessionName raw

def finish (cursor : Cursor) : Except DecodeError Unit :=
  if cursor.offset = cursor.bytes.length then .ok () else .error .trailingBytes

end Cursor

def requestBody (kind : UInt8) : Decoder Request :=
  match kind with
  | Kind.create => Request.create <$> Cursor.name
  | Kind.list => pure .list
  | Kind.attach => Request.attach <$> Cursor.name
  | Kind.detach => Request.detach <$> Cursor.name
  | Kind.ping => Request.ping <$> Cursor.u64
  | Kind.input => Request.input <$> Cursor.boundedBytes maxInputBytes
  | Kind.resize => do
    let cols ← Cursor.u16
    let rows ← Cursor.u16
    pure (.resize cols rows)
  | Kind.command => Request.command <$> Cursor.byte
  | Kind.snapshot => pure .snapshot
  | _ => throw (.unknownMessageType kind)

def decodeRequest (bytes : List UInt8) : Except DecodeError Request := do
  let (kind, payload) ← unframe bytes
  let (request, cursor) ← (requestBody kind).run (Cursor.new payload)
  cursor.finish
  pure request

/-- A collection of a list response or a snapshot: its count, within the limit, then its elements. -/
def counted {α : Type} (maximum : Nat) (get : Decoder α) : Decoder (List α) := do
  let count ← Cursor.byte
  if count.toNat > maximum then throw .invalidLength
  else Wire.readMany get count.toNat

def getSession : Decoder SessionInfo := do
  let name ← Cursor.name
  let attachedClients ← Cursor.u16
  pure { name, attachedClients }

def focusedFlag : UInt8 → Except DecodeError Bool
  | 0 => .ok false
  | 1 => .ok true
  | _ => .error .invalidLength

def getPane : Decoder PaneSnapshot := do
  let id ← Cursor.u64
  let x ← Cursor.u16
  let y ← Cursor.u16
  let width ← Cursor.u16
  let height ← Cursor.u16
  let focused ← Cursor.byte >>= fun raw => liftM (focusedFlag raw)
  let text ← Cursor.boundedBytes maxFrameBytes >>= fun raw => liftM (Cursor.utf8 raw)
  pure { id, x, y, width, height, focused, text }

def errorCode (rawCode : UInt8) : Except DecodeError ErrorCode :=
  match ErrorCode.fromByte rawCode with
  | some code => .ok code
  | none => .error (.unknownErrorCode rawCode)

def responseBody (kind : UInt8) : Decoder Response :=
  match kind with
  | Kind.created => Response.created <$> Cursor.name
  | Kind.sessions => Response.sessions <$> counted maxListedSessions getSession
  | Kind.attached => Response.attached <$> Cursor.name
  | Kind.detached => Response.detached <$> Cursor.name
  | Kind.pong => Response.pong <$> Cursor.u64
  | Kind.screen => Response.screen <$> counted maxSnapshotPanes getPane
  | Kind.error => do
    let code ← Cursor.byte >>= fun rawCode => liftM (errorCode rawCode)
    let message ← Cursor.boundedBytes maxErrorMessageBytes >>= fun raw => liftM (Cursor.utf8 raw)
    pure (.error code message)
  | _ => throw (.unknownMessageType kind)

def decodeResponse (bytes : List UInt8) : Except DecodeError Response := do
  let (kind, payload) ← unframe bytes
  let (response, cursor) ← (responseBody kind).run (Cursor.new payload)
  cursor.finish
  pure response

end NovaMux

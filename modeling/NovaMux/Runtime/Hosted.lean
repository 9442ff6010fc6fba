import NovaMux.Core.Protocol
import NovaMux.Runtime.LivePty

/-! Daemon-owned sessions: what each request does to a session and to its PTYs. An operation returns its
    result together with the session and the system it leaves behind, also when it fails; it has no result
    where the source would panic. -/

namespace NovaMux

/-- Session-service failures that reach a session or a reply. -/
inductive ServiceError where
  | protocol (error : String)
  | runtime (error : String)
deriving DecidableEq, Repr

def ServiceError.display : ServiceError → String
  | .protocol error => "session protocol failed: " ++ error
  | .runtime error => "session runtime failed: " ++ error

/-! ### Bounded texts -/

/-- The last bytes of a text, at most `maximum` of them, from a character boundary on. -/
def suffixWithin (value : String) : Nat → String
  | 0 => ""
  | maximum + 1 =>
    if h : (⟨value.utf8ByteSize - (maximum + 1)⟩ : String.Pos.Raw).IsValid value then
      (value.sliceFrom ⟨_, h⟩).copy
    else suffixWithin value maximum

/-- The first bytes of a text, at most `maximum` of them, up to a character boundary. -/
def prefixWithin (value : String) : Nat → String
  | 0 => ""
  | maximum + 1 =>
    if h : (⟨maximum + 1⟩ : String.Pos.Raw).IsValid value then (value.sliceTo ⟨_, h⟩).copy
    else prefixWithin value maximum

def truncateUtf8 (value : String) (maximum : Nat) : String :=
  if value.utf8ByteSize ≤ maximum then value else suffixWithin value maximum

def boundedMessage (message : String) : String :=
  if message.utf8ByteSize ≤ 256 then message else prefixWithin message 256

def serviceError (code : ErrorCode) (message : String) : Response := .error code (boundedMessage message)

/-! ### The searches for a boundary -/

/-- There is no boundary beyond the end of a text. -/
def isCharBoundary (value : String) (index : Nat) : Bool := decide ((⟨index⟩ : String.Pos.Raw).IsValid value)

/-- The first boundary from `start` on, unless it is more than the given number of moves away. -/
def boundaryFrom (value : String) : Nat → Nat → Option Nat
  | 0, start => if isCharBoundary value start then some start else none
  | moves + 1, start => if isCharBoundary value start then some start else boundaryFrom value moves (start + 1)

/-- The last boundary up to `stop`, unless it is more than the given number of moves away or the search goes
    below zero. -/
def boundaryUpTo (value : String) : Nat → Nat → Option Nat
  | 0, stop => if isCharBoundary value stop then some stop else none
  | _ + 1, 0 => if isCharBoundary value 0 then some 0 else none
  | moves + 1, stop + 1 => if isCharBoundary value (stop + 1) then some (stop + 1) else boundaryUpTo value moves stop

def sliceFrom? (value : String) (start : Nat) : Option String :=
  if h : (⟨start⟩ : String.Pos.Raw).IsValid value then some (value.sliceFrom ⟨_, h⟩).copy else none

def sliceTo? (value : String) (stop : Nat) : Option String :=
  if h : (⟨stop⟩ : String.Pos.Raw).IsValid value then some (value.sliceTo ⟨_, h⟩).copy else none

/-- `truncateUtf8` as its loop computes it, within the given number of moves. -/
def truncateSearch (moves : Nat) (value : String) (maximum : Nat) : Option String :=
  if value.utf8ByteSize ≤ maximum then some value
  else do
    let start ← boundaryFrom value moves (value.utf8ByteSize - maximum)
    sliceFrom? value start

/-- `boundedMessage` as its loop computes it, within the given number of moves. -/
def boundedSearch (moves : Nat) (message : String) : Option String :=
  if message.utf8ByteSize ≤ 256 then some message
  else do
    let stop ← boundaryUpTo message moves 256
    sliceTo? message stop

/-! ### Hosted sessions -/

/-- A daemon-owned session whose PTYs survive client process exit. -/
structure HostedSession where
  session : Session
  panes : PaneRegistry LivePty
  attached : Bool
  viewport : UInt16 × UInt16

namespace HostedSession

def create (name : SessionName) (os : Os) : Except ServiceError HostedSession × Os :=
  let session := Session.new name
  match PaneRegistry.new.reconcile session (fun _ => LivePty.spawn (.new 24 80)) os with
  | (.error error, _, os) => (.error (.runtime error), os)
  | (.ok _, panes, os) => (.ok { session, panes, attached := false, viewport := (80, 24) }, os)

def info (hosted : HostedSession) : SessionInfo where
  name := hosted.session.name
  attachedClients := if hosted.attached then 1 else 0

/-- The last row of the viewport is the status line. -/
def layout (hosted : HostedSession) : List (PaneId × Rect) :=
  hosted.session.layout
    { x := 0, y := 0, width := hosted.viewport.1, height := hosted.viewport.2.saturatingSub 1 }

def resize (hosted : HostedSession) (cols rows : UInt16) (os : Os) :
    Except ServiceError Unit × HostedSession × Os :=
  let hosted := { hosted with viewport := (max cols 2, max rows 2) }
  match resizeRuntimes hosted.layout hosted.panes os with
  | (.error error, panes, os) => (.error (.runtime error), { hosted with panes }, os)
  | (.ok (), panes, os) => (.ok (), { hosted with panes }, os)

/-- The visible text of a pane, or none at all when it has no runtime. -/
def paneText (hosted : HostedSession) (pane : PaneId) (os : Os) : Except ServiceError String × Os :=
  match hosted.panes.get pane with
  | none => (.ok "", os)
  | some runtime =>
    match runtime.visibleText os with
    | (.error error, os) => (.error (.runtime error), os)
    | (.ok text, os) => (.ok text, os)

def snapshotPanes (hosted : HostedSession) (allowance : Nat) : List (PaneId × Rect) → Os →
    Except ServiceError (List PaneSnapshot) × Os
  | [], os => (.ok [], os)
  | (pane, rect) :: layout, os =>
    match hosted.paneText pane os with
    | (.error error, os) => (.error error, os)
    | (.ok text, os) =>
      match snapshotPanes hosted allowance layout os with
      | (.error error, os) => (.error error, os)
      | (.ok panes, os) =>
        (.ok ({ id := pane.get, x := rect.x, y := rect.y, width := rect.width, height := rect.height,
                focused := pane = hosted.session.focused, text := truncateUtf8 text allowance } :: panes), os)

def snapshot (hosted : HostedSession) (os : Os) : Except ServiceError Response × Os :=
  let layout := hosted.layout
  let allowance := 6500 / max layout.length 1
  match hosted.snapshotPanes allowance layout os with
  | (.error error, os) => (.error error, os)
  | (.ok panes, os) => (.ok (.screen panes), os)

/-- Commands 1 and 2. The new pane is started before the session is changed. -/
def split (hosted : HostedSession) (direction : SplitDirection) (os : Os) :
    Option (Except ServiceError Unit × HostedSession × Os) := do
  let (_, candidate) ← hosted.session.splitFocused direction
  match hosted.panes.reconcile candidate (fun _ => LivePty.spawn (.new 2 2)) os with
  | (.error error, panes, os) => pure (.error (.runtime error), { hosted with panes }, os)
  | (.ok _, panes, os) =>
    let hosted := { hosted with panes, session := candidate }
    pure (hosted.resize hosted.viewport.1 hosted.viewport.2 os)

/-- Command 4. -/
def close (hosted : HostedSession) (os : Os) : Option (Except ServiceError Unit × HostedSession × Os) := do
  let (closed, session) ← hosted.session.closeFocused
  let hosted := { hosted with session }
  if closed then
    match hosted.panes.reconcile session (fun _ => LivePty.spawn (.new 2 2)) os with
    | (.error error, panes, os) => pure (.error (.runtime error), { hosted with panes }, os)
    | (.ok removed, panes, os) =>
      match terminateRuntimes removed os with
      | (.error error, os) => pure (.error (.runtime error), { hosted with panes }, os)
      | (.ok (), os) => pure (.ok (), { hosted with panes }, os)
  else pure (.ok (), hosted, os)

def command (hosted : HostedSession) (command : UInt8) (os : Os) :
    Option (Except ServiceError Unit × HostedSession × Os) :=
  match command with
  | 1 => hosted.split .horizontal os
  | 2 => hosted.split .vertical os
  | 3 => do
    let session ← hosted.session.focusNext
    pure (.ok (), { hosted with session }, os)
  | 4 => hosted.close os
  | _ => pure (.error (.protocol "unknown attached command"), hosted, os)

/-- The bytes of an input batch go to the focused pane. -/
def input (hosted : HostedSession) (bytes : List UInt8) (os : Os) : Except ServiceError Unit × HostedSession × Os :=
  match hosted.panes.get hosted.session.focused with
  | none => (.error (.runtime "focused pane is missing"), hosted, os)
  | some runtime =>
    match runtime.write bytes os with
    | (.error error, runtime, os) =>
      (.error (.runtime error), { hosted with panes := hosted.panes.set hosted.session.focused runtime }, os)
    | (.ok (), runtime, os) =>
      (.ok (), { hosted with panes := hosted.panes.set hosted.session.focused runtime }, os)

/-- The screen that follows an operation which succeeded. -/
def thenSnapshot : Except ServiceError Unit × HostedSession × Os → Except ServiceError Response × HostedSession × Os
  | (.error error, hosted, os) => (.error error, hosted, os)
  | (.ok (), hosted, os) =>
    let (response, os) := hosted.snapshot os
    (response, hosted, os)

/-- What the attached loop makes of a request that is not the detachment of its own session. -/
def respond (hosted : HostedSession) (request : Request) (os : Os) :
    Option (Except ServiceError Response × HostedSession × Os) :=
  match request with
  | .snapshot =>
    let (response, os) := hosted.snapshot os
    some (response, hosted, os)
  | .input bytes => some (thenSnapshot (hosted.input bytes os))
  | .resize cols rows => some (thenSnapshot (hosted.resize cols rows os))
  | .command code => thenSnapshot <$> hosted.command code os
  | _ => some (.ok (serviceError .conflict "invalid attached request"), hosted, os)

end HostedSession

end NovaMux

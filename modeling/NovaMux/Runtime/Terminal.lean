import NovaMux.Lib.ByteStream
import NovaMux.Lib.Pump
import NovaMux.Runtime.LivePty

/-! Terminal buffers, and the threads that copy what a shell prints: into the buffer of a pane, or to the user's
    terminal. The terminal library is not part of the program; `Vt100` lists what is used of it. -/

namespace NovaMux

open ByteStream

/-- What is used of the terminal library. A parser and its screen are one state. -/
structure Vt100 (P : Type) where
  new : UInt16 → UInt16 → UInt64 → P
  process : P → List UInt8 → P
  setSize : P → UInt16 → UInt16 → P
  setScrollback : P → UInt64 → P
  scrollback : P → UInt64
  contents : P → String

/-! ### Search queries -/

inductive SearchDirection where
  /-- From the current viewport toward older output. -/
  | older
  /-- From the current viewport toward newer output. -/
  | newer
deriving DecidableEq, Repr

def maxSearchQueryBytes : Nat := 256

/-- The control characters of Unicode. -/
def isControl (c : Char) : Bool := c.toNat ≤ 0x1f || (0x7f ≤ c.toNat && c.toNat ≤ 0x9f)

inductive SearchQueryError where
  | empty
  | tooLong
  | controlCharacter
deriving DecidableEq, Repr

def SearchQueryError.display : SearchQueryError → String
  | .empty => "search query cannot be empty"
  | .tooLong => "search query cannot exceed 256 UTF-8 bytes"
  | .controlCharacter => "search query cannot contain control characters"

structure SearchQuery where
  asStr : String
  nonempty : asStr ≠ ""
  short : asStr.utf8ByteSize ≤ maxSearchQueryBytes
  printable : asStr.toList.any isControl = false
deriving DecidableEq

def SearchQuery.parse (value : String) : Except SearchQueryError SearchQuery :=
  if h₁ : value = "" then .error .empty
  else if h₂ : value.utf8ByteSize > maxSearchQueryBytes then .error .tooLong
  else if h₃ : value.toList.any isControl = true then .error .controlCharacter
  else .ok ⟨value, h₁, Nat.not_lt.mp h₂, Bool.not_eq_true _ ▸ h₃⟩

def contains (text query : String) : Bool := decide (query.toList <:+: text.toList)

/-! ### Terminal buffers -/

def defaultScrollbackLines : UInt64 := 10000

structure TerminalBuffer (P : Type) where
  parser : P
  size : TerminalSize

namespace TerminalBuffer

variable {P : Type} (vt : Vt100 P)

def withScrollback (size : TerminalSize) (scrollbackLines : UInt64) : TerminalBuffer P where
  parser := vt.new size.rows size.cols scrollbackLines
  size

def new (size : TerminalSize) : TerminalBuffer P := withScrollback vt size defaultScrollbackLines

def process (buffer : TerminalBuffer P) (bytes : List UInt8) : TerminalBuffer P :=
  { buffer with parser := vt.process buffer.parser bytes }

def resize (buffer : TerminalBuffer P) (size : TerminalSize) : TerminalBuffer P where
  parser := vt.setSize buffer.parser size.rows size.cols
  size

def visibleText (buffer : TerminalBuffer P) : String := vt.contents buffer.parser

/-- The largest valid viewport offset into retained history. -/
def maxScrollbackOffset (buffer : TerminalBuffer P) : UInt64 := vt.scrollback (vt.setScrollback buffer.parser (-1))

def clampScrollbackOffset (buffer : TerminalBuffer P) (offset : UInt64) : UInt64 :=
  min offset (buffer.maxScrollbackOffset vt)

def viewportText (buffer : TerminalBuffer P) (offset : UInt64) : String :=
  vt.contents (vt.setScrollback buffer.parser offset)

def scrollOlder (buffer : TerminalBuffer P) (offset rows : UInt64) : UInt64 :=
  buffer.clampScrollbackOffset vt (offset.saturatingAdd rows)

def scrollNewer (_buffer : TerminalBuffer P) (offset rows : UInt64) : UInt64 := offset.saturatingSub rows

/-- The first of the offsets whose viewport contains the query, on one screen that moves from each to the next. -/
def findViewport (query : SearchQuery) : P → List UInt64 → Option UInt64
  | _, [] => none
  | screen, offset :: offsets =>
    let screen := vt.setScrollback screen offset
    if contains (vt.contents screen) query.asStr then some offset else findViewport query screen offsets

/-- The offsets in the order in which they are searched. -/
def searched (start maximum : UInt64) : SearchDirection → List UInt64
  | .older => (List.range' start.toNat (maximum.toNat + 1 - start.toNat)).map UInt64.ofNat
  | .newer => (List.range (start.toNat + 1)).reverse.map UInt64.ofNat

def search (buffer : TerminalBuffer P) (query : SearchQuery) (start : UInt64) (direction : SearchDirection) :
    Option UInt64 :=
  let maximum := buffer.maxScrollbackOffset vt
  findViewport vt query buffer.parser (searched (min start maximum) maximum direction)

end TerminalBuffer

/-! ### Copying -/

/-- The thread that reads what a shell prints. The lock of the terminal may be poisoned. -/
def readOutput {P : Type} (vt : Vt100 P) (poisoned : Bool) (events : List Event) (terminal : TerminalBuffer P) :
    Option (Except IoError Unit) × TerminalBuffer P :=
  pump (fun terminal bytes =>
    if poisoned then (.error (.other "terminal buffer lock was poisoned"), terminal)
    else (.ok (), terminal.process vt bytes)) events terminal

/-- The terminal of a pane, which its reader shares with the thread that resizes it, and how the reader has ended. -/
structure SharedTerminal (P : Type) where
  terminal : TerminalBuffer P
  poisoned : Bool
  ended : Option (Except IoError Unit)

namespace SharedTerminal

inductive Action where
  /-- A read of the reader returns, at most as many bytes as its buffer has. -/
  | read (event : Event)
  /-- The pane is resized; its PTY has its new size already. -/
  | resize (size : TerminalSize)
  /-- A thread panics with the terminal locked. -/
  | poison
deriving DecidableEq

def step {P : Type} (vt : Vt100 P) (s : SharedTerminal P) : Action → Option (SharedTerminal P)
  | .read event =>
    if s.ended = none ∧ (content [event]).length ≤ bufferBytes then
      let (ended, terminal) := readOutput vt s.poisoned [event] s.terminal
      some { s with ended, terminal }
    else none
  | .resize size => some (if s.poisoned then s else { s with terminal := s.terminal.resize vt size })
  | .poison => some { s with poisoned := true }

end SharedTerminal

/-- What a writer has been given and has passed on, and the outcome of each operation to come; those after the last
    one succeed. -/
structure Output where
  written : List UInt8
  flushed : List UInt8
  faults : List (Option Fault)
deriving DecidableEq, Repr

namespace Output

def attempt (output : Output) : Option Fault × Output :=
  match output.faults with
  | [] => (none, output)
  | outcome :: faults => (outcome, { output with faults })

def writeAll (output : Output) (bytes : List UInt8) : Except IoError Unit × Output :=
  match output.attempt with
  | (some fault, output) =>
    (.error (.other fault.message), { output with written := output.written ++ bytes.take fault.accepted })
  | (none, output) => (.ok (), { output with written := output.written ++ bytes })

def flush (output : Output) : Except IoError Unit × Output :=
  match output.attempt with
  | (some fault, output) => (.error (.other fault.message), output)
  | (none, output) => (.ok (), { output with flushed := output.written })

def put (output : Output) (bytes : List UInt8) : Except IoError Unit × Output :=
  match output.writeAll bytes with
  | (.error error, output) => (.error error, output)
  | (.ok (), output) => output.flush

end Output

/-- Copies bytes as they come, each batch flushed before the next is read. -/
def copyAndFlush (events : List Event) (output : Output) : Option (Except IoError Unit) × Output :=
  pump Output.put events output

end NovaMux

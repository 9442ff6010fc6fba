/-! Byte-preserving keyboard routing for the multiplexer command prefix. -/

namespace NovaMux

def commandPrefix : UInt8 := 0x02

inductive MultiplexerCommand where
  | splitHorizontal
  | splitVertical
  | focusNext
  | closeFocused
  | detach
  | enterCopyMode
  | quit
deriving DecidableEq, Repr

inductive InputAction where
  /-- No output yet because the router is waiting for a command key. -/
  | pending
  /-- Bytes that must be delivered unchanged to the focused PTY. -/
  | forward (bytes : List UInt8)
  | command (command : MultiplexerCommand)
deriving DecidableEq, Repr

structure InputRouter where
  prefixPending : Bool
deriving DecidableEq, Repr

namespace InputRouter

def new : InputRouter := ⟨false⟩

/-- The keys that a command prefix turns into commands. -/
def commandKey (byte : UInt8) : Option MultiplexerCommand :=
  if byte = '%'.toUInt8 then some .splitHorizontal
  else if byte = '"'.toUInt8 then some .splitVertical
  else if byte = 'o'.toUInt8 then some .focusNext
  else if byte = 'x'.toUInt8 then some .closeFocused
  else if byte = 'd'.toUInt8 then some .detach
  else if byte = '['.toUInt8 then some .enterCopyMode
  else if byte = 'q'.toUInt8 then some .quit
  else none

/-- Processes one raw input byte. An unknown prefixed key is kept behind its prefix. -/
def route (router : InputRouter) (byte : UInt8) : InputAction × InputRouter :=
  if router.prefixPending = false then
    if byte = commandPrefix then (.pending, ⟨true⟩) else (.forward [byte], router)
  else
    match commandKey byte with
    | some command => (.command command, ⟨false⟩)
    | none => (.forward (if byte = commandPrefix then [commandPrefix] else [commandPrefix, byte]), ⟨false⟩)

/-- Flushes a pending prefix when the input stream closes. -/
def finish (router : InputRouter) : Option (List UInt8) × InputRouter :=
  if router.prefixPending then (some [commandPrefix], ⟨false⟩) else (none, router)

end InputRouter

end NovaMux

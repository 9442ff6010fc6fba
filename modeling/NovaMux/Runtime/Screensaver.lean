import NovaMux.Runtime.Render
import Mathlib.Data.Nat.Dist

/-! The idle artwork of a client: when it is shown, in which style, and what it draws. Instants are nanoseconds. -/

namespace NovaMux

/-! ### Idling -/

def frameMillis : Nat := 125

structure IdleState where
  lastInput : Nat
  activeSince : Option Nat
deriving DecidableEq, Repr

namespace IdleState

def new (now : Nat) : IdleState := { lastInput := now, activeSince := none }

/-- Starts the artwork after enough idle time, unless it is off or not allowed; returns whether it is shown. -/
def update (idle : IdleState) (now : Nat) (mode : Screensaver) (idleSeconds : UInt16) (allowed : Bool) :
    Bool × IdleState :=
  if mode = .off ∨ allowed = false then (false, { idle with activeSince := none })
  else
    let idle :=
      if idle.activeSince.isNone ∧ now - idle.lastInput ≥ idleSeconds.toNat * 10 ^ 9 then
        { idle with activeSince := some now }
      else idle
    (idle.activeSince.isSome, idle)

/-- Dismisses active artwork and consumes that input. -/
def input (idle : IdleState) (now : Nat) : Bool × IdleState :=
  (idle.activeSince.isSome, { lastInput := now, activeSince := none })

def frame (idle : IdleState) (now : Nat) : Nat :=
  idle.activeSince.elim 0 fun start => (now - start) / 10 ^ 6 / frameMillis % 2 ^ 64

def isActive (idle : IdleState) : Bool := idle.activeSince.isSome

end IdleState

/-! ### The style -/

/-- The variables that the style depends on. -/
structure Environment where
  term : Option String
  lcAll : Option String
  lcCtype : Option String
  lang : Option String
deriving DecidableEq, Repr

def asciiLowercase (text : String) : List Char := text.toList.map Char.toLower

/-- Looks through the values of the locale variables, in order. -/
def localeSupportsUnicode : List (Option String) → Bool
  | [] => true
  | none :: names => localeSupportsUnicode names
  | some locale :: names =>
    let locale := asciiLowercase locale
    if locale = "c".toList ∨ locale = "posix".toList then false
    else if "utf-8".toList <:+: locale ∨ "utf8".toList <:+: locale then true
    else localeSupportsUnicode names

def terminalSupportsUnicode (env : Environment) : Bool :=
  if env.term = some "dumb" then false else localeSupportsUnicode [env.lcAll, env.lcCtype, env.lang]

def effectiveSceneStyle (env : Environment) (configured : SceneStyle) : SceneStyle :=
  if configured = .ascii ∨ terminalSupportsUnicode env = false then .ascii else .unicode

/-! ### The scenes -/

def blanks (count : Nat) : String := String.ofList (List.replicate count ' ')

def compact : Screensaver → SceneStyle → String
  | .pandaClimb, .unicode => "🐼🎋 NovaMux"
  | .catPlay, .unicode => "🐱🧶 NovaMux"
  | .pandaClimb, .ascii => "[panda] NovaMux"
  | .catPlay, .ascii => "[cat] NovaMux"
  | .off, _ => "NovaMux"

def pandaUnicode (frame : Nat) (height : UInt16) : List String :=
  let travel := max (height.saturatingSub 6).toNat 1
  let phase := frame % (travel * 2)
  let offset := Nat.dist travel phase
  let leaf := if frame % 2 = 0 then "🍃" else "🌿"
  List.replicate offset "" ++
    ["        " ++ leaf, "        🎋", "     🐼 🎋", "     🐾 🎋", "        🎋", "   panda climbing"]

def catUnicode (frame : Nat) (width : UInt16) : List String :=
  let travel := max (width.saturatingSub 18).toNat 1
  let phase := frame % (travel * 2)
  let ballOffset := if phase < travel then phase else travel * 2 - phase
  let catOffset := ballOffset - 5
  [blanks catOffset ++ "🐱", blanks (catOffset + 2) ++ "🐾", blanks ballOffset ++ "🧶",
    blanks catOffset ++ "cat playing"]

def pandaAscii (frame : Nat) (height : UInt16) : List String :=
  let travel := max (height.saturatingSub 3).toNat 1
  let phase := frame % (travel * 2)
  List.replicate (Nat.dist travel phase) "" ++ ["[panda]  bamboo", " climbing upward", "      NovaMux"]

def catAscii (frame : Nat) (width : UInt16) : List String :=
  let travel := max (width.saturatingSub 20).toNat 1
  let phase := frame % (travel * 2)
  let offset := if phase < travel then phase else travel * 2 - phase
  ["[cat]" ++ blanks offset ++ "(ball)", "       playing", "       NovaMux"]

def artwork (mode : Screensaver) (style : SceneStyle) (frame : Nat) (width height : UInt16) : List String :=
  let lines :=
    if width < 18 ∨ height < 7 then [compact mode style]
    else match mode, style with
      | .pandaClimb, .unicode => pandaUnicode frame height
      | .catPlay, .unicode => catUnicode frame width
      | .pandaClimb, .ascii => pandaAscii frame height
      | .catPlay, .ascii => catAscii frame width
      | .off, _ => []
  (lines.take height.toNat).map fun line => clipCells line width.toNat

end NovaMux

import NovaMux.Lib.Utf8
import NovaMux.Lib.Word

/-! Pane trees, layouts and sessions of the core crate. An operation that the source would panic in
    (`expect`, an index out of bounds) has no result here. -/

namespace NovaMux

/-- A stable identifier for a pane within one session. -/
structure PaneId where
  get : UInt64
deriving DecidableEq, Repr

instance : Ord PaneId := ⟨compareOn PaneId.get⟩

instance : Std.TransOrd PaneId := inferInstanceAs (Std.TransCmp (compareOn PaneId.get))

instance : Std.LawfulEqOrd PaneId where
  eq_of_compare {a b} h := by
    have : compare a.get b.get = .eq := h
    cases a
    cases b
    simpa using this

inductive SplitDirection where
  /-- Places the new pane to the right. -/
  | horizontal
  /-- Places the new pane below. -/
  | vertical
deriving DecidableEq, Repr

inductive Node where
  | pane (id : PaneId)
  | split (direction : SplitDirection) (first second : Node)
deriving DecidableEq, Repr

structure Rect where
  x : UInt16
  y : UInt16
  width : UInt16
  height : UInt16
deriving DecidableEq, Repr

/-! ### Session names -/

inductive SessionNameError where
  | empty
  | tooLong
  | invalidCharacter
deriving DecidableEq, Repr

def SessionNameError.display : SessionNameError → String
  | .empty => "session name cannot be empty"
  | .tooLong => "session name cannot exceed 64 characters"
  | .invalidCharacter => "session name may contain only letters, numbers, '-' and '_'"

def isAsciiAlphanumeric (byte : UInt8) : Bool :=
  (0x30 ≤ byte && byte ≤ 0x39) || (0x41 ≤ byte && byte ≤ 0x5a) || (0x61 ≤ byte && byte ≤ 0x7a)

/-- The bytes of `[A-Za-z0-9_-]`. -/
def portableByte (byte : UInt8) : Bool := isAsciiAlphanumeric byte || byte == 0x2d || byte == 0x5f

/-- A validated session name. -/
structure SessionName where
  asStr : String
  nonempty : Utf8.bytes asStr ≠ []
  short : (Utf8.bytes asStr).length ≤ 64
  portable : (Utf8.bytes asStr).all portableByte = true
deriving DecidableEq

def SessionName.parse (value : String) : Except SessionNameError SessionName :=
  if h₁ : Utf8.bytes value = [] then .error .empty
  else if h₂ : (Utf8.bytes value).length > 64 then .error .tooLong
  else if h₃ : (Utf8.bytes value).all portableByte = true then .ok ⟨value, h₁, Nat.not_lt.mp h₂, h₃⟩
  else .error .invalidCharacter

/-- The name of the session in the runs on fixed inputs. -/
def SessionName.work : SessionName := ⟨"work", by decide, by decide, by decide⟩

theorem SessionName.parse_eq_ok {value : String} {name : SessionName} :
    SessionName.parse value = .ok name ↔ value = name.asStr := by
  unfold SessionName.parse
  refine ⟨fun h => ?_, fun he => ?_⟩
  · split at h
    · cases h
    · split at h
      · cases h
      · split at h
        · rw [← Except.ok.inj h]
        · cases h
  · subst he
    rw [dif_neg name.nonempty, dif_neg (Nat.not_lt.mpr name.short), dif_pos name.portable]

/-! ### Pane trees -/

def collectPanes (output : List PaneId) : Node → List PaneId
  | .pane id => output ++ [id]
  | .split _ first second => collectPanes (collectPanes output first) second

/-- The new tree, and whether `target` was found. The second child is searched only when the first
    does not contain it. -/
def splitNode (target newPane : PaneId) (direction : SplitDirection) : Node → Node × Bool
  | .pane id =>
    if id = target then (.split direction (.pane target) (.pane newPane), true) else (.pane id, false)
  | .split d first second =>
    match splitNode target newPane direction first with
    | (first, true) => (.split d first second, true)
    | (first, false) =>
      let (second, found) := splitNode target newPane direction second
      (.split d first second, found)

def removePane (target : PaneId) : Node → Option Node
  | .pane id => if id ≠ target then some (.pane id) else none
  | .split direction first second =>
    match removePane target first, removePane target second with
    | some first, some second => some (.split direction first second)
    | some survivor, none => some survivor
    | none, some survivor => some survivor
    | none, none => none

def splitRect (area : Rect) : SplitDirection → Rect × Rect
  | .horizontal =>
    let firstWidth := area.width.saturatingAdd 1 / 2
    ({ area with width := firstWidth },
      { area with x := area.x.saturatingAdd firstWidth, width := area.width.saturatingSub firstWidth })
  | .vertical =>
    let firstHeight := area.height.saturatingAdd 1 / 2
    ({ area with height := firstHeight },
      { area with y := area.y.saturatingAdd firstHeight, height := area.height.saturatingSub firstHeight })

def layoutNode (output : List (PaneId × Rect)) : Node → Rect → List (PaneId × Rect)
  | .pane id, area => output ++ [(id, area)]
  | .split direction first second, area =>
    let (firstArea, secondArea) := splitRect area direction
    layoutNode (layoutNode output first firstArea) second secondArea

/-! ### Sessions -/

/-- Mutable pane tree for a single multiplexer session. -/
structure Session where
  name : SessionName
  root : Node
  focused : PaneId
  nextId : UInt64
deriving DecidableEq

namespace Session

def new (name : SessionName) : Session :=
  { name, root := .pane ⟨1⟩, focused := ⟨1⟩, nextId := 2 }

/-- Pane identifiers in stable visual-tree order. -/
def panes (s : Session) : List PaneId := collectPanes [] s.root

/-- Splits the focused pane and focuses the newly created pane, which is returned. No result when the
    identifier space is exhausted. -/
def splitFocused (s : Session) (direction : SplitDirection) : Option (PaneId × Session) := do
  let newPane : PaneId := ⟨s.nextId⟩
  let nextId ← s.nextId.checkedAdd 1
  let root := (splitNode s.focused newPane direction s.root).1
  some (newPane, { s with root, focused := newPane, nextId })

def focusNext (s : Session) : Option Session := do
  let panes := s.panes
  let current ← panes.idxOf? s.focused
  let focused ← panes[(current + 1) % panes.length]?
  some { s with focused }

/-- Closes the focused pane, unless it is the last one; returns whether a pane was removed. -/
def closeFocused (s : Session) : Option (Bool × Session) := do
  let panes := s.panes
  if panes.length = 1 then
    return (false, s)
  let current ← panes.idxOf? s.focused
  let nextFocus ← panes[if current = 0 then 1 else current - 1]?
  let root ← removePane s.focused s.root
  some (true, { s with root, focused := nextFocus })

/-- Rectangles for all panes. Zero-area rectangles are kept. -/
def layout (s : Session) (area : Rect) : List (PaneId × Rect) := layoutNode [] s.root area

end Session

end NovaMux

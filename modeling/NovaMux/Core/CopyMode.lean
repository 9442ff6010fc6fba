import NovaMux.Lib.Word

/-! Client-local copy-mode navigation state. Offsets and page sizes are `usize`, 64 bits wide. -/

namespace NovaMux

inductive CopyModeAction where
  | olderLine
  | newerLine
  | olderPage
  | newerPage
  | exit
deriving DecidableEq, Repr

/-- Viewport state owned by one attached client, never by the session daemon. -/
structure CopyMode where
  active : Bool
  offset : UInt64
deriving DecidableEq, Repr

namespace CopyMode

def default : CopyMode := ⟨false, 0⟩

def enter (_mode : CopyMode) : CopyMode := ⟨true, 0⟩

def exit (_mode : CopyMode) : CopyMode := ⟨false, 0⟩

/-- Applies navigation while clamping to available retained history. -/
def apply (mode : CopyMode) (action : CopyModeAction) (pageRows maximum : UInt64) : CopyMode :=
  if mode.active = false then mode
  else
    match action with
    | .olderLine => { mode with offset := min (mode.offset.saturatingAdd 1) maximum }
    | .newerLine => { mode with offset := mode.offset.saturatingSub 1 }
    | .olderPage => { mode with offset := min (mode.offset.saturatingAdd pageRows) maximum }
    | .newerPage => { mode with offset := mode.offset.saturatingSub pageRows }
    | .exit => mode.exit

end CopyMode

end NovaMux

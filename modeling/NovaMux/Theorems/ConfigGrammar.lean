import NovaMux.Runtime.Config

/-! The grammar of a configuration and what a configuration says, apart from the parser: its lines, the
    settings among them and the values that a key admits. Colors are left open, for the grammar that is
    documented and the one that is accepted differ there. -/

namespace NovaMux.Config
open Str

/-! ### Lines -/

/-- A line without a setting: it is empty or a comment. -/
def Blank (raw : List Char) : Prop := trim raw = [] ∨ (trim raw).head? = some '#'

instance (raw : List Char) : Decidable (Blank raw) := inferInstanceAs (Decidable (_ ∨ _))

/-- The key and the value of a line `key = value`. -/
def setting? (raw : List Char) : Option (List Char × List Char) :=
  (splitOnce '=' (trim raw)).bind fun parts =>
    if trim parts.1 = [] ∨ trim parts.2 = [] then none else some (trim parts.1, trim parts.2)

def settings (lines : List (List Char)) : List (List Char × List Char) :=
  lines.filterMap fun raw => if Blank raw then none else setting? raw

/-! ### Values -/

def colorKeys : List String :=
  ["pane_border", "focused_border", "status", "status_background", "foreground", "background"]

def ColorKey (key : List Char) : Prop := String.ofList key ∈ colorKeys

instance (key : List Char) : Decidable (ColorKey key) := inferInstanceAs (Decidable (_ ∈ colorKeys))

/-- The values of a key. Keys that are not supported have none. -/
def Admissible (color : List Char → Option Color) (key value : List Char) : Prop :=
  match String.ofList key with
  | "theme" => (Theme.named (String.ofList value)).isSome
  | "animation" => (Animation.named (String.ofList value)).isSome
  | "screensaver" => (Screensaver.named (String.ofList value)).isSome
  | "scene_style" => (SceneStyle.named (String.ofList value)).isSome
  | "idle_seconds" => ∃ n, integer? 10 value = some n ∧ 10 ≤ n ∧ n ≤ 3600
  | "pane_border" => (color value).isSome
  | "focused_border" => (color value).isSome
  | "status" => (color value).isSome
  | "status_background" => (color value).isSome
  | "foreground" => (color value).isSome
  | "background" => (color value).isSome
  | _ => False

/-- What a setting changes. -/
def assign (color : List Char → Option Color) (config : Config) (setting : List Char × List Char) : Config :=
  let name := String.ofList setting.2
  let painted (old : Color) := (color setting.2).getD old
  match String.ofList setting.1 with
  | "theme" => { config with theme := (Theme.named name).getD config.theme }
  | "animation" => { config with animation := (Animation.named name).getD config.animation }
  | "screensaver" => { config with screensaver := (Screensaver.named name).getD config.screensaver }
  | "scene_style" => { config with sceneStyle := (SceneStyle.named name).getD config.sceneStyle }
  | "idle_seconds" =>
    { config with idleSeconds := ((integer? 10 setting.2).map UInt16.ofNat).getD config.idleSeconds }
  | "pane_border" => { config with theme.paneBorder := painted config.theme.paneBorder }
  | "focused_border" => { config with theme.focusedBorder := painted config.theme.focusedBorder }
  | "status" => { config with theme.status := painted config.theme.status }
  | "status_background" => { config with theme.statusBackground := painted config.theme.statusBackground }
  | "foreground" => { config with theme.foreground := painted config.theme.foreground }
  | "background" => { config with theme.background := painted config.theme.background }
  | _ => config

/-- A color is a name, or a number sign and three pairs that give its red, green and blue components. -/
def colorWith (pair : List Char → Option Nat) (value : List Char) : Option Color :=
  match Color.named (String.ofList value), value with
  | some color, _ => some color
  | none, ['#', a, b, c, d, e, f] => do
    let red ← pair [a, b]
    let green ← pair [c, d]
    let blue ← pair [e, f]
    some (.rgb (UInt8.ofNat red) (UInt8.ofNat green) (UInt8.ofNat blue))
  | none, _ => none

/-- Colors as documented: the pairs are of hexadecimal digits. -/
def documentedColor : List Char → Option Color := colorWith (appendDigits 16 0)

/-- Colors as read: a pair may also be a sign and a digit. -/
def acceptedColor : List Char → Option Color := colorWith (integer? 16)

/-! ### Texts -/

/-- Lines that make a configuration, behind others that set the keys `seen`. -/
structure Grammar (color : List Char → Option Color) (seen : List (List Char)) (lines : List (List Char)) :
    Prop where
  short : ∀ raw ∈ lines, size raw ≤ maxLineBytes
  shaped : ∀ raw ∈ lines, Blank raw ∨ (setting? raw).isSome
  distinct : (seen ++ (settings lines).map (·.1)).Nodup
  admissible : ∀ setting ∈ settings lines, Admissible color setting.1 setting.2

/-- The configuration that lines describe. -/
def meaning (color : List Char → Option Color) (lines : List (List Char)) (config : Config) : Config :=
  (settings lines).foldl (assign color) config

/-- The limits on a whole text. -/
structure Bounded (source : String) : Prop where
  bytes : size source.toList ≤ maxConfigBytes
  lines : (lines source.toList).length ≤ maxLines

/-- A text that is a configuration. -/
structure WellFormed (color : List Char → Option Color) (source : String) : Prop where
  bounded : Bounded source
  grammar : Grammar color [] (lines source.toList)

end NovaMux.Config

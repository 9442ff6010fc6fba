import NovaMux.Lib.Str

/-! Strict, local-only user configuration: the parser of its text. It has no result where the source would
    panic, which a slice that starts or ends inside of a character does. -/

namespace NovaMux

def maxConfigBytes : Nat := 16 * 1024

def maxLines : Nat := 64

def maxLineBytes : Nat := 512

/-- A terminal color. -/
inductive Color where
  | black
  | red
  | green
  | yellow
  | blue
  | magenta
  | cyan
  | white
  | darkGrey
  | grey
  | rgb (red green blue : UInt8)
deriving DecidableEq, Repr

/-- Colors used by the local TUI renderer. -/
structure Theme where
  paneBorder : Color
  focusedBorder : Color
  status : Color
  statusBackground : Color
  foreground : Color
  background : Color
deriving DecidableEq, Repr

namespace Theme

def defaultTheme : Theme where
  paneBorder := .darkGrey
  focusedBorder := .cyan
  status := .black
  statusBackground := .cyan
  foreground := .white
  background := .black

def highContrast : Theme where
  paneBorder := .white
  focusedBorder := .yellow
  status := .black
  statusBackground := .yellow
  foreground := .white
  background := .black

def sakura : Theme where
  paneBorder := .rgb 118 81 138
  focusedBorder := .rgb 255 92 168
  status := .rgb 255 238 248
  statusBackground := .rgb 125 45 118
  foreground := .rgb 248 232 244
  background := .rgb 24 15 30

def rgb (pane focused background statusBackground foreground : UInt8 × UInt8 × UInt8) : Theme where
  paneBorder := .rgb pane.1 pane.2.1 pane.2.2
  focusedBorder := .rgb focused.1 focused.2.1 focused.2.2
  status := .rgb foreground.1 foreground.2.1 foreground.2.2
  statusBackground := .rgb statusBackground.1 statusBackground.2.1 statusBackground.2.2
  foreground := .rgb foreground.1 foreground.2.1 foreground.2.2
  background := .rgb background.1 background.2.1 background.2.2

def dracula : Theme := rgb (68, 71, 90) (189, 147, 249) (40, 42, 54) (255, 121, 198) (248, 248, 242)

def cyberpunk : Theme := rgb (61, 43, 88) (0, 255, 224) (18, 10, 36) (255, 35, 149) (246, 241, 255)

def ocean : Theme := rgb (35, 78, 112) (77, 220, 255) (8, 27, 42) (20, 115, 145) (221, 247, 255)

def forest : Theme := rgb (54, 91, 67) (144, 238, 144) (13, 31, 20) (45, 103, 63) (230, 247, 232)

def nord : Theme := rgb (76, 86, 106) (136, 192, 208) (46, 52, 64) (94, 129, 172) (236, 239, 244)

def solarizedDark : Theme := rgb (88, 110, 117) (181, 137, 0) (0, 43, 54) (7, 54, 66) (147, 161, 161)

def sunset : Theme := rgb (120, 68, 92) (255, 180, 84) (35, 20, 42) (171, 58, 91) (255, 235, 208)

/-- The built-in theme of a name. -/
def named : String → Option Theme
  | "default" => some defaultTheme
  | "high-contrast" => some highContrast
  | "sakura" => some sakura
  | "dracula" => some dracula
  | "cyberpunk" => some cyberpunk
  | "ocean" => some ocean
  | "forest" => some forest
  | "nord" => some nord
  | "solarized-dark" => some solarizedDark
  | "sunset" => some sunset
  | _ => none

end Theme

inductive Animation where
  | off
  | subtle
deriving DecidableEq, Repr

def Animation.named : String → Option Animation
  | "off" => some .off
  | "subtle" => some .subtle
  | _ => none

inductive Screensaver where
  | off
  | pandaClimb
  | catPlay
deriving DecidableEq, Repr

def Screensaver.named : String → Option Screensaver
  | "off" => some .off
  | "panda-climb" => some .pandaClimb
  | "cat-play" => some .catPlay
  | _ => none

/-- Character set used for client-local idle artwork. -/
inductive SceneStyle where
  | unicode
  | ascii
deriving DecidableEq, Repr

def SceneStyle.named : String → Option SceneStyle
  | "unicode" => some .unicode
  | "ascii" => some .ascii
  | _ => none

def Color.named : String → Option Color
  | "black" => some .black
  | "red" => some .red
  | "green" => some .green
  | "yellow" => some .yellow
  | "blue" => some .blue
  | "magenta" => some .magenta
  | "cyan" => some .cyan
  | "white" => some .white
  | "dark-grey" => some .darkGrey
  | "grey" => some .grey
  | _ => none

/-- Complete local-client configuration. -/
structure Config where
  theme : Theme
  animation : Animation
  screensaver : Screensaver
  idleSeconds : UInt16
  sceneStyle : SceneStyle
deriving DecidableEq, Repr

def Config.default : Config where
  theme := .defaultTheme
  animation := .off
  screensaver := .off
  idleSeconds := 300
  sceneStyle := .unicode

/-- Why a text is not a configuration. -/
inductive ConfigError where
  | invalid (line : Nat) (message : String)
  | tooLarge
deriving DecidableEq, Repr

def ConfigError.display : ConfigError → String
  | .invalid line message => "configuration line " ++ toString line ++ ": " ++ message
  | .tooLarge => "configuration exceeds the 16384-byte limit"

namespace Config

/-- What a step of the parser returns, or `none` when it panics. -/
abbrev Parsed (α : Type) := Option (Except ConfigError α)

def invalid {α : Type} (line : Nat) (message : String) : Parsed α := some (.error (.invalid line message))

def parseSceneStyle (value : List Char) (line : Nat) : Parsed SceneStyle :=
  match SceneStyle.named (String.ofList value) with
  | some style => some (.ok style)
  | none => invalid line "scene_style must be 'unicode' or 'ascii'"

/-- The number that a slice of a value spells, if it spells one. -/
def component (value : List Char) (start stop : Nat) : Option (Option Nat) :=
  (Str.slice? value start stop).map (Str.fromStrRadix 16 255)

/-- All three components are read before any is looked at. -/
def components (value : List Char) : Option (Option Nat × Option Nat × Option Nat) := do
  let red ← component value 1 3
  let green ← component value 3 5
  let blue ← component value 5 7
  some (red, green, blue)

def parseColor (value : List Char) (line : Nat) : Parsed Color :=
  match Color.named (String.ofList value) with
  | some color => some (.ok color)
  | none =>
    let unknown := "invalid color '" ++ String.ofList value ++ "'; use a supported name or #RRGGBB"
    if Str.size value = 7 ∧ value.head? = some '#' then
      match components value with
      | none => none
      | some (some red, some green, some blue) =>
        some (.ok (.rgb (UInt8.ofNat red) (UInt8.ofNat green) (UInt8.ofNat blue)))
      | some _ => invalid line unknown
    else invalid line unknown

/-- Stores a value that has been read. -/
def store {α β : Type} (parsed : Parsed α) (update : α → β) : Parsed β :=
  parsed.map fun outcome => outcome.map update

/-- Stores the value of a list of names. -/
def choose {α : Type} (value : Option α) (line : Nat) (message : String) (update : α → Config) : Parsed Config :=
  match value with
  | some value => some (.ok (update value))
  | none => invalid line message

/-- Changes one color of the theme. -/
def setColor (config : Config) (value : List Char) (line : Nat) (update : Theme → Color → Theme) : Parsed Config :=
  store (parseColor value line) fun color => { config with theme := update config.theme color }

/-- Applies one setting. -/
def setting (config : Config) (key value : List Char) (line : Nat) : Parsed Config :=
  match String.ofList key with
  | "theme" =>
    choose (Theme.named (String.ofList value)) line "unknown built-in theme" fun theme => { config with theme }
  | "animation" =>
    choose (Animation.named (String.ofList value)) line "animation must be 'off' or 'subtle'"
      fun animation => { config with animation }
  | "screensaver" =>
    choose (Screensaver.named (String.ofList value)) line "screensaver must be 'off', 'panda-climb', or 'cat-play'"
      fun screensaver => { config with screensaver }
  | "idle_seconds" =>
    match Str.fromStrRadix 10 65535 value with
    | none => invalid line "idle_seconds must be an integer from 10 to 3600"
    | some idleSeconds =>
      if 10 ≤ idleSeconds ∧ idleSeconds ≤ 3600 then
        some (.ok { config with idleSeconds := UInt16.ofNat idleSeconds })
      else invalid line "idle_seconds must be from 10 to 3600"
  | "scene_style" => store (parseSceneStyle value line) fun sceneStyle => { config with sceneStyle }
  | "pane_border" => config.setColor value line fun theme paneBorder => { theme with paneBorder }
  | "focused_border" => config.setColor value line fun theme focusedBorder => { theme with focusedBorder }
  | "status" => config.setColor value line fun theme status => { theme with status }
  | "status_background" => config.setColor value line fun theme statusBackground => { theme with statusBackground }
  | "foreground" => config.setColor value line fun theme foreground => { theme with foreground }
  | "background" => config.setColor value line fun theme background => { theme with background }
  | key => invalid line ("unknown key '" ++ key ++ "'")

/-- Reads one line, given the configuration and the keys of the lines before it. -/
def parseLine (line : Nat) (raw : List Char) (config : Config) (seen : List (List Char)) :
    Parsed (Config × List (List Char)) :=
  if Str.size raw > maxLineBytes then invalid line "line exceeds the 512-byte limit"
  else
    let text := Str.trim raw
    if text = [] ∨ text.head? = some '#' then some (.ok (config, seen))
    else
      match Str.splitOnce '=' text with
      | none => invalid line "expected key = value"
      | some (key, value) =>
        let key := Str.trim key
        let value := Str.trim value
        if key = [] ∨ value = [] then invalid line "key and value must not be empty"
        else if key ∈ seen then invalid line ("duplicate key '" ++ String.ofList key ++ "'")
        else store (config.setting key value line) fun config => (config, seen ++ [key])

/-- Reads the lines in turn, up to the first error. -/
def parseLines : Nat → List (List Char) → Config → List (List Char) → Parsed Config
  | _, [], config, _ => some (.ok config)
  | line, raw :: rest, config, seen =>
    match parseLine line raw config seen with
    | none => none
    | some (.error error) => some (.error error)
    | some (.ok (config, seen)) => parseLines (line + 1) rest config seen

/-- Parses a configuration without performing I/O. -/
def parse (source : String) : Parsed Config :=
  if Str.size source.toList > maxConfigBytes then some (.error .tooLarge)
  else if (Str.lines source.toList).length > maxLines then invalid (maxLines + 1) "at most 64 lines are allowed"
  else parseLines 1 (Str.lines source.toList) .default []

end Config

end NovaMux

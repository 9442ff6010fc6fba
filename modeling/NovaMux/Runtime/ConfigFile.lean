import NovaMux.Lib.ByteStream
import NovaMux.Lib.Utf8
import NovaMux.Runtime.Config

/-! Loading the configuration. The system decides what becomes of the path: `ConfigFile` lists its answers, and behind the
    last read it finds the end of the file. Paths are those of a system that is neither macOS nor Windows. -/

namespace NovaMux

open ByteStream

inductive OpenFailure where
  | notFound
  | other (message : String)
deriving DecidableEq, Repr

/-- Configuration read or validation error. -/
inductive LoadError where
  | io (message : String)
  | config (error : ConfigError)
deriving DecidableEq, Repr

def LoadError.display : LoadError → String
  | .io message => "cannot read configuration: " ++ message
  | .config error => error.display

def LoadError.ofIo : IoError → LoadError
  | .unexpectedEof => .io "failed to fill whole buffer"
  | .other message => .io message

structure ConfigFile where
  opening : Option OpenFailure
  /-- Whether it is a regular file, and its length as it is opened. -/
  metadata : Except String (Bool × Nat)
  events : List Event

namespace Config

/-- Loads an explicit path. No result where the parser would panic. -/
def loadPath (file : ConfigFile) : Option (Except LoadError Config) :=
  match file.opening with
  | some .notFound => some (.ok .default)
  | some (.other message) => some (.error (.io message))
  | none =>
    match file.metadata with
    | .error message => some (.error (.io message))
    | .ok (isFile, length) =>
      if !isFile then some (.error (.io "configuration path is not a regular file"))
      else if length > maxConfigBytes then some (.error (.config .tooLarge))
      else
        match readToEnd (maxConfigBytes + 1) file.events with
        | .error error => some (.error (.ofIo error))
        | .ok bytes =>
          if bytes.length > maxConfigBytes then some (.error (.config .tooLarge))
          else
            match Utf8.text? bytes with
            | none => some (.error (.config (.invalid 1 "configuration must be valid UTF-8")))
            | some source => (parse source).map (Except.mapError .config)

def isAbsolute (path : String) : Bool := path.toList.head? = some '/'

def join (path name : String) : String := if path.toList.getLast? = some '/' then path ++ name else path ++ "/" ++ name

/-- The platform's conventional path, by the environment. -/
def platformPath (env : String → Option String) : Option String :=
  match (env "XDG_CONFIG_HOME").filter isAbsolute with
  | some root => some (join (join root "novamux") "config")
  | none => ((env "HOME").filter isAbsolute).map fun home => join (join (join home ".config") "novamux") "config"

/-- Loads the platform configuration. -/
def load (env : String → Option String) (files : String → ConfigFile) : Option (Except LoadError Config) :=
  match platformPath env with
  | some path => loadPath (files path)
  | none => some (.ok .default)

end Config

end NovaMux

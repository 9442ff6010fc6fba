import NovaMux.Core.Protocol

/-! The command line. What a command asks of the daemon, or has another part of the program do, is given by its outcome;
    errors are texts. -/

namespace NovaMux

def help : String :=
  "NovaMux 0.1.0\n\nUSAGE:\n    novamux shell\n    novamux start\n    novamux new SESSION_NAME\n" ++
  "    novamux attach SESSION_NAME\n    novamux list\n    novamux demo [SESSION_NAME]\n    novamux help\n\n" ++
  "The shell command opens the platform's fixed default shell in a real PTY.\n" ++
  "Type 'exit' or press Control-D to return to your normal terminal.\n"

/-- What a command leaves behind: its output, its error output and its exit code. -/
structure Printed where
  out : String
  err : String
  code : UInt8
deriving DecidableEq, Repr

namespace Commands

def success (out : String) : Printed := { out, err := "", code := 0 }

def failure (err : String) : Printed := { out := "", err, code := 1 }

def usageError (message : String) : Printed := { out := "", err := message ++ "\n\n" ++ help ++ "\n", code := 2 }

def runAttach (value : String) (attach : SessionName → Except String Unit) : Printed :=
  match SessionName.parse value with
  | .error error => usageError ("invalid session name: " ++ error.display)
  | .ok name =>
    match attach name with
    | .ok () => success "NovaMux: detached\n"
    | .error error => failure ("NovaMux attach failed: " ++ error ++ "\n")

def runNew (value : String) (ask : Request → Except String Response) : Printed :=
  match SessionName.parse value with
  | .error error => usageError ("invalid session name: " ++ error.display)
  | .ok name =>
    match ask (.create name) with
    | .ok (.created name) => success ("created session " ++ name.asStr ++ "\n")
    | .ok (.error _ message) => failure ("NovaMux: " ++ message ++ "\n")
    | .ok _ => failure "NovaMux: unexpected daemon response\n"
    | .error error => failure ("NovaMux: " ++ error ++ "\n")

/-- The line of a session in a list. -/
def listLine (info : SessionInfo) : String := info.name.asStr ++ "\t" ++ toString info.attachedClients ++ " attached\n"

def runList (ask : Request → Except String Response) : Printed :=
  match ask .list with
  | .ok (.sessions sessions) =>
    if sessions.isEmpty then success "no sessions\n" else success (String.join (sessions.map listLine))
  | .ok (.error _ message) => failure ("NovaMux: " ++ message ++ "\n")
  | .ok _ => failure "NovaMux: unexpected daemon response\n"
  | .error error => failure ("NovaMux: " ++ error ++ "\n")

def runStart (started : Except String Unit) : Printed :=
  match started with
  | .ok () => success ""
  | .error error => failure ("NovaMux failed: " ++ error ++ "\n")

end Commands

/-- What a command line asks for. -/
inductive Invocation where
  | start
  | new (value : String)
  | attach (value : String)
  | list
  | server
  | shell
  | demo (name : String)
  | help
  | refused (printed : Printed)
deriving DecidableEq, Repr

/-- Reads the arguments behind the name of the program. -/
def main : List String → Invocation
  | "start" :: _ => .start
  | ["new", name] => .new name
  | "new" :: _ => .refused (Commands.usageError "new requires exactly one session name")
  | ["attach", name] => .attach name
  | "attach" :: _ => .refused (Commands.usageError "attach requires exactly one session name")
  | ["list"] => .list
  | ["__server"] => .server
  | "shell" :: _ => .shell
  | "demo" :: arguments => .demo (arguments.head?.getD "dev")
  | [] | "help" :: _ | "--help" :: _ | "-h" :: _ => .help
  | command :: _ =>
    .refused { out := "", err := "unknown command: " ++ command ++ "\n\n" ++ NovaMux.help ++ "\n", code := 2 }

end NovaMux

import Mathlib.Logic.Function.Basic
import NovaMux.Runtime.Endpoint

/-! The runtime directory of a user among other users. Processes of the user run `ensure_runtime_dir` on one path and
    interleave at their system calls with whatever other users do in the directory above. There anyone can make an object
    where there is none; only its owner can change its mode, and who can remove it depends on the directory above, which
    the program does not look at. The superuser is left out. -/

namespace NovaMux

inductive FileKind where
  | directory
  | symlink
  | other
deriving DecidableEq

/-- What `symlink_metadata` tells about the object at the path; of the mode, the permissions. -/
structure DirEntry where
  /-- Which object it is. -/
  ino : Nat
  kind : FileKind
  uid : Nat
  mode : UInt32
deriving DecidableEq

/-- Whether a user may look into a directory or act on what is in it. -/
def DirEntry.admits (entry : DirEntry) (uid : Nat) : Bool := uid = entry.uid ∨ entry.mode &&& 0o077 ≠ 0

def validateRuntimeMetadata (euid : Nat) (entry : DirEntry) : Except TransportError Unit :=
  if entry.kind ≠ .directory then .error (.insecurePath "runtime path is not a real directory")
  else if entry.uid ≠ euid then .error (.insecurePath "runtime directory is owned by another user")
  else if entry.mode &&& 0o077 ≠ 0 then
    .error (.insecurePath "runtime directory permits group or other access")
  else .ok ()

/-- Where a process is in `ensure_runtime_dir`. -/
inductive Ensuring where
  | looking
  /-- Before making the directory. -/
  | making
  /-- Before looking at what it has made, or has found made. -/
  | checking
  | ready
  | refused (error : TransportError)
deriving DecidableEq

/-- The object at the path and `n` processes with the effective user `euid`. -/
structure BaseDir (n : Nat) where
  euid : Nat
  /-- In the directory above, nobody can remove what belongs to someone else. -/
  sticky : Bool
  entry : Option DirEntry
  /-- The number of the next object. -/
  inodes : Nat
  process : Fin n → Ensuring

namespace BaseDir

variable {n : Nat}

def start (n euid : Nat) (sticky : Bool) (entry : Option DirEntry) : BaseDir n :=
  { euid, sticky, entry, inodes := entry.elim 0 fun entry => entry.ino + 1, process := fun _ => .looking }

inductive Action (n : Nat) where
  | lstat (i : Fin n) (ok : Bool)
  /-- What the process masks of the mode of a new directory. -/
  | mkdir (i : Fin n) (ok : Bool) (umask : UInt32)
  /-- Another user makes an object where there is none. -/
  | plant (uid : Nat) (kind : FileKind) (mode : UInt32)
  /-- Another user changes the mode of an object. -/
  | chmod (uid : Nat) (mode : UInt32)
  /-- Another user removes an object or moves it away. -/
  | unlink (uid : Nat)
deriving DecidableEq

/-- The process `i` goes on, and nothing else changes. -/
def move (s : BaseDir n) (i : Fin n) (ensuring : Ensuring) : BaseDir n :=
  { s with process := Function.update s.process i ensuring }

/-- A new object is at the path. -/
def place (s : BaseDir n) (kind : FileKind) (uid : Nat) (mode : UInt32) : BaseDir n :=
  { s with entry := some { ino := s.inodes, kind, uid, mode }, inodes := s.inodes + 1 }

def validated (s : BaseDir n) (i : Fin n) (entry : DirEntry) : BaseDir n :=
  match validateRuntimeMetadata s.euid entry with
  | .ok () => s.move i .ready
  | .error error => s.move i (.refused error)

def step (s : BaseDir n) : Action n → Option (BaseDir n)
  | .lstat i true =>
    match s.process i, s.entry with
    | .looking, none => some (s.move i .making)
    | .checking, none => some (s.move i (.refused (.io .notFound)))
    | .looking, some entry | .checking, some entry => some (s.validated i entry)
    | _, _ => none
  | .lstat i false =>
    match s.process i with
    | .looking | .checking => some (s.move i (.refused (.io .other)))
    | _ => none
  | .mkdir i true umask =>
    match s.process i, s.entry with
    | .making, none => some ((s.move i .checking).place .directory s.euid (0o700 &&& ~~~umask))
    -- somebody else has been faster
    | .making, some _ => some (s.move i .checking)
    | _, _ => none
  | .mkdir i false _ =>
    match s.process i with
    | .making => some (s.move i (.refused (.io .other)))
    | _ => none
  | .plant uid kind mode =>
    match s.entry with
    | none => if uid ≠ s.euid then some (s.place kind uid mode) else none
    | some _ => none
  | .chmod uid mode =>
    match s.entry with
    | some entry =>
      if uid ≠ s.euid ∧ entry.uid = uid then some { s with entry := some { entry with mode } } else none
    | none => none
  | .unlink uid =>
    match s.entry with
    | some entry =>
      if uid ≠ s.euid ∧ (s.sticky = true → entry.uid = uid) then some { s with entry := none } else none
    | none => none

end BaseDir

end NovaMux

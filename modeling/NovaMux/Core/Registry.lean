import NovaMux.Core.Session
import Std.Data.ExtTreeMap
import Std.Data.ExtTreeSet

/-! Runtime resources owned by the panes of one session. The core does not know what a resource is: creating
    one is a step on a state of the caller, which may fail. -/

namespace NovaMux

open Std

structure PaneRegistry (T : Type) where
  resources : ExtTreeMap PaneId T

namespace PaneRegistry

variable {T E S : Type}

def new : PaneRegistry T := ⟨∅⟩

def len (registry : PaneRegistry T) : Nat := registry.resources.size

def isEmpty (registry : PaneRegistry T) : Bool := registry.resources.isEmpty

def get (registry : PaneRegistry T) (pane : PaneId) : Option T := registry.resources[pane]?

/-- What a mutable borrow of the resource for a pane leaves behind. -/
def set (registry : PaneRegistry T) (pane : PaneId) (resource : T) : PaneRegistry T :=
  ⟨registry.resources.insert pane resource⟩

/-- Creates a resource for every missing pane in turn. Those created before a failure are dropped. -/
def createMissing (create : PaneId → S → Except E T × S) : List PaneId → S → Except E (List (PaneId × T)) × S
  | [], s => (.ok [], s)
  | pane :: missing, s =>
    match create pane s with
    | (.error error, s) => (.error error, s)
    | (.ok resource, s) =>
      match createMissing create missing s with
      | (.error error, s) => (.error error, s)
      | (.ok created, s) => (.ok ((pane, resource) :: created), s)

def removeAll : List PaneId → ExtTreeMap PaneId T → List (PaneId × T) × ExtTreeMap PaneId T
  | [], resources => ([], resources)
  | pane :: removedIds, resources =>
    let (removed, rest) := removeAll removedIds (resources.erase pane)
    match resources[pane]? with
    | some resource => ((pane, resource) :: removed, rest)
    | none => (removed, rest)

def wanted (session : Session) : ExtTreeSet PaneId := ExtTreeSet.ofList session.panes

/-- Reconciles resources with the current session pane tree. Missing resources are created before the
    registry is modified; the resources for removed panes are returned in ascending order. -/
def reconcile (registry : PaneRegistry T) (session : Session) (create : PaneId → S → Except E T × S) (s : S) :
    Except E (List (PaneId × T)) × PaneRegistry T × S :=
  let wanted := wanted session
  let missing := wanted.toList.filter fun pane => !registry.resources.contains pane
  match createMissing create missing s with
  | (.error error, s) => (.error error, registry, s)
  | (.ok created, s) =>
    let removedIds := registry.resources.keys.filter fun pane => !wanted.contains pane
    let (removed, resources) := removeAll removedIds registry.resources
    (.ok removed, ⟨resources.insertMany created⟩, s)

end PaneRegistry

end NovaMux

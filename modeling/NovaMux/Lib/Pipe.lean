import NovaMux.Lib.ByteStream
import Mathlib.Data.List.Forall2

/-! Connections as pipes of bytes, one in each direction. Writes pass on their bytes in pieces, and the bytes
    arrive in other pieces, in between interruptions and failures. Messages whose frames cannot be confused
    come out of a pipe as they went in. -/

namespace ByteStream

/-- One direction of a connection: the bytes that a write has not passed on yet, the bytes on their way, and
    what reads at the other end will return. -/
structure Pipe where
  unsent : List UInt8
  flight : List UInt8
  arrived : List Event

/-- What reaches the end of a pipe. -/
inductive Arrival where
  | bytes (n : Nat)
  | interrupted
  | eof
  | failed (error : IoError)

namespace Pipe

def empty : Pipe := { unsent := [], flight := [], arrived := [] }

/-- Starts to write a frame. -/
def write (pipe : Pipe) (frame : List UInt8) : Pipe := { pipe with unsent := pipe.unsent ++ frame }

/-- Passes on the next bytes of a write. -/
def push (pipe : Pipe) (n : Nat) : Pipe :=
  { pipe with unsent := pipe.unsent.drop n, flight := pipe.flight ++ pipe.unsent.take n }

/-- No bytes at all would be the end of the stream, so these do not arrive. -/
def arrive (pipe : Pipe) : Arrival → Pipe
  | .bytes n =>
    if pipe.flight.take n = [] then pipe
    else { pipe with flight := pipe.flight.drop n, arrived := pipe.arrived ++ [.data (pipe.flight.take n)] }
  | .interrupted => { pipe with arrived := pipe.arrived ++ [.interrupted] }
  | .eof => { pipe with arrived := pipe.arrived ++ [.data []] }
  | .failed error => { pipe with arrived := pipe.arrived ++ [.failed error] }

/-- The bytes that have been written and not read. -/
def bytes (pipe : Pipe) : List UInt8 := content pipe.arrived ++ pipe.flight ++ pipe.unsent

@[simp] theorem bytes_write (pipe : Pipe) (frame : List UInt8) : (pipe.write frame).bytes = pipe.bytes ++ frame := by
  simp [write, bytes]

@[simp] theorem bytes_push (pipe : Pipe) (n : Nat) : (pipe.push n).bytes = pipe.bytes := by
  simp [push, bytes]

@[simp] theorem bytes_arrive (pipe : Pipe) (arrival : Arrival) : (pipe.arrive arrival).bytes = pipe.bytes := by
  cases arrival with
  | bytes n =>
    rw [arrive]
    split
    · rfl
    · simp only [bytes, content_append, content, List.append_nil, List.append_assoc]
      rw [← List.append_assoc (List.take n pipe.flight), List.take_append_drop]
  | interrupted => simp [arrive, bytes, content]
  | eof => simp [arrive, bytes, content]
  | failed error => simp [arrive, bytes, content]

end Pipe

variable {α ε ε' : Type} {encode : α → Except ε (List UInt8)} {get : List Event → Outcome ε' α}

/-- What writers and readers of messages have to agree on: a message is read from its frame only, and no frame
    begins another one. -/
structure Framing (encode : α → Except ε (List UInt8)) (get : List Event → Outcome ε' α) : Prop where
  get_done : ∀ {events rest message}, get events = .done message rest →
    ∃ frame, encode message = .ok frame ∧ content events = frame ++ content rest
  prefix_free : ∀ {message message' frame frame' after after'}, encode message = .ok frame →
    encode message' = .ok frame' → frame ++ after = frame' ++ after' → message = message'
  nonempty : ∀ {message frame}, encode message = .ok frame → frame ≠ []

/-- The bytes of a pipe are the frames of some messages. -/
def Pipe.Carries (pipe : Pipe) (encode : α → Except ε (List UInt8)) (messages : List α) : Prop :=
  ∃ frames, List.Forall₂ (fun message frame => encode message = .ok frame) messages frames ∧
    pipe.bytes = frames.flatten

theorem Pipe.carries_empty : Pipe.empty.Carries encode [] := ⟨[], .nil, rfl⟩

variable {pipe pipe' : Pipe} {messages : List α}

theorem Pipe.Carries.of_bytes (h : pipe.Carries encode messages) (hbytes : pipe'.bytes = pipe.bytes) :
    pipe'.Carries encode messages := by
  obtain ⟨frames, hframes, he⟩ := h
  exact ⟨frames, hframes, hbytes.trans he⟩

theorem Pipe.Carries.write {message : α} {frame : List UInt8} (h : pipe.Carries encode messages)
    (hm : encode message = .ok frame) : (pipe.write frame).Carries encode (messages ++ [message]) := by
  obtain ⟨frames, hframes, he⟩ := h
  refine ⟨frames ++ [frame], List.rel_append hframes (.cons hm .nil), ?_⟩
  rw [Pipe.bytes_write, he, List.flatten_append, List.flatten_singleton]

/-- A reader takes the first message out of a pipe. -/
theorem Pipe.Carries.read {message : α} {rest : List Event} (h : pipe.Carries encode messages)
    (framing : Framing encode get) (hr : get pipe.arrived = .done message rest) :
    ∃ messages', messages = message :: messages' ∧ ({ pipe with arrived := rest } : Pipe).Carries encode messages' := by
  obtain ⟨frame, hm, hcontent⟩ := framing.get_done hr
  obtain ⟨frames, hframes, he⟩ := h
  rw [bytes, hcontent, List.append_assoc, List.append_assoc] at he
  cases hframes with
  | nil => exact absurd (List.append_eq_nil_iff.mp he).1 (framing.nonempty hm)
  | @cons message' frame' messages' frames' hm' hframes =>
    rw [List.flatten_cons] at he
    obtain rfl := framing.prefix_free hm hm' he
    obtain rfl := Except.ok.inj (hm.symm.trans hm')
    refine ⟨messages', rfl, frames', hframes, ?_⟩
    rw [bytes, List.append_assoc]
    exact List.append_cancel_left he

end ByteStream

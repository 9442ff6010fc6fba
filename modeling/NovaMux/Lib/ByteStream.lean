import Mathlib.Data.List.Basic

/-! Byte streams and their readers. A stream is given by what its reads return, one after the other: a read
    takes at most as many bytes as it asks for and leaves the others for the next one. A reader is done with
    a value and the rest of the stream, fails, or waits for bytes that are not there yet. -/

namespace ByteStream

inductive IoError where
  | unexpectedEof
  | other (message : String)
deriving DecidableEq, Repr

/-- What a read returns: the bytes that are there, or none at the end of the stream. -/
inductive Event where
  | data (bytes : List UInt8)
  | interrupted
  | failed (error : IoError)
deriving DecidableEq, Repr

/-- The bytes of a stream, those behind its end or a failure included. -/
def content : List Event → List UInt8
  | [] => []
  | .data bytes :: events => bytes ++ content events
  | .interrupted :: events => content events
  | .failed _ :: events => content events

/-- A stream without an end or a failure: each read returns some bytes or has to be repeated. -/
def Flows (events : List Event) : Prop := ∀ event ∈ events, event = .interrupted ∨ ∃ b bs, event = .data (b :: bs)

inductive Outcome (ε α : Type) where
  | done (value : α) (rest : List Event)
  | error (e : ε)
  | waiting (wanted : Nat)
deriving DecidableEq

namespace Outcome

variable {ε ε' α β : Type}

/-- Goes on with the value and the rest of the stream. -/
def bind (outcome : Outcome ε α) (next : α → List Event → Outcome ε β) : Outcome ε β :=
  match outcome with
  | .done value rest => next value rest
  | .error e => .error e
  | .waiting wanted => .waiting wanted

def map (f : α → β) (outcome : Outcome ε α) : Outcome ε β := outcome.bind fun value rest => .done (f value) rest

def mapError (f : ε → ε') : Outcome ε α → Outcome ε' α
  | .done value rest => .done value rest
  | .error e => .error (f e)
  | .waiting wanted => .waiting wanted

theorem bind_eq_done {outcome : Outcome ε α} {next : α → List Event → Outcome ε β} {b : β} {rest : List Event} :
    outcome.bind next = .done b rest ↔ ∃ a between, outcome = .done a between ∧ next a between = .done b rest := by
  cases outcome <;> simp [bind]

theorem map_eq_done {outcome : Outcome ε α} {f : α → β} {b : β} {rest : List Event} :
    outcome.map f = .done b rest ↔ ∃ a, outcome = .done a rest ∧ f a = b := by
  cases outcome <;> simp [map, bind, and_comm]

theorem mapError_eq_done {outcome : Outcome ε α} {f : ε → ε'} {a : α} {rest : List Event} :
    outcome.mapError f = .done a rest ↔ outcome = .done a rest := by
  cases outcome <;> simp [mapError]

end Outcome

/-- Reads until `wanted` bytes are there, through interruptions. -/
def readExact : Nat → List Event → Outcome IoError (List UInt8)
  | 0, events => .done [] events
  | wanted + 1, [] => .waiting (wanted + 1)
  | wanted + 1, .interrupted :: events => readExact (wanted + 1) events
  | _ + 1, .failed error :: _ => .error error
  | _ + 1, .data [] :: _ => .error .unexpectedEof
  | wanted + 1, .data (b :: bs) :: events =>
    if bs.length ≤ wanted then (readExact (wanted - bs.length) events).map ((b :: bs) ++ ·)
    else .done (b :: bs.take wanted) (.data (bs.drop wanted) :: events)

/-- Repeats a reader `n` times. -/
def readMany {ε α : Type} (read : List Event → Outcome ε α) : Nat → List Event → Outcome ε (List α)
  | 0, events => .done [] events
  | n + 1, events => (read events).bind fun value rest => (readMany read n rest).map (value :: ·)

@[simp] theorem content_append (a b : List Event) : content (a ++ b) = content a ++ content b := by
  induction a with
  | nil => rfl
  | cons event a ih => cases event <;> simp [content, ih]

theorem Flows.tail {event : Event} {events : List Event} (h : Flows (event :: events)) : Flows events :=
  fun event' he => h event' (List.mem_cons_of_mem _ he)

/-- What has been read are the bytes ahead, and the others are still there. -/
theorem readExact_done {wanted : Nat} {events rest : List Event} {bytes : List UInt8}
    (h : readExact wanted events = .done bytes rest) :
    bytes.length = wanted ∧ content events = bytes ++ content rest := by
  fun_induction readExact wanted events generalizing bytes with
  | case1 events =>
    cases h
    exact ⟨rfl, rfl⟩
  | case2 wanted => cases h
  | case3 wanted events ih => exact ih h
  | case4 => cases h
  | case5 => cases h
  | case6 wanted b bs events hle ih =>
    obtain ⟨more, hread, rfl⟩ := Outcome.map_eq_done.mp h
    obtain ⟨hlen, hcontent⟩ := ih hread
    refine ⟨?_, by rw [content, hcontent, List.append_assoc]⟩
    rw [List.length_append, List.length_cons, hlen]
    omega
  | case7 wanted b bs events hgt =>
    cases h
    refine ⟨?_, ?_⟩
    · rw [List.length_cons, List.length_take]
      omega
    · rw [content, content, ← List.append_assoc]
      exact congrArg (b :: · ++ content events) (List.take_append_drop wanted bs).symm

/-- What comes later does not matter to a reader that is done. -/
theorem readExact_append {wanted : Nat} {events rest : List Event} {bytes : List UInt8} (after : List Event)
    (h : readExact wanted events = .done bytes rest) : readExact wanted (events ++ after) = .done bytes (rest ++ after) := by
  fun_induction readExact wanted events generalizing bytes with
  | case1 events =>
    cases h
    rw [readExact]
  | case2 wanted => cases h
  | case3 wanted events ih =>
    rw [List.cons_append, readExact]
    exact ih h
  | case4 => cases h
  | case5 => cases h
  | case6 wanted b bs events hle ih =>
    obtain ⟨more, hread, rfl⟩ := Outcome.map_eq_done.mp h
    rw [List.cons_append, readExact, if_pos hle]
    exact Outcome.map_eq_done.mpr ⟨more, ih hread, rfl⟩
  | case7 wanted b bs events hgt =>
    cases h
    rw [List.cons_append, readExact, if_neg hgt]
    rfl

/-- As long as the stream flows, it is enough that the bytes are there. -/
theorem readExact_flows {wanted : Nat} {events : List Event} (h : Flows events) (hle : wanted ≤ (content events).length) :
    ∃ bytes rest, readExact wanted events = .done bytes rest ∧ Flows rest := by
  fun_induction readExact wanted events with
  | case1 events => exact ⟨[], events, rfl, h⟩
  | case2 wanted => exact absurd hle (Nat.not_succ_le_zero wanted)
  | case3 wanted events ih => exact ih h.tail hle
  | case4 _ error =>
    rcases h _ List.mem_cons_self with he | ⟨b, bs, he⟩
    · cases he
    · cases he
  | case5 =>
    rcases h _ List.mem_cons_self with he | ⟨b, bs, he⟩
    · cases he
    · cases he
  | case6 wanted b bs events hfit ih =>
    rw [content, List.length_append, List.length_cons] at hle
    obtain ⟨bytes, rest, hread, hrest⟩ := ih h.tail (by omega)
    exact ⟨_, rest, Outcome.map_eq_done.mpr ⟨bytes, hread, rfl⟩, hrest⟩
  | case7 wanted b bs events hgt =>
    refine ⟨_, _, rfl, ?_⟩
    intro event he
    rcases List.mem_cons.mp he with rfl | he
    · obtain ⟨c, cs, hcs⟩ := List.exists_cons_of_length_pos (l := bs.drop wanted)
        (by rw [List.length_drop]; omega)
      exact .inr ⟨c, cs, by rw [hcs]⟩
    · exact h.tail event he

/-! ### Reading to the end -/

/-- The bytes of a stream up to its end or its first failure, and whether it ends. There is nothing behind the last read. -/
def whole : List Event → List UInt8 × Except IoError Unit
  | [] => ([], .ok ())
  | .interrupted :: events => whole events
  | .failed error :: _ => ([], .error error)
  | .data [] :: _ => ([], .ok ())
  | .data (b :: bs) :: events => (b :: bs ++ (whole events).1, (whole events).2)

/-- Reads at most `limit` bytes, through interruptions, up to the end of the stream. -/
def readToEnd : Nat → List Event → Except IoError (List UInt8)
  | 0, _ => .ok []
  | _ + 1, [] => .ok []
  | limit + 1, .interrupted :: events => readToEnd (limit + 1) events
  | _ + 1, .failed error :: _ => .error error
  | _ + 1, .data [] :: _ => .ok []
  | limit + 1, .data (b :: bs) :: events =>
    if bs.length ≤ limit then (b :: bs ++ ·) <$> readToEnd (limit - bs.length) events else .ok (b :: bs.take limit)

/-- Either the limit cuts the stream, and nothing behind it matters, or the stream has been read to its end or failure. -/
theorem readToEnd_eq (limit : Nat) (events : List Event) : readToEnd limit events =
    if limit ≤ (whole events).1.length then .ok ((whole events).1.take limit)
    else (fun _ => (whole events).1) <$> (whole events).2 := by
  fun_induction readToEnd limit events with
  | case1 => simp
  | case2 limit => rfl
  | case3 limit events ih => exact ih
  | case4 limit error => rfl
  | case5 limit events => rfl
  | case6 limit b bs events hfit ih =>
    rw [ih]
    simp only [whole, List.length_append, List.length_cons]
    by_cases hcut : limit - bs.length ≤ (whole events).1.length
    · have htake : (b :: bs ++ (whole events).1).take (limit + 1) = b :: bs ++ (whole events).1.take (limit - bs.length) := by
        rw [List.take_append, List.take_of_length_le (Nat.succ_le_succ hfit), List.length_cons, Nat.add_sub_add_right]
      rw [if_pos hcut, if_pos (by omega), Nat.succ_eq_add_one, htake]
      rfl
    · rw [if_neg hcut, if_neg (by omega)]
      cases (whole events).2 <;> rfl
  | case7 limit b bs events hlong =>
    simp only [whole, List.length_append, List.length_cons]
    rw [if_pos (by omega), List.take_append_of_le_length (by rw [List.length_cons]; omega), List.take_succ_cons]

theorem whole_of_flows {events : List Event} (h : Flows events) : whole events = (content events, .ok ()) := by
  induction events with
  | nil => rfl
  | cons event events ih =>
    rcases h event List.mem_cons_self with rfl | ⟨b, bs, rfl⟩
    · exact ih h.tail
    · rw [whole, ih h.tail, content]

end ByteStream

import NovaMux.Lib.ByteStream

/-! Loops that read a stream into a buffer and hand each batch to a sink, up to the end of the stream or the first failure
    of either side. What holds of the sink and the bytes it has been given, and is kept by a batch that the sink takes,
    holds all along; how the stream was cut into reads does not matter to it. -/

namespace ByteStream

/-- The size of the buffer. -/
def bufferBytes : Nat := 4096

/-- The bytes that come before the end of a stream or its first failure; an interruption is a failure here. -/
def arrived : List Event → List UInt8
  | [] => []
  | .data [] :: _ => []
  | .data bytes :: events => bytes ++ arrived events
  | .interrupted :: _ => []
  | .failed _ :: _ => []

/-- How the loop ends when the sink takes everything; it may still wait for the next read. -/
def ending : List Event → Option (Except IoError Unit)
  | [] => none
  | .data [] :: _ => some (.ok ())
  | .data _ :: events => ending events
  | .interrupted :: _ => some (.error (.other "operation interrupted"))
  | .failed error :: _ => some (.error error)

variable {S : Type}

/-- Reads batches of at most the size of the buffer and hands them on. -/
def pump (sink : S → List UInt8 → Except IoError Unit × S) : List Event → S → Option (Except IoError Unit) × S
  | [], s => (none, s)
  | .interrupted :: _, s => (some (.error (.other "operation interrupted")), s)
  | .failed error :: _, s => (some (.error error), s)
  | .data [] :: _, s => (some (.ok ()), s)
  | .data (b :: bs) :: events, s =>
    match sink s ((b :: bs).take bufferBytes) with
    | (.error error, s) => (some (.error error), s)
    | (.ok (), s) =>
      -- what did not fit into the buffer is read next
      if bs.length < bufferBytes then pump sink events s
      else pump sink (.data ((b :: bs).drop bufferBytes) :: events) s
termination_by events => (content events).length + events.length
decreasing_by
  · simp only [content, List.length_append, List.length_cons]
    omega
  · simp only [content, List.length_append, List.length_cons, List.length_drop, bufferBytes]
    omega

variable {sink : S → List UInt8 → Except IoError Unit × S} {I : List UInt8 → S → Prop} {events : List Event} {s : S}
  {taken : List UInt8}

/-- What a stream brings later is handed on later, if the loop still waits for it. -/
theorem pump_append (sink : S → List UInt8 → Except IoError Unit × S) (events more : List Event) (s : S) :
    pump sink (events ++ more) s =
      match pump sink events s with
      | (none, s) => pump sink more s
      | (some result, s) => (some result, s) := by
  fun_induction pump sink events s with
  | case1 s => rfl
  | case2 events s => rw [List.cons_append, pump]
  | case3 error events s => rw [List.cons_append, pump]
  | case4 events s => rw [List.cons_append, pump]
  | case5 b bs events s error s' hsink => simp only [List.cons_append, pump, hsink]
  | case6 b bs events s s' hsink hfit ih => simp only [List.cons_append, pump, hsink, if_pos hfit, ih]
  | case7 b bs events s s' hsink hlong ih =>
    rw [List.cons_append] at ih
    simp only [List.cons_append, pump, hsink, if_neg hlong, ih]

theorem arrived_data (b : UInt8) (bs : List UInt8) (events : List Event) :
    arrived (.data (b :: bs) :: events) = (b :: bs) ++ arrived events := rfl

theorem ending_append {events : List Event} (h : ending events = none) (more : List Event) :
    ending (events ++ more) = ending more := by
  fun_induction ending events with
  | case1 => rfl
  | case2 | case4 | case5 => cases h
  | case3 bytes events hbytes ih =>
    rw [← ih h]
    cases bytes with
    | nil => exact absurd rfl hbytes
    | cons b bs => rfl

theorem arrived_append {events : List Event} (h : ending events = none) (more : List Event) :
    arrived (events ++ more) = arrived events ++ arrived more := by
  fun_induction ending events with
  | case1 => rfl
  | case2 | case4 | case5 => cases h
  | case3 bytes events hbytes ih =>
    cases bytes with
    | nil => exact absurd rfl hbytes
    | cons b bs => rw [List.cons_append, arrived_data, arrived_data, ih h, List.append_assoc]

theorem exists_cons_drop (b : UInt8) {bs : List UInt8} (h : ¬bs.length < bufferBytes) :
    ∃ c cs, (b :: bs).drop bufferBytes = c :: cs := by
  refine List.exists_cons_of_length_pos ?_
  rw [List.length_drop, List.length_cons]
  omega

theorem arrived_drop (b : UInt8) (bs : List UInt8) (events : List Event) (h : ¬bs.length < bufferBytes) :
    (b :: bs).take bufferBytes ++ arrived (.data ((b :: bs).drop bufferBytes) :: events) =
      arrived (.data (b :: bs) :: events) := by
  obtain ⟨c, cs, hcs⟩ := exists_cons_drop b h
  rw [hcs, arrived_data, ← List.append_assoc, ← hcs, List.take_append_drop, arrived_data]

theorem ending_drop (b : UInt8) (bs : List UInt8) (events : List Event) (h : ¬bs.length < bufferBytes) :
    ending (.data ((b :: bs).drop bufferBytes) :: events) = ending (.data (b :: bs) :: events) := by
  obtain ⟨c, cs, hcs⟩ := exists_cons_drop b h
  rw [hcs]
  rfl

/-- What the sink has taken, and how the loop has ended: as the stream does, with all that has arrived in the sink, or at
    the first batch that the sink refuses. -/
theorem pump_rule (events : List Event) (feed : ∀ taken s bytes s', I taken s → sink s bytes = (.ok (), s') → I (taken ++ bytes) s')
    (h : I taken s) :
    ((pump sink events s).1 = ending events ∧ I (taken ++ arrived events) (pump sink events s).2) ∨
      ∃ before bytes after u error, arrived events = before ++ bytes ++ after ∧ I (taken ++ before) u ∧
        sink u bytes = (.error error, (pump sink events s).2) ∧ (pump sink events s).1 = some (.error error) := by
  fun_induction pump sink events s generalizing taken with
  | case1 s => exact Or.inl ⟨rfl, (List.append_nil taken).symm ▸ h⟩
  | case2 events s => exact Or.inl ⟨rfl, (List.append_nil taken).symm ▸ h⟩
  | case3 error events s => exact Or.inl ⟨rfl, (List.append_nil taken).symm ▸ h⟩
  | case4 events s => exact Or.inl ⟨rfl, (List.append_nil taken).symm ▸ h⟩
  | case5 b bs events s error s' hsink =>
    refine Or.inr ⟨[], (b :: bs).take bufferBytes, (b :: bs).drop bufferBytes ++ arrived events, s, error, ?_,
      (List.append_nil taken).symm ▸ h, hsink, rfl⟩
    rw [List.nil_append, ← List.append_assoc, List.take_append_drop]
    rfl
  | case6 b bs events s s' hsink hfit ih =>
    have hall : (b :: bs).take bufferBytes = b :: bs := List.take_of_length_le hfit
    rw [hall] at hsink
    rcases ih (feed taken s _ s' h hsink) with ⟨hend, hI⟩ | ⟨before, bytes, after, u, error, hcut, hI, hrest⟩
    · exact Or.inl ⟨hend, by rwa [arrived_data, ← List.append_assoc]⟩
    · refine Or.inr ⟨b :: bs ++ before, bytes, after, u, error, ?_, by rwa [← List.append_assoc], hrest⟩
      rw [arrived_data, hcut]
      simp only [List.append_assoc]
  | case7 b bs events s s' hsink hlong ih =>
    rw [← ending_drop b bs events hlong, ← arrived_drop b bs events hlong]
    rcases ih (feed taken s _ s' h hsink) with ⟨hend, hI⟩ | ⟨before, bytes, after, u, error, hcut, hI, hrest⟩
    · exact Or.inl ⟨hend, by rwa [← List.append_assoc]⟩
    · refine Or.inr ⟨(b :: bs).take bufferBytes ++ before, bytes, after, u, error, ?_, by rwa [← List.append_assoc], hrest⟩
      rw [hcut]
      simp only [List.append_assoc]

end ByteStream

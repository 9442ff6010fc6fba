import NovaMux.Runtime.Stream
import NovaMux.Theorems.RoundTrip

/-! Reading messages from a stream agrees with the codec: what the encoders put on a stream is what the
    readers take from it, however its bytes arrive, and every frame that is read has the length that the
    decoders expect. -/

namespace NovaMux

open ByteStream Wire Cursor

/-! ### Frames -/

theorem extract_header {header : List UInt8} (hlen : header.length = headerBytes) (payload : List UInt8) :
    (header ++ payload).extract 6 10 = header.extract 6 10 := by
  have hten : header.length = 10 := hlen
  rw [List.extract_eq_take_drop, List.extract_eq_take_drop, List.drop_append_of_le_length (by omega),
    List.take_append_of_le_length (by rw [List.length_drop]; omega)]

/-- A frame that has been read is its header, which declares the size of its payload, and that payload. -/
theorem readFrame_done {events rest : List Event} {bytes : List UInt8} (h : readFrame events = .done bytes rest) :
    content events = bytes ++ content rest ∧ bytes.length ≤ maxFrameBytes ∧
      bytes.length = headerBytes + (UInt32.fromBeBytes (bytes.extract 6 10)).toNat := by
  obtain ⟨header, between, hheader, h⟩ := Outcome.bind_eq_done.mp h
  obtain ⟨hlen, hcontent⟩ := readExact_done (Outcome.mapError_eq_done.mp hheader)
  simp only [readPayload] at h
  split at h
  · next hmax =>
    obtain ⟨payload, hpayload, rfl⟩ := Outcome.map_eq_done.mp h
    obtain ⟨hcount, hrest⟩ := readExact_done (Outcome.mapError_eq_done.mp hpayload)
    have htotal : (header ++ payload).length =
        headerBytes + (UInt32.fromBeBytes ((header ++ payload).extract 6 10)).toNat := by
      rw [extract_header hlen, List.length_append, hlen, hcount]
    refine ⟨by rw [hcontent, hrest, List.append_assoc], ?_, htotal⟩
    rw [htotal, extract_header hlen]
    exact hmax
  · cases h

theorem readFrame_append {events rest : List Event} {bytes : List UInt8} (after : List Event)
    (h : readFrame events = .done bytes rest) : readFrame (events ++ after) = .done bytes (rest ++ after) := by
  obtain ⟨header, between, hheader, h⟩ := Outcome.bind_eq_done.mp h
  have hheader' := readExact_append after (Outcome.mapError_eq_done.mp hheader)
  refine Outcome.bind_eq_done.mpr ⟨header, between ++ after, Outcome.mapError_eq_done.mpr hheader', ?_⟩
  simp only [readPayload] at h ⊢
  split at h
  · next hmax =>
    obtain ⟨payload, hpayload, rfl⟩ := Outcome.map_eq_done.mp h
    have hpayload' := readExact_append after (Outcome.mapError_eq_done.mp hpayload)
    rw [if_pos hmax]
    exact Outcome.map_eq_done.mpr ⟨payload, Outcome.mapError_eq_done.mpr hpayload', rfl⟩
  · cases h

/-- A frame at the front of a stream is read, however its bytes arrive. -/
theorem readFrame_flows {events : List Event} {kind : UInt8} {payload bytes tail : List UInt8} (hflows : Flows events)
    (hframe : frame kind payload = .ok bytes) (hcontent : content events = bytes ++ tail) :
    ∃ rest, readFrame events = .done bytes rest ∧ Flows rest ∧ content rest = tail := by
  obtain ⟨hlen, hmax, -, -, htotal, -, -⟩ := unframe_checks.mp (unframe_eq_ok.mpr hframe)
  have hall : (content events).length = bytes.length + tail.length := by rw [hcontent, List.length_append]
  obtain ⟨header, between, hheader, hbetween⟩ := readExact_flows hflows (Nat.le_trans hlen (by omega))
  obtain ⟨hten, hrest⟩ := readExact_done hheader
  have hsplit : header = bytes.take headerBytes ∧ content between = bytes.drop headerBytes ++ tail := by
    refine List.append_inj (hrest.symm.trans ?_) (by rw [hten, List.length_take, Nat.min_eq_left hlen])
    rw [hcontent, ← List.append_assoc, List.take_append_drop]
  have hextract : header.extract 6 10 = bytes.extract 6 10 := by
    rw [← extract_header hten (bytes.drop headerBytes), hsplit.1, List.take_append_drop]
  have hcount : (bytes.drop headerBytes).length = (UInt32.fromBeBytes (header.extract 6 10)).toNat := by
    rw [hextract, List.length_drop]
    omega
  obtain ⟨payload', rest, hpayload, hflows'⟩ := readExact_flows hbetween
    (show (UInt32.fromBeBytes (header.extract 6 10)).toNat ≤ _ by
      rw [hsplit.2, List.length_append, hcount]
      exact Nat.le_add_right _ _)
  obtain ⟨hlen', hrest'⟩ := readExact_done hpayload
  obtain ⟨hpayload', htail⟩ := List.append_inj (hrest'.symm.trans hsplit.2) (hlen'.trans hcount.symm)
  refine ⟨rest, ?_, hflows', htail⟩
  refine Outcome.bind_eq_done.mpr ⟨header, between, Outcome.mapError_eq_done.mpr hheader, ?_⟩
  rw [readPayload, hextract, if_pos (htotal ▸ hmax)]
  refine Outcome.map_eq_done.mpr ⟨payload', Outcome.mapError_eq_done.mpr (hextract ▸ hpayload), ?_⟩
  rw [hsplit.1, hpayload', List.take_append_drop]

/-! ### Messages -/

section
variable {α : Type} {encode : α → Except DecodeError (List UInt8)} {decode : List UInt8 → Except DecodeError α}

/-- Reading as many messages as were written gives these messages, in order, and leaves nothing of them. -/
theorem readMany_flows (hround : ∀ message bytes, encode message = .ok bytes → decode bytes = .ok message)
    (hframe : ∀ message bytes, encode message = .ok bytes → ∃ kind payload, frame kind payload = .ok bytes)
    {messages : List α} {frames : List (List UInt8)}
    (hencoded : List.Forall₂ (fun message bytes => encode message = .ok bytes) messages frames) {events : List Event}
    (hflows : Flows events) (hcontent : content events = frames.flatten) (after : List Event) :
    ∃ rest, readMany (fun events => (readFrame events).bind (decoded decode)) messages.length (events ++ after) =
      .done messages (rest ++ after) ∧ content rest = [] := by
  induction hencoded generalizing events with
  | nil => exact ⟨events, rfl, hcontent⟩
  | @cons message bytes messages frames hm _ ih =>
    obtain ⟨kind, payload, hf⟩ := hframe message bytes hm
    obtain ⟨between, hread, hflows', hcontent'⟩ := readFrame_flows hflows hf (hcontent.trans List.flatten_cons)
    obtain ⟨rest, hmany, hnil⟩ := ih hflows' hcontent'
    refine ⟨rest, ?_, hnil⟩
    have hone : (readFrame (events ++ after)).bind (decoded decode) = .done message (between ++ after) := by
      refine Outcome.bind_eq_done.mpr ⟨bytes, between ++ after, readFrame_append after hread, ?_⟩
      rw [decoded, hround message bytes hm]
    exact Outcome.bind_eq_done.mpr ⟨message, between ++ after, hone, Outcome.map_eq_done.mpr ⟨messages, hmany, rfl⟩⟩

end

/-! ### Errors -/

/-- Once the length of a frame is known to fit, its header may still be wrong, but no longer its size. -/
theorem unframe_spares {bytes : List UInt8} (hmax : bytes.length ≤ maxFrameBytes)
    (htotal : bytes.length = headerBytes + (UInt32.fromBeBytes (bytes.extract 6 10)).toNat) {error : DecodeError}
    (h : unframe bytes = .error error) : error ≠ .truncated ∧ error ≠ .trailingBytes ∧ error ≠ .frameTooLarge := by
  simp only [unframe] at h
  rw [if_neg (by omega)] at h
  split at h
  · cases h
    exact ⟨fun he => (by cases he), fun he => (by cases he), fun he => (by cases he)⟩
  · split at h
    · cases h
      exact ⟨fun he => (by cases he), fun he => (by cases he), fun he => (by cases he)⟩
    · rw [if_neg (by omega), Nat.compare_eq_eq.mpr htotal] at h
      cases h

theorem avoids_byte : Avoids DecodeError.frameTooLarge byte := by
  intro cursor h
  rw [StateT.run, byte] at h
  split at h <;> cases h

theorem avoids_take (len : Nat) : Avoids DecodeError.frameTooLarge (take len) := by
  intro cursor h
  simp only [StateT.run, take] at h
  split at h <;> cases h

theorem avoids_boundedBytes (maximum : Nat) : Avoids DecodeError.frameTooLarge (boundedBytes maximum) :=
  (avoids_take 2).map _ |>.bind fun _ => .guard (fun he => (by cases he)) (avoids_take _)

theorem utf8_ne (raw : List UInt8) : utf8 raw ≠ .error .frameTooLarge := by
  rw [utf8]
  split <;> exact fun he => (by cases he)

theorem sessionName_ne (raw : List UInt8) : sessionName raw ≠ .error .frameTooLarge := by
  intro h
  rw [sessionName] at h
  cases hu : utf8 raw with
  | error error =>
    rw [hu] at h
    cases h
    exact utf8_ne raw hu
  | ok value =>
    rw [hu] at h
    simp only [bind, Except.bind] at h
    split at h <;> cases h

theorem avoids_name : Avoids DecodeError.frameTooLarge Cursor.name :=
  avoids_byte.bind fun _ => .guard (fun he => (by cases he)) ((avoids_take _).bind fun raw => .lift (sessionName_ne raw))

theorem avoids_u16 : Avoids DecodeError.frameTooLarge u16 := (avoids_take 2).map _

theorem avoids_u64 : Avoids DecodeError.frameTooLarge u64 := (avoids_take 8).map _

theorem avoids_text (maximum : Nat) :
    Avoids DecodeError.frameTooLarge (boundedBytes maximum >>= fun raw => liftM (utf8 raw)) :=
  (avoids_boundedBytes maximum).bind fun raw => .lift (utf8_ne raw)

theorem avoids_counted {α : Type} {maximum : Nat} {get : Decoder α} (h : Avoids DecodeError.frameTooLarge get) :
    Avoids DecodeError.frameTooLarge (counted maximum get) :=
  avoids_byte.bind fun _ => .guard (fun he => (by cases he)) (h.many _)

theorem avoids_session : Avoids DecodeError.frameTooLarge getSession :=
  avoids_name.bind fun _ => avoids_u16.bind fun _ => .pure _

theorem avoids_pane : Avoids DecodeError.frameTooLarge getPane := by
  have hflag : Avoids DecodeError.frameTooLarge (byte >>= fun raw => liftM (focusedFlag raw)) := by
    refine avoids_byte.bind fun raw => .lift ?_
    unfold focusedFlag
    split <;> exact fun he => (by cases he)
  exact avoids_u64.bind fun _ => avoids_u16.bind fun _ => avoids_u16.bind fun _ => avoids_u16.bind fun _ =>
    avoids_u16.bind fun _ => hflag.bind fun _ => (avoids_text _).bind fun _ => .pure _

theorem avoids_request (kind : UInt8) : Avoids DecodeError.frameTooLarge (requestBody kind) := by
  unfold requestBody
  split
  · exact avoids_name.map _
  · exact .pure _
  · exact avoids_name.map _
  · exact avoids_name.map _
  · exact avoids_u64.map _
  · exact (avoids_boundedBytes _).map _
  · exact avoids_u16.bind fun _ => avoids_u16.bind fun _ => .pure _
  · exact avoids_byte.map _
  · exact .pure _
  · exact .throw fun he => (by cases he)

theorem avoids_response (kind : UInt8) : Avoids DecodeError.frameTooLarge (responseBody kind) := by
  have hcode : Avoids DecodeError.frameTooLarge (byte >>= fun rawCode => liftM (errorCode rawCode)) := by
    refine avoids_byte.bind fun rawCode => .lift ?_
    rw [errorCode]
    split <;> exact fun he => (by cases he)
  unfold responseBody
  split
  · exact avoids_name.map _
  · exact (avoids_counted avoids_session).map _
  · exact avoids_name.map _
  · exact avoids_name.map _
  · exact avoids_u64.map _
  · exact (avoids_counted avoids_pane).map _
  · exact hcode.bind fun _ => (avoids_text _).bind fun _ => .pure _
  · exact .throw fun he => (by cases he)

/-- The size of a frame is only checked against its header. -/
theorem decoded_spares {α : Type} {body : UInt8 → Decoder α} (h : ∀ kind, Avoids DecodeError.frameTooLarge (body kind))
    {bytes : List UInt8} (hu : unframe bytes ≠ .error .frameTooLarge) :
    (do
      let (kind, payload) ← unframe bytes
      let (message, cursor) ← (body kind).run (Cursor.new payload)
      cursor.finish
      pure message : Except DecodeError α) ≠ .error .frameTooLarge := by
  intro he
  cases hframe : unframe bytes with
  | error error =>
    rw [hframe] at he
    cases he
    exact hu hframe
  | ok parts =>
    rw [hframe] at he
    cases hbody : (body parts.1).run (Cursor.new parts.2) with
    | error error =>
      simp only [bind, Except.bind, hbody] at he
      cases he
      exact h _ _ hbody
    | ok result =>
      simp only [bind, Except.bind, hbody, finish] at he
      split at he
      · next hfinish =>
        split at hfinish <;> cases hfinish
        cases he
      · cases he

/-! ### Agreement with the codec -/

/-- Reading from the encodings of some messages gives these messages, whatever comes `after` them, and every
    frame that is read passes the checks of its size. -/
theorem stream_framing :
    (∀ (requests : List Request) (frames : List (List UInt8)) (events after : List Event),
      List.Forall₂ (fun request bytes => encodeRequest request = .ok bytes) requests frames → Flows events →
      content events = frames.flatten →
      ∃ rest, readMany readRequest requests.length (events ++ after) = .done requests (rest ++ after) ∧ content rest = []) ∧
    (∀ (responses : List Response) (frames : List (List UInt8)) (events after : List Event),
      List.Forall₂ (fun response bytes => encodeResponse response = .ok bytes) responses frames → Flows events →
      content events = frames.flatten →
      ∃ rest, readMany readResponse responses.length (events ++ after) = .done responses (rest ++ after) ∧ content rest = []) ∧
    (∀ (events rest : List Event) (bytes : List UInt8), readFrame events = .done bytes rest →
      content events = bytes ++ content rest ∧ bytes.length ≤ maxFrameBytes ∧
      decodeRequest bytes ≠ .error .frameTooLarge ∧ decodeResponse bytes ≠ .error .frameTooLarge ∧
      unframe bytes ≠ .error .truncated ∧ unframe bytes ≠ .error .trailingBytes) := by
  refine ⟨fun requests frames events after hencoded hflows hcontent => ?_,
    fun responses frames events after hencoded hflows hcontent => ?_, fun events rest bytes h => ?_⟩
  · exact readMany_flows (fun _ _ h => decodeRequest_eq_ok.mpr h)
      (fun r _ h => ⟨r.kind, r.payload, (encodeRequest_eq_ok.mp h).2⟩) hencoded hflows hcontent after
  · exact readMany_flows (fun _ _ h => decodeResponse_eq_ok.mpr h)
      (fun r _ h => ⟨r.kind, r.payload, (encodeResponse_eq_ok.mp h).2⟩) hencoded hflows hcontent after
  · obtain ⟨hcontent, hmax, htotal⟩ := readFrame_done h
    have hspares : ∀ {error : DecodeError}, unframe bytes = .error error → _ := unframe_spares hmax htotal
    have hlarge : unframe bytes ≠ .error .frameTooLarge := fun he => (hspares he).2.2 rfl
    exact ⟨hcontent, hmax, decoded_spares avoids_request hlarge, decoded_spares avoids_response hlarge,
      fun he => (hspares he).1 rfl, fun he => (hspares he).2.1 rfl⟩

end NovaMux

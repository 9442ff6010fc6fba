import NovaMux.Theorems.Codec

/-! Frames are unambiguous. The header of an accepted frame says how long the frame is, so the same header in
    front of fewer bytes is truncated and in front of more has trailing bytes; and no kind is both that of a
    request and that of a response. -/

namespace NovaMux

/-! ### Headers -/

theorem take_four_of_header {bytes other : List UInt8} (h : other.take headerBytes = bytes.take headerBytes) :
    other.take 4 = bytes.take 4 := by
  have := congrArg (List.take 4) h
  rwa [List.take_take, List.take_take] at this

theorem getD_of_header {bytes other : List UInt8} (h : other.take headerBytes = bytes.take headerBytes) {i : Nat}
    (hi : i < headerBytes) : other.getD i 0 = bytes.getD i 0 := by
  rw [List.getD_eq_getElem?_getD, List.getD_eq_getElem?_getD, ← List.getElem?_take_of_lt hi, h,
    List.getElem?_take_of_lt hi]

theorem extract_of_header {bytes other : List UInt8} (h : other.take headerBytes = bytes.take headerBytes) :
    other.extract 6 10 = bytes.extract 6 10 := by
  have := congrArg (List.drop 6) h
  rwa [List.drop_take, List.drop_take] at this

/-- The header of an accepted frame in front of any number of bytes: only that number is still checked. -/
theorem unframe_of_header {bytes other payload : List UInt8} {kind : UInt8}
    (h : unframe bytes = .ok (kind, payload)) (hlen : headerBytes ≤ other.length)
    (hheader : other.take headerBytes = bytes.take headerBytes) :
    (other.length < bytes.length → unframe other = .error .truncated) ∧
      (bytes.length < other.length → unframe other = .error .trailingBytes) := by
  obtain ⟨-, hmax, hmagic, hversion, htotal, -, -⟩ := unframe_checks.mp h
  simp only [unframe]
  rw [if_neg (Nat.not_lt.mpr hlen), if_neg (not_not.mpr ((take_four_of_header hheader).trans hmagic)),
    if_neg (not_not.mpr ((getD_of_header hheader (by decide)).trans hversion)), extract_of_header hheader,
    if_neg (by omega), ← htotal]
  constructor
  · intro hlt
    rw [Nat.compare_eq_lt.mpr hlt]
  · intro hgt
    rw [Nat.compare_eq_gt.mpr hgt]

/-! ### Frames cut short and extended -/

theorem unframe_short {before rest payload : List UInt8} {kind : UInt8}
    (h : unframe (before ++ rest) = .ok (kind, payload)) (hrest : rest ≠ []) : unframe before = .error .truncated := by
  have hpos : 0 < rest.length := List.length_pos_of_ne_nil hrest
  by_cases hlen : before.length < headerBytes
  · rw [unframe, if_pos hlen]
  · have hheader : before.take headerBytes = (before ++ rest).take headerBytes := by
      rw [List.take_append_of_le_length (Nat.not_lt.mp hlen)]
    refine (unframe_of_header h (Nat.not_lt.mp hlen) hheader).1 ?_
    rw [List.length_append]
    omega

theorem unframe_extension {bytes suffix payload : List UInt8} {kind : UInt8}
    (h : unframe bytes = .ok (kind, payload)) (hsuffix : suffix ≠ []) :
    unframe (bytes ++ suffix) = .error .trailingBytes := by
  have hpos : 0 < suffix.length := List.length_pos_of_ne_nil hsuffix
  have hlen : headerBytes ≤ bytes.length := (unframe_checks.mp h).1
  refine (unframe_of_header h ?_ (List.take_append_of_le_length hlen)).2 ?_
  · rw [List.length_append]
    omega
  · rw [List.length_append]
    omega

theorem getElem?_of_unframe {bytes payload : List UInt8} {kind : UInt8} (h : unframe bytes = .ok (kind, payload)) :
    bytes[5]? = some kind := by
  obtain ⟨hlen, -, -, -, -, rfl, -⟩ := unframe_checks.mp h
  have hfive : 5 < bytes.length := Nat.lt_of_lt_of_le (by decide) hlen
  rw [List.getElem?_eq_getElem hfive, List.getD_eq_getElem _ _ hfive]

/-! ### Decoders -/

/-- What is no frame is rejected by both decoders, for the same reason. -/
theorem decode_of_unframe {bytes : List UInt8} {error : DecodeError} (h : unframe bytes = .error error) :
    decodeRequest bytes = .error error ∧ decodeResponse bytes = .error error := by
  simp only [decodeRequest, decodeResponse, h]
  exact ⟨rfl, rfl⟩

theorem unframe_of_request {bytes : List UInt8} {r : Request} (h : decodeRequest bytes = .ok r) :
    unframe bytes = .ok (r.kind, r.payload) :=
  unframe_eq_ok.mpr (encodeRequest_eq_ok.mp (decodeRequest_eq_ok.mp h)).2

theorem unframe_of_response {bytes : List UInt8} {r : Response} (h : decodeResponse bytes = .ok r) :
    unframe bytes = .ok (r.kind, r.payload) :=
  unframe_eq_ok.mpr (encodeResponse_eq_ok.mp (decodeResponse_eq_ok.mp h)).2

/-- No response has the kind of a request. -/
theorem responseBody_kind (r : Request) : responseBody r.kind = throw (.unknownMessageType r.kind) := by
  cases r <;> rfl

/-- No request has the kind of a response. -/
theorem requestBody_kind (r : Response) : requestBody r.kind = throw (.unknownMessageType r.kind) := by
  cases r <;> rfl

/-- `bytes` cut short is truncated and extended has trailing bytes, for either decoder. -/
def Delimited (bytes : List UInt8) : Prop :=
  (∀ before rest, bytes = before ++ rest → rest ≠ [] →
    decodeRequest before = .error .truncated ∧ decodeResponse before = .error .truncated) ∧
  ∀ suffix, suffix ≠ [] →
    decodeRequest (bytes ++ suffix) = .error .trailingBytes ∧ decodeResponse (bytes ++ suffix) = .error .trailingBytes

theorem delimited_of_unframe {bytes payload : List UInt8} {kind : UInt8}
    (h : unframe bytes = .ok (kind, payload)) : Delimited bytes := by
  constructor
  · intro before rest hbytes hrest
    subst hbytes
    exact decode_of_unframe (unframe_short h hrest)
  · intro suffix hsuffix
    exact decode_of_unframe (unframe_extension h hsuffix)

/-- An accepted request or response is neither the beginning nor an extension of another frame, and is not
    accepted in the other direction, by the kind it carries. -/
theorem frames_unambiguous :
    (∀ bytes request, decodeRequest bytes = .ok request →
      Delimited bytes ∧ ∃ kind, bytes[5]? = some kind ∧ decodeResponse bytes = .error (.unknownMessageType kind)) ∧
    (∀ bytes response, decodeResponse bytes = .ok response →
      Delimited bytes ∧ ∃ kind, bytes[5]? = some kind ∧ decodeRequest bytes = .error (.unknownMessageType kind)) := by
  constructor
  · intro bytes request h
    have hu := unframe_of_request h
    refine ⟨delimited_of_unframe hu, request.kind, getElem?_of_unframe hu, ?_⟩
    simp only [decodeResponse, hu, bind, Except.bind, responseBody_kind]
    rfl
  · intro bytes response h
    have hu := unframe_of_response h
    refine ⟨delimited_of_unframe hu, response.kind, getElem?_of_unframe hu, ?_⟩
    simp only [decodeRequest, hu, bind, Except.bind, requestBody_kind]
    rfl

/-- The frame of a request to list the sessions, cut short and extended by one byte. -/
theorem frames_unambiguous_list : ∃ bytes, decodeRequest bytes = .ok .list ∧
    decodeRequest bytes.dropLast = .error .truncated ∧ decodeRequest (bytes ++ [0]) = .error .trailingBytes ∧
    decodeResponse bytes = .error (.unknownMessageType Kind.list) := by
  have h : decodeRequest (magic ++ [protocolVersion, Kind.list, 0, 0, 0, 0]) = .ok .list := by decide
  obtain ⟨⟨hshort, hextension⟩, kind, hkind, hresponse⟩ := frames_unambiguous.1 _ _ h
  obtain rfl : Kind.list = kind := Option.some.inj hkind
  exact ⟨_, h, (hshort _ [0] rfl (List.cons_ne_nil 0 [])).1, (hextension [0] (List.cons_ne_nil 0 [])).1, hresponse⟩

end NovaMux

import NovaMux.Theorems.Codec

/-! What the codec promises its callers: which messages can be sent, that a message which was sent is the one
    received, and that every message has a single encoding. -/

namespace NovaMux

open Wire Cursor

theorem sum_map_le {α : Type} {f : α → Nat} {bound : Nat} {l : List α} (h : ∀ x ∈ l, f x ≤ bound) :
    (l.map f).sum ≤ l.length * bound := by
  induction l with
  | nil => simp
  | cons x l ih =>
    obtain ⟨hx, hl⟩ := List.forall_mem_cons.mp h
    rw [List.map_cons, List.sum_cons, List.length_cons, Nat.succ_mul, Nat.add_comm]
    exact Nat.add_le_add (ih hl) hx

theorem frame_isOk {kind : UInt8} {payload : List UInt8} :
    (∃ bytes, frame kind payload = .ok bytes) ↔ headerBytes + payload.length ≤ maxFrameBytes := by
  simp only [frame_eq_ok]
  exact ⟨fun ⟨_, h, _⟩ => h, fun h => ⟨_, h, rfl⟩⟩

theorem length_frame {kind : UInt8} {payload bytes : List UInt8} (h : frame kind payload = .ok bytes) :
    bytes.length = headerBytes + payload.length := by
  obtain ⟨-, rfl⟩ := frame_eq_ok.mp h
  rw [List.length_append, List.length_append, UInt32.length_toBeBytes]
  rfl

/-- The payload of a bounded request is far below the frame limit. -/
theorem Request.Bounded.payload_le {r : Request} (h : r.Bounded) :
    headerBytes + r.payload.length ≤ maxFrameBytes := by
  have hle : maxInputBytes + 12 ≤ maxFrameBytes := by decide
  have hinput : maxInputBytes = 4096 := rfl
  have hheader : headerBytes = 10 := rfl
  cases r with
  | create name | attach name | detach name =>
    have := name.short
    rw [Request.payload, length_nameField]
    omega
  | list | snapshot =>
    rw [Request.payload, List.length_nil]
    omega
  | ping nonce =>
    rw [Request.payload, UInt64.length_toBeBytes]
    omega
  | input bytes =>
    have := h bytes rfl
    rw [Request.payload, length_bytesField]
    omega
  | resize cols rows =>
    rw [Request.payload, List.length_append, UInt16.length_toBeBytes, UInt16.length_toBeBytes]
    omega
  | command code =>
    rw [Request.payload, List.length_singleton]
    omega

/-! ### The domain of the encoders and the round trip -/

theorem encodeRequest_isOk (r : Request) :
    (∃ bytes, encodeRequest r = .ok bytes) ↔ ¬∃ data, r = .input data ∧ maxInputBytes < data.length := by
  simp only [encodeRequest_eq_ok]
  refine ⟨fun h₁ h₂ => ?_, fun h => ?_⟩
  · obtain ⟨_, hb, -⟩ := h₁
    obtain ⟨data, rfl, h⟩ := h₂
    exact absurd (hb data rfl) (Nat.not_le.mpr h)
  · have hb : r.Bounded := fun data he => Nat.not_lt.mp fun hlt => h ⟨data, he, hlt⟩
    obtain ⟨bytes, hf⟩ := frame_isOk.mpr hb.payload_le
    exact ⟨bytes, hb, hf⟩

/-- Only an input can be too long. -/
theorem encodeRequest_isOk_of_ne (r : Request) (h : ∀ bytes, r ≠ .input bytes) : ∃ bytes, encodeRequest r = .ok bytes := by
  refine (encodeRequest_isOk r).mpr fun hin => ?_
  obtain ⟨data, hin, -⟩ := hin
  exact h data hin

structure Response.Limits (r : Response) : Prop where
  sessions : ∀ infos, r = .sessions infos → infos.length ≤ maxListedSessions
  panes : ∀ panes, r = .screen panes → panes.length ≤ maxSnapshotPanes
  message : ∀ code message, r = .error code message → (Utf8.bytes message).length ≤ maxErrorMessageBytes
  frame : r.frameLength ≤ maxFrameBytes

theorem encodeResponse_isOk (r : Response) : (∃ bytes, encodeResponse r = .ok bytes) ↔ r.Limits := by
  simp only [encodeResponse_eq_ok]
  refine ⟨fun h => ?_, fun h => ?_⟩
  · obtain ⟨bytes, hb, hf⟩ := h
    have hframe := (frame_eq_ok.mp hf).1
    rw [← Response.frameLength_eq] at hframe
    refine ⟨?_, ?_, ?_, hframe⟩
    · intro infos he
      subst he
      exact hb
    · intro panes he
      subst he
      exact hb.1
    · intro code message he
      subst he
      exact hb
  · obtain ⟨hsessions, hpanes, hmessage, hframe⟩ := h
    rw [Response.frameLength_eq] at hframe
    obtain ⟨bytes, hf⟩ := frame_isOk.mpr hframe
    refine ⟨bytes, ?_, hf⟩
    cases r with
    | sessions infos => exact hsessions infos rfl
    | screen panes =>
      refine ⟨hpanes panes rfl, fun pane hp => ?_⟩
      exact Nat.le_trans (text_le_payload hp) (Nat.le_trans (Nat.le_add_left _ _) hframe)
    | error code message => exact hmessage code message rfl
    | created | attached | detached | pong => trivial

/-- A response that carries a name and nothing else fits in a frame. -/
theorem limits_named (name : SessionName) {r : Response} (h : r = .created name ∨ r = .attached name ∨ r = .detached name) :
    r.Limits := by
  have hshort := name.short
  have hmax : maxFrameBytes = 8192 := rfl
  have hheader : headerBytes = 10 := rfl
  rcases h with rfl | rfl | rfl
  all_goals
    refine ⟨fun _ h => (by cases h), fun _ h => (by cases h), fun _ _ h => (by cases h), ?_⟩
    rw [Response.frameLength]
    omega

/-- Exactly the messages within the limits are encoded, and decoding an encoded message gives it back. -/
theorem codec_round_trip :
    (∀ r : Request, (∃ bytes, encodeRequest r = .ok bytes) ↔
      ¬∃ data, r = .input data ∧ maxInputBytes < data.length) ∧
    (∀ r : Response, (∃ bytes, encodeResponse r = .ok bytes) ↔ r.Limits) ∧
    (∀ (r : Request) (bytes : List UInt8), encodeRequest r = .ok bytes → decodeRequest bytes = .ok r) ∧
    (∀ (r : Response) (bytes : List UInt8), encodeResponse r = .ok bytes →
      decodeResponse bytes = .ok r ∧ bytes.length = r.frameLength) := by
  refine ⟨encodeRequest_isOk, encodeResponse_isOk, fun r bytes h => decodeRequest_eq_ok.mpr h,
    fun r bytes h => ⟨decodeResponse_eq_ok.mpr h, ?_⟩⟩
  rw [length_frame (encodeResponse_eq_ok.mp h).2, Response.frameLength_eq]

/-! ### One encoding for each message -/

def Request.names : Request → List SessionName
  | .create name | .attach name | .detach name => [name]
  | _ => []

def Response.names : Response → List SessionName
  | .created name | .attached name | .detached name => [name]
  | .sessions infos => infos.map (·.name)
  | _ => []

/-- Every name is one that the parser of names accepts. -/
def Parsed (names : List SessionName) : Prop := ∀ name ∈ names, SessionName.parse name.asStr = .ok name

theorem parsed (names : List SessionName) : Parsed names := fun _ _ => SessionName.parse_eq_ok.mpr rfl

/-- A decoded message is encoded as the bytes it was decoded from, so the decoders are injective; its names
    parse and its collections and texts are within their limits. -/
theorem codec_canonical :
    (∀ (bytes : List UInt8) (r : Request), decodeRequest bytes = .ok r →
      encodeRequest r = .ok bytes ∧ Parsed r.names ∧ ∀ data, r = .input data → data.length ≤ maxInputBytes) ∧
    (∀ (bytes : List UInt8) (r : Response), decodeResponse bytes = .ok r →
      encodeResponse r = .ok bytes ∧ Parsed r.names ∧ r.Limits ∧
        ∀ panes, r = .screen panes → ∀ pane ∈ panes, (Utf8.bytes pane.text).length ≤ maxFrameBytes) ∧
    (∀ (a b : List UInt8) (r : Request), decodeRequest a = .ok r → decodeRequest b = .ok r → a = b) ∧
    (∀ (a b : List UInt8) (r : Response), decodeResponse a = .ok r → decodeResponse b = .ok r → a = b) := by
  refine ⟨fun bytes r h => ?_, fun bytes r h => ?_, fun a b r ha hb => ?_, fun a b r ha hb => ?_⟩
  · have he := decodeRequest_eq_ok.mp h
    exact ⟨he, parsed _, (encodeRequest_eq_ok.mp he).1⟩
  · have he := decodeResponse_eq_ok.mp h
    refine ⟨he, parsed _, (encodeResponse_isOk r).mp ⟨bytes, he⟩, ?_⟩
    intro panes he
    subst he
    exact (encodeResponse_eq_ok.mp he).1.2
  · rw [decodeRequest_eq_ok] at ha hb
    exact Except.ok.inj (ha.symm.trans hb)
  · rw [decodeResponse_eq_ok] at ha hb
    exact Except.ok.inj (ha.symm.trans hb)

end NovaMux

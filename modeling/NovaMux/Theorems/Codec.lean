import NovaMux.Theorems.Fields
import NovaMux.Lib.Except
import Mathlib.Data.List.GetD
import Mathlib.Algebra.Order.BigOperators.Group.List

/-! The message codec. A message is encoded as the frame of its kind and its payload, and decoding accepts
    exactly the encodings: `decode bytes = .ok m` and `encode m = .ok bytes` are the same statement. -/

namespace NovaMux

open Wire Cursor

/-! ### Records -/

def sessionField (session : SessionInfo) : List UInt8 :=
  nameField session.name ++ session.attachedClients.toBeBytes

theorem reads_session : Reads ahead (fun _ => True) sessionField getSession := by
  refine reads_name.image₂ reads_u16 (fun session => ?_) fun _ _ _ _ => rfl
  simp only [true_iff]
  exact ⟨session.name, session.attachedClients, trivial, trivial, rfl⟩

def flagByte (focused : Bool) : UInt8 := if focused then 1 else 0

theorem reads_flag : Reads ahead (fun _ => True) (fun focused => [flagByte focused])
    (byte >>= fun raw => liftM (focusedFlag raw)) := by
  refine reads_byte.convert _ flagByte (fun raw focused _ => ?_) fun _ _ => trivial
  unfold focusedFlag
  split
  · cases focused <;> simp [flagByte]
  · cases focused <;> simp [flagByte]
  · cases focused <;> simp_all [flagByte]

def paneField (pane : PaneSnapshot) : List UInt8 :=
  pane.id.toBeBytes ++ pane.x.toBeBytes ++ pane.y.toBeBytes ++ pane.width.toBeBytes ++ pane.height.toBeBytes ++
    [flagByte pane.focused] ++ textField pane.text

theorem reads_pane :
    Reads ahead (fun pane => (Utf8.bytes pane.text).length ≤ maxFrameBytes) paneField getPane := by
  have h : Reads ahead (fun pane => (Utf8.bytes pane.text).length ≤ maxFrameBytes)
      (fun pane : PaneSnapshot => pane.id.toBeBytes ++ (pane.x.toBeBytes ++ (pane.y.toBeBytes ++
        (pane.width.toBeBytes ++ (pane.height.toBeBytes ++ ([flagByte pane.focused] ++
          (textField pane.text ++ []))))))) getPane := by
    refine Reads.bind PaneSnapshot.id reads_u64 (fun _ _ => trivial) fun id _ => ?_
    refine Reads.bind PaneSnapshot.x reads_u16 (fun _ _ => trivial) fun x _ => ?_
    refine Reads.bind PaneSnapshot.y reads_u16 (fun _ _ => trivial) fun y _ => ?_
    refine Reads.bind PaneSnapshot.width reads_u16 (fun _ _ => trivial) fun width _ => ?_
    refine Reads.bind PaneSnapshot.height reads_u16 (fun _ _ => trivial) fun height _ => ?_
    refine Reads.bind PaneSnapshot.focused reads_flag (fun _ _ => trivial) fun focused _ => ?_
    refine Reads.bind PaneSnapshot.text (reads_text (by decide)) (fun _ h => h.1.1.1.1.1.1) fun text ht => ?_
    refine Reads.pure fun pane => ⟨?_, ?_⟩
    · intro h
      obtain ⟨⟨⟨⟨⟨⟨⟨-, rfl⟩, rfl⟩, rfl⟩, rfl⟩, rfl⟩, rfl⟩, rfl⟩ := h
      rfl
    · intro he
      subst he
      exact ⟨⟨⟨⟨⟨⟨⟨ht, rfl⟩, rfl⟩, rfl⟩, rfl⟩, rfl⟩, rfl⟩, rfl⟩
  exact h.congr (fun _ => Iff.rfl) fun pane _ => by
    simp only [paneField, List.append_nil, List.append_assoc]

theorem ErrorCode.fromByte_eq_some {raw : UInt8} {code : ErrorCode} :
    ErrorCode.fromByte raw = some code ↔ raw = code.toByte := by
  refine ⟨fun h => ?_, fun he => ?_⟩
  · unfold ErrorCode.fromByte at h
    split at h <;> cases h <;> rfl
  · subst he
    cases code <;> rfl

theorem reads_errorCode : Reads ahead (fun _ => True) (fun code => [ErrorCode.toByte code])
    (byte >>= fun rawCode => liftM (errorCode rawCode)) := by
  refine reads_byte.convert _ ErrorCode.toByte (fun raw code _ => ?_) fun _ _ => trivial
  rw [and_true, ← ErrorCode.fromByte_eq_some, errorCode]
  cases ErrorCode.fromByte raw <;> simp

/-- What a counted collection looks like. -/
def countedField {α : Type} (put : α → List UInt8) (elements : List α) : List UInt8 :=
  [UInt8.ofNat elements.length] ++ elements.flatMap put

theorem reads_counted {α : Type} {maximum : Nat} {dom : α → Prop} {put : α → List UInt8} {get : Decoder α}
    (hmax : maximum < 2 ^ 8) (h : Reads ahead dom put get) :
    Reads ahead (fun elements => elements.length ≤ maximum ∧ ∀ a ∈ elements, dom a) (countedField put)
      (counted maximum get) := by
  have hlen : ∀ elements : List α, elements.length ≤ maximum →
      (UInt8.ofNat elements.length).toNat = elements.length :=
    fun elements h => UInt8.toNat_ofNat_of_lt' (Nat.lt_of_le_of_lt h hmax)
  refine Reads.bind (fun elements : List α => UInt8.ofNat elements.length) reads_byte (fun _ _ => trivial)
    fun count _ => ?_
  refine Reads.guard (fun hle => ?_) ?_
  · refine (h.many count.toNat).congr (fun elements => ⟨?_, fun ⟨h, hd⟩ => ?_⟩) fun _ _ => rfl
    · intro h
      obtain ⟨⟨h, hd⟩, rfl⟩ := h
      exact ⟨(hlen elements h).symm, hd⟩
    · exact ⟨⟨by omega, hd⟩, by rw [h, UInt8.ofNat_toNat]⟩
  · intro elements h
    obtain ⟨⟨h, -⟩, rfl⟩ := h
    rw [hlen elements h]
    omega

/-! ### Requests -/

def Request.kind : Request → UInt8
  | .create _ => Kind.create
  | .list => Kind.list
  | .attach _ => Kind.attach
  | .detach _ => Kind.detach
  | .ping _ => Kind.ping
  | .input _ => Kind.input
  | .resize _ _ => Kind.resize
  | .command _ => Kind.command
  | .snapshot => Kind.snapshot

def Request.payload : Request → List UInt8
  | .create name | .attach name | .detach name => nameField name
  | .list | .snapshot => []
  | .ping nonce => nonce.toBeBytes
  | .input bytes => bytesField bytes
  | .resize cols rows => cols.toBeBytes ++ rows.toBeBytes
  | .command code => [code]

/-- A request that the codec carries: an input batch is bounded. -/
def Request.Bounded (r : Request) : Prop := ∀ bytes, r = .input bytes → bytes.length ≤ maxInputBytes

/-- The requests of one kind. -/
def Request.OfKind (kind : UInt8) (r : Request) : Prop := r.kind = kind ∧ r.Bounded

section

attribute [local simp] Request.OfKind Request.kind Request.Bounded Kind.create Kind.list Kind.attach Kind.detach
  Kind.ping Kind.input Kind.resize Kind.command Kind.snapshot

theorem reads_request (kind : UInt8) : Reads ahead (Request.OfKind kind) Request.payload (requestBody kind) := by
  unfold requestBody
  split
  · refine reads_name.image (fun r => ?_) fun _ _ => rfl
    show r.OfKind Kind.create ↔ _
    cases r <;> simp
  · refine (Reads.pure fun _ => Iff.rfl : Reads ahead (· = Request.list) _ _).congr (fun r => ?_) (by rintro _ rfl; rfl)
    show r.OfKind Kind.list ↔ _
    cases r <;> simp
  · refine reads_name.image (fun r => ?_) fun _ _ => rfl
    show r.OfKind Kind.attach ↔ _
    cases r <;> simp
  · refine reads_name.image (fun r => ?_) fun _ _ => rfl
    show r.OfKind Kind.detach ↔ _
    cases r <;> simp
  · refine reads_u64.image (fun r => ?_) fun _ _ => rfl
    show r.OfKind Kind.ping ↔ _
    cases r <;> simp
  · refine (reads_boundedBytes (by decide)).image (fun r => ?_) fun _ _ => rfl
    show r.OfKind Kind.input ↔ _
    cases r <;> simp
  · refine reads_u16.image₂ reads_u16 (fun r => ?_) fun _ _ _ _ => rfl
    show r.OfKind Kind.resize ↔ _
    cases r <;> simp
  · refine reads_byte.image (fun r => ?_) fun _ _ => rfl
    show r.OfKind Kind.command ↔ _
    cases r <;> simp
  · refine (Reads.pure fun _ => Iff.rfl : Reads ahead (· = Request.snapshot) _ _).congr (fun r => ?_) (by rintro _ rfl; rfl)
    show r.OfKind Kind.snapshot ↔ _
    cases r <;> simp
  · refine Reads.fail ?_
    intro r h
    obtain ⟨rfl, -⟩ := h
    cases r <;> simp_all

end

/-! ### Responses -/

def Response.kind : Response → UInt8
  | .created _ => Kind.created
  | .sessions _ => Kind.sessions
  | .attached _ => Kind.attached
  | .detached _ => Kind.detached
  | .pong _ => Kind.pong
  | .screen _ => Kind.screen
  | .error _ _ => Kind.error

def Response.payload : Response → List UInt8
  | .created name | .attached name | .detached name => nameField name
  | .sessions infos => countedField sessionField infos
  | .pong nonce => nonce.toBeBytes
  | .screen panes => countedField paneField panes
  | .error code message => [code.toByte] ++ textField message

/-- A response that the codec carries: its collections and its message are bounded. -/
def Response.Bounded : Response → Prop
  | .sessions infos => infos.length ≤ maxListedSessions
  | .screen panes => panes.length ≤ maxSnapshotPanes ∧ ∀ pane ∈ panes, (Utf8.bytes pane.text).length ≤ maxFrameBytes
  | .error _ message => (Utf8.bytes message).length ≤ maxErrorMessageBytes
  | _ => True

/-- The responses of one kind. -/
def Response.OfKind (kind : UInt8) (r : Response) : Prop := r.kind = kind ∧ r.Bounded

section

attribute [local simp] Response.OfKind Response.kind Response.Bounded Kind.created Kind.sessions Kind.attached
  Kind.detached Kind.pong Kind.screen Kind.error

theorem reads_response (kind : UInt8) :
    Reads ahead (Response.OfKind kind) Response.payload (responseBody kind) := by
  unfold responseBody
  split
  · refine reads_name.image (fun r => ?_) fun _ _ => rfl
    show r.OfKind Kind.created ↔ _
    cases r <;> simp
  · refine (reads_counted (by decide) reads_session).image (fun r => ?_) fun _ _ => rfl
    show r.OfKind Kind.sessions ↔ _
    cases r <;> simp
  · refine reads_name.image (fun r => ?_) fun _ _ => rfl
    show r.OfKind Kind.attached ↔ _
    cases r <;> simp
  · refine reads_name.image (fun r => ?_) fun _ _ => rfl
    show r.OfKind Kind.detached ↔ _
    cases r <;> simp
  · refine reads_u64.image (fun r => ?_) fun _ _ => rfl
    show r.OfKind Kind.pong ↔ _
    cases r <;> simp
  · refine (reads_counted (by decide) reads_pane).image (fun r => ?_) fun _ _ => rfl
    show r.OfKind Kind.screen ↔ _
    cases r <;> simp
  · refine reads_errorCode.image₂ (reads_text (by decide)) (fun r => ?_) fun _ _ _ _ => rfl
    show r.OfKind Kind.error ↔ _
    cases r <;> simp
  · refine Reads.fail ?_
    intro r h
    obtain ⟨rfl, -⟩ := h
    cases r <;> simp_all

end

/-! ### Frames -/

theorem frame_eq_ok {kind : UInt8} {payload bytes : List UInt8} :
    frame kind payload = .ok bytes ↔ headerBytes + payload.length ≤ maxFrameBytes ∧
      bytes = magic ++ [protocolVersion, kind] ++ (UInt32.ofNat payload.length).toBeBytes ++ payload := by
  have hmax : maxFrameBytes < 2 ^ 32 := by decide
  by_cases h : headerBytes + payload.length ≤ maxFrameBytes
  · simp only [frame, if_neg (Nat.not_lt.mpr h)]
    rw [if_neg (by omega), Except.ok.injEq, eq_comm]
    exact ⟨fun he => ⟨h, he⟩, And.right⟩
  · simp [frame, Nat.not_le.mp h, h]

/-- The bytes of a header in front of a payload. -/
theorem header_append (bytes : List UInt8) (h : headerBytes ≤ bytes.length) :
    bytes = bytes.take 4 ++ [bytes.getD 4 0, bytes.getD 5 0] ++ bytes.extract 6 10 ++ bytes.drop headerBytes := by
  have h : 10 ≤ bytes.length := h
  have fourth : bytes.drop 4 = bytes.getD 4 0 :: bytes.drop 5 := by
    rw [List.drop_eq_getElem_cons (by omega), List.getD_eq_getElem _ _ (by omega)]
  have fifth : bytes.drop 5 = bytes.getD 5 0 :: bytes.drop 6 := by
    rw [List.drop_eq_getElem_cons (by omega), List.getD_eq_getElem _ _ (by omega)]
  have len : bytes.drop 6 = bytes.extract 6 10 ++ bytes.drop headerBytes := by
    rw [List.extract_eq_take_drop, headerBytes, ← List.drop_drop (i := 4) (j := 6), List.take_append_drop]
  calc bytes = bytes.take 4 ++ bytes.drop 4 := (List.take_append_drop 4 bytes).symm
    _ = bytes.take 4 ++ [bytes.getD 4 0, bytes.getD 5 0] ++ bytes.extract 6 10 ++ bytes.drop headerBytes := by
      rw [fourth, fifth, len]
      simp

/-- What the checks of a frame come to. -/
theorem unframe_checks {kind : UInt8} {payload bytes : List UInt8} :
    unframe bytes = .ok (kind, payload) ↔
      headerBytes ≤ bytes.length ∧ bytes.length ≤ maxFrameBytes ∧ bytes.take 4 = magic ∧
        bytes.getD 4 0 = protocolVersion ∧
        bytes.length = headerBytes + (UInt32.fromBeBytes (bytes.extract 6 10)).toNat ∧
        bytes.getD 5 0 = kind ∧ bytes.drop headerBytes = payload := by
  simp only [unframe]
  split_ifs with hlen hmagic hversion hmax
  · exact ⟨nofun, fun h => absurd h.1 (Nat.not_le.mpr hlen)⟩
  · exact ⟨nofun, fun h => absurd h.2.2.1 hmagic⟩
  · exact ⟨nofun, fun h => absurd h.2.2.2.1 hversion⟩
  · exact ⟨nofun, fun h => by omega⟩
  · split
    · next h =>
      have := Nat.compare_eq_lt.mp h
      exact ⟨nofun, fun h => by omega⟩
    · next h =>
      have := Nat.compare_eq_gt.mp h
      exact ⟨nofun, fun h => by omega⟩
    · next h =>
      have := Nat.compare_eq_eq.mp h
      rw [Except.ok.injEq, Prod.mk.injEq]
      exact ⟨fun h => ⟨by omega, by omega, not_not.mp hmagic, not_not.mp hversion, this, h⟩, fun h => h.2.2.2.2.2⟩

theorem unframe_eq_ok {kind : UInt8} {payload bytes : List UInt8} :
    unframe bytes = .ok (kind, payload) ↔ frame kind payload = .ok bytes := by
  have hword : maxFrameBytes < 2 ^ 32 := by decide
  rw [frame_eq_ok, unframe_checks]
  refine ⟨fun h => ?_, fun h => ?_⟩
  · obtain ⟨hlen, hmax, hmagic, hversion, hpay, rfl, rfl⟩ := h
    have hfour : (bytes.extract 6 10).length = 4 := by
      have : 10 ≤ bytes.length := hlen
      rw [List.extract_eq_take_drop, List.length_take, List.length_drop]
      omega
    have hcount : (bytes.drop headerBytes).length = (UInt32.fromBeBytes (bytes.extract 6 10)).toNat := by
      rw [List.length_drop]
      omega
    -- The four bytes of the length are those that the encoder writes for it.
    have hbytes : bytes.extract 6 10 = (UInt32.ofNat (bytes.drop headerBytes).length).toBeBytes := by
      rw [← UInt32.fromBeBytes_eq_iff hfour, hcount, UInt32.ofNat_toNat]
    refine ⟨by omega, ?_⟩
    rw [← hbytes, ← hmagic, ← hversion]
    exact header_append bytes hlen
  · obtain ⟨h, rfl⟩ := h
    obtain ⟨a, b, c, d, hcount⟩ : ∃ a b c d, (UInt32.ofNat payload.length).toBeBytes = [a, b, c, d] :=
      ⟨_, _, _, _, rfl⟩
    have hvalue : UInt32.fromBeBytes [a, b, c, d] = UInt32.ofNat payload.length := by
      rw [← hcount, UInt32.fromBeBytes_eq_iff (UInt32.length_toBeBytes _)]
    have hall : (magic ++ [protocolVersion, kind] ++ [a, b, c, d] ++ payload).length =
        headerBytes + payload.length := by
      rw [List.length_append]
      rfl
    rw [hcount]
    refine ⟨by omega, by omega, rfl, rfl, ?_, rfl, rfl⟩
    have hextract : (magic ++ [protocolVersion, kind] ++ [a, b, c, d] ++ payload).extract 6 10 = [a, b, c, d] := rfl
    rw [hall, hextract, hvalue, UInt32.toNat_ofNat_of_lt' (Nat.lt_of_le_of_lt (by omega) hword)]

/-! ### Encoders -/

theorem putName_eq (output : List UInt8) (name : SessionName) : putName output name = output ++ nameField name := by
  rw [putName, nameField, List.append_assoc]

theorem putBytes_eq_ok {output bytes result : List UInt8} :
    putBytes output bytes = .ok result ↔ bytes.length < 2 ^ 16 ∧ result = output ++ bytesField bytes := by
  rw [putBytes, bytesField, List.append_assoc]
  split
  · exact ⟨nofun, fun h => by omega⟩
  · rw [Except.ok.injEq, eq_comm]
    exact ⟨fun h => ⟨by omega, h⟩, And.right⟩

theorem putBytes_of_lt {output bytes : List UInt8} (h : bytes.length < 2 ^ 16) :
    putBytes output bytes = .ok (output ++ bytesField bytes) :=
  putBytes_eq_ok.mpr ⟨h, rfl⟩

theorem foldl_putSession (sessions : List SessionInfo) (payload : List UInt8) :
    sessions.foldl putSession payload = payload ++ sessions.flatMap sessionField := by
  induction sessions generalizing payload with
  | nil => simp
  | cons session sessions ih =>
    rw [List.foldl_cons, ih, putSession, putName_eq, List.flatMap_cons, sessionField]
    simp only [List.append_assoc]

theorem putPane_eq_ok {payload result : List UInt8} {pane : PaneSnapshot} :
    putPane payload pane = .ok result ↔
      (Utf8.bytes pane.text).length < 2 ^ 16 ∧ result = payload ++ paneField pane := by
  rw [putPane, putBytes_eq_ok, paneField, textField, flagByte]
  simp only [List.append_assoc]

theorem foldlM_putPane (panes : List PaneSnapshot) (payload result : List UInt8) :
    panes.foldlM putPane payload = .ok result ↔
      (∀ pane ∈ panes, (Utf8.bytes pane.text).length < 2 ^ 16) ∧ result = payload ++ panes.flatMap paneField := by
  induction panes generalizing payload with
  | nil => simp [pure, Except.pure, eq_comm]
  | cons pane panes ih =>
    simp only [List.foldlM_cons, Except.bind_eq_ok, putPane_eq_ok, ih, List.forall_mem_cons, List.flatMap_cons]
    refine ⟨fun h => ?_, fun h => ?_⟩
    · obtain ⟨_, ⟨h, rfl⟩, hs, rfl⟩ := h
      exact ⟨⟨h, hs⟩, by rw [List.append_assoc]⟩
    · obtain ⟨⟨h, hs⟩, rfl⟩ := h
      exact ⟨_, ⟨h, rfl⟩, hs, by rw [List.append_assoc]⟩

/-! ### Lengths -/

theorem length_nameField (name : SessionName) : (nameField name).length = 1 + (Utf8.bytes name.asStr).length := by
  rw [nameField, List.length_append, List.length_singleton]

theorem length_bytesField (bytes : List UInt8) : (bytesField bytes).length = 2 + bytes.length := by
  rw [bytesField, List.length_append, UInt16.length_toBeBytes]

theorem length_sessionField (session : SessionInfo) :
    (sessionField session).length = 3 + (Utf8.bytes session.name.asStr).length := by
  rw [sessionField, List.length_append, length_nameField, UInt16.length_toBeBytes]
  omega

theorem length_paneField (pane : PaneSnapshot) :
    (paneField pane).length = 19 + (Utf8.bytes pane.text).length := by
  simp only [paneField, textField, List.length_append, UInt64.length_toBeBytes, UInt16.length_toBeBytes,
    length_bytesField, List.length_singleton]
  omega

theorem length_countedField {α : Type} (put : α → List UInt8) (elements : List α) :
    (countedField put elements).length = 1 + (elements.map fun a => (put a).length).sum := by
  rw [countedField, List.length_append, List.length_flatMap, List.length_singleton]

/-- The length of the frame of a response, were it encoded. -/
def Response.frameLength : Response → Nat
  | .created name | .attached name | .detached name => headerBytes + (1 + (Utf8.bytes name.asStr).length)
  | .sessions infos =>
    headerBytes + (1 + (infos.map fun session => 3 + (Utf8.bytes session.name.asStr).length).sum)
  | .pong _ => headerBytes + 8
  | .screen panes => headerBytes + (1 + (panes.map fun pane => 19 + (Utf8.bytes pane.text).length).sum)
  | .error _ message => headerBytes + (3 + (Utf8.bytes message).length)

theorem Response.frameLength_eq (r : Response) : r.frameLength = headerBytes + r.payload.length := by
  cases r with
  | created | attached | detached => rw [frameLength, payload, length_nameField]
  | sessions infos => simp only [frameLength, payload, length_countedField, length_sessionField]
  | pong nonce => rw [frameLength, payload, UInt64.length_toBeBytes]
  | screen panes => simp only [frameLength, payload, length_countedField, length_paneField]
  | error code message =>
    rw [frameLength, payload, List.length_append, textField, length_bytesField, List.length_singleton]
    omega

/-- A text of a screen is no longer than the payload. -/
theorem text_le_payload {panes : List PaneSnapshot} {pane : PaneSnapshot} (h : pane ∈ panes) :
    (Utf8.bytes pane.text).length ≤ (Response.screen panes).payload.length := by
  have hle : (paneField pane).length ≤ (panes.map fun pane => (paneField pane).length).sum :=
    List.le_sum_of_mem (List.mem_map_of_mem h)
  rw [length_paneField] at hle
  rw [Response.payload, length_countedField]
  omega

/-! ### What is encoded -/

theorem encodeRequest_eq_ok {r : Request} {bytes : List UInt8} :
    encodeRequest r = .ok bytes ↔ r.Bounded ∧ frame r.kind r.payload = .ok bytes := by
  cases r with
  | input data =>
    have hmax : maxInputBytes < 2 ^ 16 := by decide
    have hbounded : (Request.input data).Bounded ↔ ¬data.length > maxInputBytes := by simp [Request.Bounded]
    rw [hbounded, encodeRequest, Except.guarded_eq_ok]
    refine and_congr_right fun hle => ?_
    rw [putBytes_of_lt (by omega)]
    exact Iff.rfl
  | create | attach | detach | list | ping | resize | command | snapshot =>
    simp [encodeRequest, Request.Bounded, Request.kind, Request.payload, putName_eq, pure_bind]

theorem encodeResponse_eq_ok {r : Response} {bytes : List UInt8} :
    encodeResponse r = .ok bytes ↔ r.Bounded ∧ frame r.kind r.payload = .ok bytes := by
  cases r with
  | sessions infos =>
    rw [Response.Bounded, ← Nat.not_lt]
    simp only [encodeResponse, Except.guarded_eq_ok, foldl_putSession, pure_bind]
    exact Iff.rfl
  | screen panes =>
    have hmax : maxFrameBytes < 2 ^ 16 := by decide
    rw [Response.Bounded, ← Nat.not_lt, and_assoc, encodeResponse, Except.guarded_eq_ok]
    refine and_congr_right fun hle => ?_
    simp only [Except.bind_eq_ok, Except.map_eq_ok, foldlM_putPane]
    constructor
    · rintro ⟨_, ⟨_, ⟨-, rfl⟩, rfl⟩, hf⟩
      -- The frame holds each of the texts.
      refine ⟨fun pane hp => ?_, hf⟩
      have hframe := (frame_eq_ok.mp hf).1
      exact Nat.le_trans (text_le_payload hp) (Nat.le_trans (Nat.le_add_left _ _) hframe)
    · rintro ⟨ht, hf⟩
      exact ⟨_, ⟨_, ⟨fun pane hp => Nat.lt_of_le_of_lt (ht pane hp) hmax, rfl⟩, rfl⟩, hf⟩
  | error code message =>
    have hmax : maxErrorMessageBytes < 2 ^ 16 := by decide
    rw [Response.Bounded, ← Nat.not_lt, encodeResponse, Except.guarded_eq_ok]
    refine and_congr_right fun hle => ?_
    rw [putBytes_of_lt (by omega)]
    exact Iff.rfl
  | created | attached | detached | pong =>
    simp [encodeResponse, Response.Bounded, Response.kind, Response.payload, putName_eq, pure_bind]

/-! ### What is decoded -/

theorem finish_eq_ok {cursor : Cursor} : cursor.finish = .ok () ↔ cursor.ahead = [] := by
  have := cursor.inBounds
  rw [finish, ahead, List.drop_eq_nil_iff]
  split <;> simp <;> omega

section

variable {α : Type} {dom : α → Prop} {put : α → List UInt8} {get : Decoder α}

/-- A decoder that is then finished accepts exactly what was put, with nothing behind it. -/
theorem decoded_eq_ok (h : Reads ahead dom put get) {payload : List UInt8} {a : α} :
    (do
      let (a, cursor) ← get.run (Cursor.new payload)
      cursor.finish
      pure a : Except DecodeError α) = .ok a ↔ dom a ∧ payload = put a := by
  have hexactly := h.exactly (a := a) (s := Cursor.new payload)
  rw [ahead_new] at hexactly
  rw [← hexactly]
  simp only [Except.bind_eq_ok, Prod.exists]
  refine ⟨fun h => ?_, fun h => ?_⟩
  · obtain ⟨_, cursor, hr, _, hf, he⟩ := h
    cases he
    exact ⟨cursor, hr, finish_eq_ok.mp hf⟩
  · obtain ⟨cursor, hr, hf⟩ := h
    exact ⟨a, cursor, hr, (), finish_eq_ok.mpr hf, rfl⟩

end

/-- A request is decoded from exactly its encoding. -/
theorem decodeRequest_eq_ok {r : Request} {bytes : List UInt8} :
    decodeRequest bytes = .ok r ↔ encodeRequest r = .ok bytes := by
  rw [encodeRequest_eq_ok, decodeRequest]
  simp only [Except.bind_eq_ok (ε := DecodeError) (α := UInt8 × List UInt8), Prod.exists]
  refine ⟨fun h => ?_, fun h => ?_⟩
  · obtain ⟨kind, payload, hu, hd⟩ := h
    obtain ⟨⟨rfl, hb⟩, rfl⟩ := (decoded_eq_ok (reads_request kind)).mp hd
    exact ⟨hb, unframe_eq_ok.mp hu⟩
  · obtain ⟨hb, hf⟩ := h
    exact ⟨r.kind, r.payload, unframe_eq_ok.mpr hf, (decoded_eq_ok (reads_request r.kind)).mpr ⟨⟨rfl, hb⟩, rfl⟩⟩

/-- A response is decoded from exactly its encoding. -/
theorem decodeResponse_eq_ok {r : Response} {bytes : List UInt8} :
    decodeResponse bytes = .ok r ↔ encodeResponse r = .ok bytes := by
  rw [encodeResponse_eq_ok, decodeResponse]
  simp only [Except.bind_eq_ok (ε := DecodeError) (α := UInt8 × List UInt8), Prod.exists]
  refine ⟨fun h => ?_, fun h => ?_⟩
  · obtain ⟨kind, payload, hu, hd⟩ := h
    obtain ⟨⟨rfl, hb⟩, rfl⟩ := (decoded_eq_ok (reads_response kind)).mp hd
    exact ⟨hb, unframe_eq_ok.mp hu⟩
  · obtain ⟨hb, hf⟩ := h
    exact ⟨r.kind, r.payload, unframe_eq_ok.mpr hf, (decoded_eq_ok (reads_response r.kind)).mpr ⟨⟨rfl, hb⟩, rfl⟩⟩

end NovaMux

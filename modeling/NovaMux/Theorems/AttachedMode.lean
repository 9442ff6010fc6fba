import NovaMux.Theorems.Multiplexer
import NovaMux.Theorems.Delivery
import NovaMux.Theorems.DaemonSteps
import NovaMux.Runtime.RunAttached

/-! The attached client with its daemon tracks the multiplexer: on a reliable system, and as long as the
    screen can be sent, each round of its event loop does what the event of the round does to the multiplexer.
    The session of the daemon has a name of its own. -/

namespace NovaMux

/-! ### Names -/

namespace Session

variable (s : Session) (name : SessionName)

def renamed (s : Session) (name : SessionName) : Session := { s with name }

/-- No operation looks at the name. -/
theorem splitFocused_renamed (direction : SplitDirection) :
    (s.renamed name).splitFocused direction = (s.splitFocused direction).map fun r => (r.1, r.2.renamed name) := by
  simp only [splitFocused, Option.bind_eq_bind, Option.map_bind]
  rfl

theorem focusNext_renamed : (s.renamed name).focusNext = s.focusNext.map (·.renamed name) := by
  simp only [focusNext, Option.bind_eq_bind, Option.map_bind, Function.comp_def, Option.map_some]
  rfl

theorem closeFocused_renamed :
    (s.renamed name).closeFocused = s.closeFocused.map fun r => (r.1, r.2.renamed name) := by
  by_cases hone : s.panes.length = 1
  · have hone' : (s.renamed name).panes.length = 1 := hone
    rw [closeFocused, closeFocused, if_pos hone', if_pos hone]
    rfl
  · have hone' : ¬(s.renamed name).panes.length = 1 := hone
    rw [closeFocused, closeFocused, if_neg hone', if_neg hone]
    simp only [Option.bind_eq_bind, Option.map_bind, Function.comp_def, Option.map_some]
    rfl

end Session

namespace HostedSession

variable {hosted hosted' : HostedSession} {os os' : Os} {m : Mux}

/-- The session and the system are where the multiplexer is, which has seen no size that the viewport would
    be clamped for. -/
structure Tracks (s : HostedSession × Os) (m : Mux) : Prop where
  session : s.1.session = m.session.renamed s.1.session.name
  viewport : s.1.viewport = m.size
  large : 2 ≤ m.size.1 ∧ 2 ≤ m.size.2
  written : s.1.panes.written = m.written
  tended : s.1.Tended
  reliable : s.2.Reliable

/-- The keyboard is the client's. -/
theorem Tracks.keyboard {s : HostedSession × Os} (h : Tracks s m) (router : InputRouter) (copying : Bool)
    (status : Status) : Tracks s { m with router, copying, status } :=
  ⟨h.session, h.viewport, h.large, h.written, h.tended, h.reliable⟩

structure Performed (r : Except ServiceError Unit × HostedSession × Os) (t : Mux) : Prop where
  result : r.1 = .ok ()
  tracks : Tracks r.2 t

/-! ### Operations -/

theorem max_two {a : UInt16} (h : 2 ≤ a) : max a 2 = a := by
  show (if a ≤ 2 then 2 else a) = a
  split
  · next hle => exact UInt16.le_antisymm h hle
  · rfl

theorem Tracks.resize (h : Tracks (hosted, os) m) {cols rows : UInt16} (hc : 2 ≤ cols) (hr : 2 ≤ rows) :
    ∃ hosted' os', hosted.resize cols rows os = (.ok (), hosted', os') ∧
      Tracks (hosted', os') { m with size := (cols, rows) } := by
  obtain ⟨panes, os', hres, h', hw⟩ := resizeRuntimes_succeeds h.reliable
    { hosted with viewport := (max cols 2, max rows 2) : HostedSession }.layout hosted.panes
  have hresize : hosted.resize cols rows os =
      (.ok (), { hosted with viewport := (max cols 2, max rows 2), panes }, os') := by
    simp only [HostedSession.resize, hres]
  refine ⟨_, _, hresize, h.session, ?_, ⟨hc, hr⟩, hw.trans h.written, h.tended.resize hresize, h'⟩
  show (max cols 2, max rows 2) = (cols, rows)
  rw [max_two hc, max_two hr]

theorem Tracks.split (h : Tracks (hosted, os) m) (direction : SplitDirection) :
    Option.Rel Performed (hosted.split direction os) (m.perform (.splitFocused direction)) := by
  have hsplit : hosted.session.splitFocused direction =
      (m.session.splitFocused direction).map fun r => (r.1, r.2.renamed hosted.session.name) := by
    rw [← Session.splitFocused_renamed, ← h.session]
  simp only [HostedSession.split, Mux.perform, Session.step]
  cases hs : m.session.splitFocused direction with
  | none =>
    rw [hsplit, hs]
    exact .none
  | some split =>
    obtain ⟨id, candidate⟩ := split
    rw [hs, Option.map_some] at hsplit
    obtain ⟨removed, panes, os₁, hrec, h₁, hw⟩ := reconcile_succeeds h.reliable hosted.panes
      (candidate.renamed hosted.session.name) (.new 2 2)
    have started : Tracks ({ hosted with panes, session := candidate.renamed hosted.session.name }, os₁)
        { m with session := candidate, written := m.written.kept candidate } := by
      refine ⟨rfl, h.viewport, h.large, ?_, Owned.reconcile_split h.tended hsplit hrec, h₁⟩
      rw [hw, h.written]
      rfl
    obtain ⟨hosted', os', hres, hf⟩ := started.resize h.large.1 h.large.2
    have hviewport : hosted.viewport = m.size := h.viewport
    simp only [hsplit, Option.bind_eq_bind, Option.bind_some, Option.map_some, hrec, hviewport]
    exact .some ⟨congrArg Prod.fst hres, hres ▸ hf⟩

theorem Tracks.close (h : Tracks (hosted, os) m) :
    Option.Rel Performed (hosted.close os) (m.perform .closeFocused) := by
  have hclose : hosted.session.closeFocused =
      m.session.closeFocused.map fun r => (r.1, r.2.renamed hosted.session.name) := by
    rw [← Session.closeFocused_renamed, ← h.session]
  simp only [HostedSession.close, Mux.perform, Session.step]
  cases hs : m.session.closeFocused with
  | none =>
    rw [hclose, hs]
    exact .none
  | some close =>
    obtain ⟨closed, session⟩ := close
    rw [hs, Option.map_some] at hclose
    cases closed with
    -- The last pane is not closed.
    | false =>
      rcases Session.closeFocused_inv hs with ⟨-, -, rfl⟩ | ⟨hc, -⟩
      · have tended : Owned (m.session.renamed hosted.session.name) hosted.panes := by
          rw [← h.session]
          exact h.tended
        have hkept := tended.kept_written
        rw [hclose]
        refine .some ⟨rfl, rfl, h.viewport, h.large, ?_, tended, h.reliable⟩
        rw [← hkept, h.written]
        rfl
      · cases hc
    | true =>
      obtain ⟨removed, panes, os₁, hrec, h₁, hw⟩ := reconcile_succeeds h.reliable hosted.panes
        (session.renamed hosted.session.name) (.new 2 2)
      obtain ⟨os', hend, h'⟩ := terminateRuntimes_reliable h₁ removed
      have tended := (Owned.reconcile_close h.tended hclose hrec).2
      simp only [hclose, Option.bind_eq_bind, Option.bind_some, Option.map_some, if_true, hrec, hend]
      exact .some ⟨rfl, rfl, h.viewport, h.large, by rw [hw, h.written]; rfl, tended, h'⟩

theorem Tracks.focusNext (h : Tracks (hosted, os) m) : Option.Rel Performed
    (hosted.session.focusNext.bind fun session => some (.ok (), { hosted with session }, os)) (m.perform .focusNext) := by
  have hfocus : hosted.session.focusNext = m.session.focusNext.map (·.renamed hosted.session.name) := by
    rw [← Session.focusNext_renamed, ← h.session]
  simp only [Mux.perform, Session.step]
  cases hs : m.session.focusNext with
  | none =>
    rw [hfocus, hs]
    exact .none
  | some session =>
    rw [hs, Option.map_some] at hfocus
    have tended := Owned.focusNext h.tended hfocus
    rw [hfocus]
    refine .some ⟨rfl, rfl, h.viewport, h.large, ?_, tended, h.reliable⟩
    have hkept := tended.kept_written
    rw [← hkept, h.written]
    rfl

theorem Tracks.input (h : Tracks (hosted, os) m) (bytes : List UInt8) :
    Performed (hosted.input bytes os) { m with written := m.written.append m.session.focused bytes } := by
  have hp : hosted.session.focused ∈ hosted.session.panes := h.tended.wf.focused
  have hfocused : hosted.session.focused = m.session.focused := by rw [h.session]; rfl
  obtain ⟨runtime, hget⟩ := Option.isSome_iff_exists.mp ((h.tended.owned _).mpr hp)
  obtain ⟨os', hw, h'⟩ := write_succeeds h.reliable runtime bytes
  have hset := written_set hget bytes
  rw [h.written, hfocused] at hset
  simp only [HostedSession.input, hget, hw]
  exact ⟨rfl, h.session, h.viewport, h.large, hfocused ▸ hset, Owned.set h.tended hp _, h'⟩

end HostedSession

/-! ### Exchanges -/

section

variable {c : ConnId} {name : SessionName} {daemon : Daemon} {hosted hosted' : HostedSession} {request : Request}

/-- The thread of connection `c` is in the given phase, with nothing to read and with the sessions free. -/
structure Waiting (c : ConnId) (daemon : Daemon) (phase : Phase) : Prop where
  conn : ∃ outbox, daemon.conns c = some { phase, inbox := [], outbox }
  free : daemon.lock = none

/-- The connection `c` is attached to the session `name` and waits for a request. -/
structure Serving (c : ConnId) (name : SessionName) (daemon : Daemon) (hosted : HostedSession) : Prop where
  waiting : Waiting c daemon (.looping name)
  session : daemon.sessions[name.asStr]? = some hosted

theorem deliverRequest_eq {bytes : List UInt8} (h : encodeRequest request = .ok bytes) :
    deliverRequest request = .ok request := by
  rw [deliverRequest, h]
  exact decodeRequest_eq_ok.mpr h

theorem deliverResponse_eq {response : Response} {bytes : List UInt8} (h : encodeResponse response = .ok bytes) :
    deliverResponse response = .ok response := by
  rw [deliverResponse, h]
  exact decodeResponse_eq_ok.mpr h

variable {phase phase' : Phase}

/-- A request that reaches the thread finds the sessions as they were when it was sent. -/
theorem Waiting.received (h : Waiting c daemon phase) (hp : phase.afterRead request = some phase') : ∃ d outbox,
    Machine.run Daemon.step daemon [.send c request, .read c true] = some d ∧
      d.conns c = some { phase := phase', inbox := [], outbox } ∧
      d.lock = none ∧ d.sessions = daemon.sessions ∧ d.os = daemon.os := by
  obtain ⟨outbox, hc⟩ := h.conn
  have hsend : daemon.step (.send c request) = some (daemon.setConn c { phase, inbox := [request], outbox }) := by
    simp only [Daemon.step, hc]
    rfl
  obtain ⟨d₁, hd₁⟩ : ∃ d₁, d₁ = daemon.setConn c { phase, inbox := [request], outbox } := ⟨_, rfl⟩
  have hc₁ : d₁.conns c = some { phase, inbox := [request], outbox } := by simp [hd₁]
  have hread : d₁.step (.read c true) = some (d₁.setConn c { phase := phase', inbox := [], outbox }) := by
    simp only [Daemon.step, hc₁, hp, Option.bind_eq_bind, Option.bind_some]
  refine ⟨d₁.setConn c { phase := phase', inbox := [], outbox }, outbox, ?_, by simp, ?_⟩
  · rw [Machine.run_cons, hsend, ← hd₁, Option.bind_some, Machine.run_singleton, hread]
  · subst hd₁
    exact ⟨h.free, rfl, rfl⟩

/-- The rest of an exchange is decided by what the thread does with the sessions locked. -/
theorem Waiting.entered (h : Waiting c daemon phase) (hp : phase.afterRead request = some phase') : ∃ d outbox,
    Machine.run Daemon.step daemon [.send c request, .read c true] = some d ∧
      d.step (.enter c) = (daemon.critical phase').map fun r =>
        { d with sessions := r.2.1, os := r.2.2, lock := if r.1.inLock then some c else none }.setConn c
          { phase := r.1, inbox := [], outbox } := by
  obtain ⟨d, outbox, hrun, hc, hl, hsessions, hos⟩ := h.received hp
  refine ⟨d, outbox, hrun, ?_⟩
  have hcritical : d.critical phase' = daemon.critical phase' := by
    cases phase' <;> simp only [Daemon.critical, hsessions, hos]
  simp only [Daemon.step, hc, hl, hcritical, Option.bind_eq_bind, Option.bind_some, if_true]
  cases daemon.critical phase' <;> rfl

/-- Where the thread would panic, the exchange has no result. -/
theorem Waiting.exchange_none (h : Waiting c daemon phase) (hp : phase.afterRead request = some phase')
    {bytes : List UInt8} (he : encodeRequest request = .ok bytes) (hcr : daemon.critical phase' = none) :
    exchange c daemon request = none := by
  obtain ⟨d, outbox, hrun, henter⟩ := h.entered hp
  rw [hcr, Option.map_none] at henter
  have hall : Machine.run Daemon.step daemon ([.send c request, .read c true] ++ [.enter c]) = none := by
    rw [Machine.run_append, hrun, Option.bind_some, Machine.run_singleton, henter]
  simp only [List.cons_append, List.nil_append] at hall
  simp only [exchange, deliverRequest_eq he, hall, Option.bind_eq_bind, Option.bind_none]

/-- The response that the thread has computed is written, and read by the client. -/
theorem Waiting.exchange_some (h : Waiting c daemon phase) (hp : phase.afterRead request = some phase')
    {bytes bytes' : List UInt8} (he : encodeRequest request = .ok bytes) {entered : Phase} {sessions : Sessions} {os : Os}
    (hcr : daemon.critical phase' = some (entered, sessions, os)) {response : Response}
    (hr : entered.reply = some response) (hs : encodeResponse response = .ok bytes') :
    ∃ d, exchange c daemon request = some (some response, d) ∧ Waiting c d entered.afterWrite ∧
      d.sessions = sessions ∧ d.os = os := by
  obtain ⟨d₁, outbox, hrun, henter⟩ := h.entered hp
  rw [hcr, Option.map_some] at henter
  obtain ⟨d₂, hd₂⟩ : ∃ d₂, d₂ = { d₁ with sessions, os, lock := if entered.inLock then some c else none }.setConn c
      { phase := entered, inbox := [], outbox } := ⟨_, rfl⟩
  have hc₂ : d₂.conns c = some { phase := entered, inbox := [], outbox } := by simp [hd₂]
  have hall : Machine.run Daemon.step daemon ([.send c request, .read c true] ++ [.enter c]) = some d₂ := by
    rw [Machine.run_append, hrun, Option.bind_some, Machine.run_singleton, henter, hd₂]
  have hlock : (if entered.inLock then none else d₂.lock) = none := by
    subst hd₂
    cases entered.inLock <;> simp [Daemon.setConn]
  obtain ⟨d₃, hd₃⟩ : ∃ d₃, d₃ = { d₂ with lock := none }.setConn c
      { phase := entered.afterWrite, inbox := [], outbox := outbox ++ [response] } := ⟨_, rfl⟩
  have hc₃ : d₃.conns c = some { phase := entered.afterWrite, inbox := [], outbox := outbox ++ [response] } := by
    simp [hd₃]
  have hwrite : d₂.step (.write c true) = some d₃ := by
    simp only [Daemon.step, hc₂, hr, hs, hlock, Option.bind_eq_bind, Option.bind_some, hd₃]
  simp only [List.cons_append, List.nil_append] at hall
  refine ⟨d₃, ?_, ⟨⟨_, hc₃⟩, ?_⟩, ?_⟩
  · simp only [exchange, deliverRequest_eq he, hall, hwrite, hc₃, Option.bind_eq_bind, Option.bind_some]
    simp [deliverResponse_eq hs, Except.toOption]
  · subst hd₃
    rfl
  · subst hd₃ hd₂
    exact ⟨rfl, rfl⟩

end

/-! ### The loop -/

namespace Attached

variable {c : ConnId} {name : SessionName} {s : Attached} {m : Mux} {hosted : HostedSession}

/-- The client and the session of its connection are where the multiplexer is. -/
structure Tracks (c : ConnId) (name : SessionName) (s : Attached) (m : Mux) : Prop where
  hosted : ∃ hosted, s.daemon.sessions[name.asStr]? = some hosted ∧ HostedSession.Tracks (hosted, s.daemon.os) m ∧
    (m.status = .running → Serving c name s.daemon hosted)
  router : s.router = m.router
  copying : s.copyMode.active = m.copying
  status : s.status = m.status
  screen : ∃ panes, s.response = .screen panes

/-- A request that performs an operation of the multiplexer, which leaves the keyboard to the client. -/
theorem request_tracks (hserv : Serving c name s.daemon hosted) (hs : s.status = .running) {request : Request}
    (hd : request ≠ .detach name) {bytes : List UInt8} (he : encodeRequest request = .ok bytes)
    {x : Option (Except ServiceError Unit × HostedSession × Os)} {y : Option Mux}
    (hr : hosted.respond request s.daemon.os = x.map HostedSession.thenSnapshot)
    (hrel : Option.Rel HostedSession.Performed x y)
    (hroom : ∀ t, y = some t → t.session.panes.length ≤ maxSnapshotPanes)
    (hkeep : ∀ t, y = some t → s.router = t.router ∧ s.copyMode.active = t.copying ∧ t.status = .running) :
    Option.Rel (Tracks c name) (s.request c request) y := by
  cases hrel with
  -- The multiplexer panics, and so does the thread that serves the request.
  | none =>
    have hcr : s.daemon.critical (.serving name request) = none := by
      simp only [Daemon.critical, hserv.session, if_neg hd, hr, Option.map_none, Option.bind_eq_bind, Option.bind_none]
    simp only [Attached.request, hserv.waiting.exchange_none rfl he hcr]
    exact .none
  | @some r t hp =>
    obtain ⟨hresult, hf⟩ := hp
    obtain ⟨result, hosted', os⟩ := r
    obtain rfl : result = .ok () := hresult
    obtain ⟨hrouter, hcopying, hstatus⟩ := hkeep t rfl
    -- A screen of at most 32 panes can be sent, and arrives.
    have hlen : hosted'.session.panes.length ≤ maxSnapshotPanes := by
      rw [hf.session]
      exact hroom t rfl
    obtain ⟨panes, os', bytes', hsnap, h', hsent⟩ := HostedSession.snapshot_sent hf.reliable hlen
    have hcr : s.daemon.critical (.serving name request) =
        some (.responding name (.screen panes), s.daemon.sessions.insert name.asStr hosted', os') := by
      simp only [Daemon.critical, hserv.session, if_neg hd, hr, Option.map_some, HostedSession.thenSnapshot, hsnap,
        Option.bind_eq_bind, Option.bind_some]
    obtain ⟨d, hex, hwait, hsessions, hos⟩ := hserv.waiting.exchange_some rfl he hcr rfl hsent
    have hget : d.sessions[name.asStr]? = some hosted' := by rw [hsessions]; simp
    have hfollow : HostedSession.Tracks (hosted', d.os) t :=
      ⟨hf.session, hf.viewport, hf.large, hf.written, hf.tended, by rw [hos]; exact h'⟩
    simp only [Attached.request, hex]
    exact .some ⟨⟨hosted', hget, hfollow, fun _ => ⟨hwait, hget⟩⟩, hrouter, hcopying,
      hs.trans hstatus.symm, ⟨panes, rfl⟩⟩

theorem Tracks.detach (h : Tracks c name s m) (hm : m.status = .running) :
    ∃ t, s.detach c name = some t ∧ Tracks c name t { m with status := .left } := by
  obtain ⟨hosted, hget, hf, hserv⟩ := h.hosted
  have hserv := hserv hm
  obtain ⟨bytes, he⟩ := encodeRequest_isOk_of_ne (.detach name) fun _ he => (by cases he)
  obtain ⟨bytes', he'⟩ := (encodeResponse_isOk _).mpr (limits_named name (Or.inr (Or.inr rfl)))
  have hcr : s.daemon.critical (.serving name (.detach name)) =
      some (.detaching name, s.daemon.sessions, s.daemon.os) := by
    simp only [Daemon.critical, hserv.session, if_true]
  obtain ⟨d, hex, -, hsessions, hos⟩ := hserv.waiting.exchange_some rfl he hcr rfl he'
  refine ⟨{ s with daemon := d, status := .left }, by simp only [Attached.detach, hex]; rfl, ?_⟩
  refine ⟨⟨hosted, by rw [hsessions]; exact hget, ?_, fun hr => (by cases hr)⟩, h.router, h.copying, rfl, h.screen⟩
  rw [show ({ s with daemon := d, status := .left } : Attached).daemon.os = s.daemon.os from hos]
  exact hf.keyboard m.router m.copying .left

theorem Tracks.perform (h : Tracks c name s m) (hm : m.status = .running) {code : UInt8} {op : SessionOp}
    (hrel : ∀ hosted os, HostedSession.Tracks (hosted, os) m →
      Option.Rel HostedSession.Performed (hosted.command code os) (m.perform op))
    (hroom : ∀ t, m.perform op = some t → t.session.panes.length ≤ maxSnapshotPanes) :
    Option.Rel (Tracks c name) (s.request c (.command code)) (m.perform op) := by
  obtain ⟨hosted, -, hf, hserv⟩ := h.hosted
  obtain ⟨bytes, he⟩ := encodeRequest_isOk_of_ne (.command code) fun _ he => (by cases he)
  refine request_tracks (hserv hm) (h.status.trans hm) (fun he => (by cases he)) he rfl (hrel _ _ hf) hroom ?_
  intro t ht
  obtain ⟨session, -, rfl⟩ := Mux.perform_inv ht
  exact ⟨h.router, h.copying, hm⟩

theorem Tracks.copyMode (h : Tracks c name s m) (mode : CopyMode) :
    Tracks c name { s with copyMode := mode } { m with copying := mode.active } := by
  obtain ⟨hosted, hget, hf, hserv⟩ := h.hosted
  exact ⟨⟨hosted, hget, hf.keyboard m.router mode.active m.status, hserv⟩, h.router, rfl, h.status, h.screen⟩

theorem Tracks.command (h : Tracks c name s m) (hm : m.status = .running) {command : MultiplexerCommand}
    (hroom : ∀ t, m.command command = some t → t.session.panes.length ≤ maxSnapshotPanes) :
    Option.Rel (Tracks c name) (s.command c name command) (m.command command) := by
  cases command with
  | splitHorizontal => exact h.perform hm (fun _ _ hf => hf.split .horizontal) hroom
  | splitVertical => exact h.perform hm (fun _ _ hf => hf.split .vertical) hroom
  | focusNext => exact h.perform hm (fun _ _ hf => hf.focusNext) hroom
  | closeFocused => exact h.perform hm (fun _ _ hf => hf.close) hroom
  | enterCopyMode => exact .some (h.copyMode (s.copyMode.enter))
  | detach | quit =>
    obtain ⟨t, ht, hf⟩ := h.detach hm
    simp only [Attached.command, ht]
    exact .some hf

/-- At most a prefix and the byte behind it are sent at once. -/
theorem length_forward_le {router : InputRouter} {byte : UInt8} {bytes : List UInt8}
    (h : (router.route byte).1 = .forward bytes) : bytes.length ≤ 2 := by
  unfold InputRouter.route at h
  split at h
  · split at h
    · cases h
    · cases h
      simp
  · split at h
    · cases h
    · cases h
      split <;> simp

theorem Tracks.byte (h : Tracks c name s m) (hm : m.status = .running) {byte : UInt8}
    (hroom : ∀ t, m.byte byte = some t → t.session.panes.length ≤ maxSnapshotPanes) :
    Option.Rel (Tracks c name) (s.byte c name byte) (m.byte byte) := by
  obtain ⟨hosted, hget, hf, hserv⟩ := h.hosted
  have routed : Tracks c name { s with router := (m.router.route byte).2 } { m with router := (m.router.route byte).2 } :=
    ⟨⟨hosted, hget, hf.keyboard (m.router.route byte).2 m.copying m.status, hserv⟩, rfl, h.copying, h.status, h.screen⟩
  simp only [Attached.byte, Mux.byte, h.router] at hroom ⊢
  cases ha : (m.router.route byte).1 with
  | pending => exact .some routed
  | forward bytes =>
    rw [ha] at hroom
    have hlen := length_forward_le ha
    have hmax : maxInputBytes = 4096 := rfl
    obtain ⟨sent, he⟩ := (encodeRequest_isOk (.input bytes)).mpr fun hin => by
      obtain ⟨data, hin, hlt⟩ := hin
      cases hin
      omega
    obtain ⟨hosted, -, hf, hserv⟩ := routed.hosted
    refine request_tracks (hserv hm) (h.status.trans hm) (fun he => (by cases he)) he
      (x := some (hosted.input bytes s.daemon.os)) rfl (.some (hf.input bytes)) hroom ?_
    intro t ht
    cases ht
    exact ⟨rfl, h.copying, hm⟩
  | command command =>
    rw [ha] at hroom
    exact routed.command hm hroom

theorem Tracks.keys (h : Tracks c name s m) (hm : m.status = .running) {bytes : List UInt8} (hroom : m.Roomy bytes) :
    Option.Rel (Tracks c name) (s.keys c name bytes) (m.keys bytes) := by
  induction bytes generalizing s m with
  | nil => exact .some h
  | cons byte bytes ih =>
    refine Machine.rel_bind (h.byte hm fun t ht => (hroom t ht).1) fun s' t _ ht hf => ?_
    by_cases hrun : t.status = .running
    · rw [if_pos hrun, if_pos (hf.status.trans hrun)]
      exact ih hf hrun (hroom t ht).2
    · rw [if_neg hrun, if_neg (hf.status ▸ hrun)]
      exact .some hf

theorem Tracks.navigateCopyMode (h : Tracks c name s m) (hc : m.copying = true) (key : KeyEvent) :
    Tracks c name (s.navigateCopyMode key) { m with copying := copyModeAction key ≠ some .exit } := by
  unfold Attached.navigateCopyMode
  split
  · next hk =>
    have hf := h.copyMode s.copyMode.exit
    simpa [hk, CopyMode.exit] using hf
  · next hk =>
    have hf := h.copyMode s.copyMode
    simpa [hk, h.copying.trans hc] using hf

/-- A request for the current screen changes nothing. -/
theorem Tracks.poll (h : Tracks c name s m) (hm : m.status = .running)
    (hroom : m.session.panes.length ≤ maxSnapshotPanes) : Option.Rel (Tracks c name) (s.request c .snapshot) (some m) := by
  obtain ⟨hosted, -, hf, hserv⟩ := h.hosted
  obtain ⟨bytes, he⟩ := encodeRequest_isOk_of_ne .snapshot fun _ he => (by cases he)
  refine request_tracks (hserv hm) (h.status.trans hm) (fun he => (by cases he)) he
    (x := some (.ok (), hosted, s.daemon.os)) rfl (.some ⟨rfl, hf⟩) (fun t ht => ?_) fun t ht => ?_
  · obtain rfl := Option.some.inj ht
    exact hroom
  · obtain rfl := Option.some.inj ht
    exact ⟨h.router, h.copying, hm⟩

theorem Tracks.resize (h : Tracks c name s m) (hm : m.status = .running)
    (hroom : m.session.panes.length ≤ maxSnapshotPanes) {cols rows : UInt16} (hc : 2 ≤ cols) (hr : 2 ≤ rows) :
    Option.Rel (Tracks c name) (s.request c (.resize cols rows)) (some { m with size := (cols, rows) }) := by
  obtain ⟨hosted, -, hf, hserv⟩ := h.hosted
  obtain ⟨bytes, he⟩ := encodeRequest_isOk_of_ne (.resize cols rows) fun _ he => (by cases he)
  obtain ⟨hosted', os', hres, hf'⟩ := hf.resize hc hr
  refine request_tracks (hserv hm) (h.status.trans hm) (fun he => (by cases he)) he
    (x := some (hosted.resize cols rows s.daemon.os)) rfl (.some (hres ▸ ⟨rfl, hf'⟩)) (fun t ht => ?_) fun t ht => ?_
  · obtain rfl := Option.some.inj ht
    exact hroom
  · obtain rfl := Option.some.inj ht
    exact ⟨h.router, h.copying, hm⟩

/-- A round of the loop, when the sizes that the terminal tells need no clamping. -/
theorem Tracks.step (h : Tracks c name s m) {tick : Tick}
    (hlarge : ∀ cols rows, tick.event = some (.resize cols rows) → 2 ≤ cols ∧ 2 ≤ rows)
    (hroom : m.session.panes.length ≤ maxSnapshotPanes)
    (hend : ∀ t, m.step tick = some t → t.session.panes.length ≤ maxSnapshotPanes) :
    Option.Rel (Tracks c name) (s.step c name tick) (m.step tick) := by
  by_cases hm : m.status = .running
  · obtain ⟨panes, hscreen⟩ := h.screen
    simp only [Attached.step, Mux.step, if_pos hm, if_pos (h.status.trans hm), hscreen] at hend ⊢
    cases he : tick.event with
    | none => exact h.poll hm hroom
    | some event =>
      rw [he] at hend
      cases event with
      | key key =>
        simp only [Option.elim_some, Attached.handle, Mux.handle, ← h.copying] at hend ⊢
        split
        · exact .some h
        · next hkind =>
          split
          · next hc => exact .some (h.navigateCopyMode (h.copying.symm.trans hc) key)
          · next hc =>
            rw [if_neg hkind, if_neg hc] at hend
            exact h.keys hm (Mux.roomy_of_orderly (keyBytes_orderly key) hroom hend)
      | resize cols rows =>
        obtain ⟨hcols, hrows⟩ := hlarge cols rows he
        exact h.resize hm hroom hcols hrows
      | mouse | other => exact .some h
  · rw [Attached.step, Mux.step, if_neg (h.status ▸ hm), if_neg hm]
    exact .none

end Attached

end NovaMux

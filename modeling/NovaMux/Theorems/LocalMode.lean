import NovaMux.Theorems.Multiplexer
import NovaMux.Theorems.App

/-! The local client tracks the multiplexer: on a reliable system, and with no shell exiting, each round of
    its event loop does what the event of the round does to the multiplexer. -/

namespace NovaMux.App

variable {app : App} {os : Os} {m : Mux} {size : UInt16 × UInt16}

/-- The client and its system are where the multiplexer is. -/
structure Tracks (s : App × Os) (m : Mux) : Prop where
  session : s.1.session = m.session
  lastSize : s.1.lastSize = m.size
  written : s.1.panes.written = m.written
  router : s.1.router = m.router
  copying : s.1.copyMode.active = m.copying
  tended : s.1.Tended
  reliable : s.2.Reliable

/-- An operation has succeeded, and so has that of the multiplexer, which leaves the given status. -/
structure Performed (status : Status) (r : Except String Unit × App × Os) (t : Mux) : Prop where
  result : r.1 = .ok ()
  tracks : Tracks r.2 t
  status : t.status = status

/-- The client is to leave exactly when the multiplexer has. -/
structure Answered (r : Except String Bool × App × Os) (t : Mux) : Prop where
  result : r.1 = .ok (decide (t.status = .left))
  tracks : Tracks r.2 t
  going : t.status ≠ .failed

/-! ### Operations -/

theorem Tracks.resizePanes (h : Tracks (app, os) m) (size : UInt16 × UInt16) :
    ∃ app' os', app.resizePanes size os = (.ok (), app', os') ∧ Tracks (app', os') m := by
  obtain ⟨panes, os', hr, h', hw⟩ := resizeRuntimes_succeeds h.reliable (app.layout size) app.panes
  have hres : app.resizePanes size os = (.ok (), { app with panes }, os') := by simp only [App.resizePanes, hr]
  exact ⟨_, _, hres, h.session, h.lastSize, hw.trans h.written, h.router, h.copying, h.tended.resizePanes hres, h'⟩

theorem Tracks.resized (h : Tracks (app, os) m) (size : UInt16 × UInt16) :
    ∃ app' os', app.resized size os = (.ok (), app', os') ∧ Tracks (app', os') { m with size } := by
  obtain ⟨sized, os', hr, hs⟩ := h.resizePanes size
  have hres : app.resized size os = (.ok (), { sized with lastSize := size }, os') := by simp only [App.resized, hr]
  exact ⟨_, _, hres, hs.session, rfl, hs.written, hs.router, hs.copying, h.tended.resized hres, hs.reliable⟩

/-- On a reliable system the client starts. -/
theorem Tracks.new (h : os.Reliable) (size : UInt16 × UInt16) : ∃ app os',
    App.new size os = (.ok app, os') ∧ Tracks (app, os') (Mux.start localSession size) := by
  obtain ⟨removed, panes, os₁, hrec, h₁, hw⟩ := reconcile_succeeds h PaneRegistry.new localSession (.new 2 2)
  have tended := Owned.of_reconciled (Session.Wf.new _) (PaneRegistry.reconcile_ok hrec)
  obtain ⟨start, hstart⟩ : ∃ start : App, start =
      { session := localSession, panes, router := .new, lastSize := size, copyMode := .default } := ⟨_, rfl⟩
  have started : Tracks (start, os₁) (Mux.start localSession size) := by
    subst hstart
    exact ⟨rfl, rfl, by rw [hw, PaneRegistry.written_new]; rfl, rfl, rfl, tended, h₁⟩
  obtain ⟨app, os', hres, htracks⟩ := started.resizePanes size
  rw [hstart] at hres
  rw [localSession] at hrec hres
  exact ⟨app, os', by simp only [App.new, hrec, hres], htracks⟩

theorem Tracks.split (h : Tracks (app, os) m) (direction : SplitDirection) (size : UInt16 × UInt16) :
    Option.Rel (Performed m.status) (app.split direction size os) (m.perform (.splitFocused direction)) := by
  simp only [App.split, Mux.perform, Session.step, ← h.session]
  cases hs : app.session.splitFocused direction with
  | none => exact .none
  | some split =>
    obtain ⟨id, candidate⟩ := split
    obtain ⟨removed, panes, os₁, hrec, h₁, hw⟩ := reconcile_succeeds h.reliable app.panes candidate (.new 2 2)
    have started : Tracks ({ app with panes, session := candidate }, os₁)
        { m with session := candidate, written := m.written.kept candidate } :=
      ⟨rfl, h.lastSize, by rw [hw, h.written], h.router, h.copying, Owned.reconcile_split h.tended hs hrec, h₁⟩
    obtain ⟨app', os', hres, hf⟩ := started.resizePanes size
    simp only [Option.bind_eq_bind, Option.bind_some, Option.map_some, hrec, hres]
    exact .some ⟨rfl, hf, rfl⟩

theorem Tracks.closeFocused (h : Tracks (app, os) m) :
    Option.Rel (Performed m.status) (app.closeFocused os) (m.perform .closeFocused) := by
  simp only [App.closeFocused, Mux.perform, Session.step, ← h.session]
  cases hs : app.session.closeFocused with
  | none => exact .none
  | some close =>
    obtain ⟨closed, session⟩ := close
    cases closed with
    | false =>
      rcases Session.closeFocused_inv hs with ⟨-, -, rfl⟩ | ⟨hc, -⟩
      · refine .some ⟨rfl, ⟨rfl, h.lastSize, ?_, h.router, h.copying, h.tended, h.reliable⟩, rfl⟩
        show app.panes.written = m.written.kept app.session
        rw [← h.written, Owned.kept_written h.tended]
      · cases hc
    | true =>
      obtain ⟨removed, panes, os₁, hrec, h₁, hw⟩ := reconcile_succeeds h.reliable app.panes session (.new 2 2)
      obtain ⟨os', hend, h'⟩ := terminateRuntimes_reliable h₁ removed
      have tended := (Owned.reconcile_close h.tended hs hrec).2
      simp only [Option.bind_eq_bind, Option.bind_some, Option.map_some, if_true, hrec, hend]
      exact .some ⟨rfl, ⟨rfl, h.lastSize, by rw [hw, h.written], h.router, h.copying, tended, h'⟩, rfl⟩

theorem Tracks.focusNext (h : Tracks (app, os) m) {session : Session} (hf : app.session.focusNext = some session) :
    Tracks ({ app with session }, os) { m with session, written := m.written.kept session } := by
  have tended := Owned.focusNext h.tended hf
  refine ⟨rfl, h.lastSize, ?_, h.router, h.copying, tended, h.reliable⟩
  show app.panes.written = m.written.kept session
  rw [← h.written, tended.kept_written]

/-- An operation that succeeds does not make the client leave. -/
theorem answered_of_performed {x : Option (Except String Unit × App × Os)} {y : Option Mux} (hm : m.status = .running)
    (h : Option.Rel (Performed m.status) x y) :
    Option.Rel Answered (x.bind fun r => some ((fun _ => false) <$> r.1, r.2.1, r.2.2)) y := by
  refine Machine.rel_bind_left h fun r t _ hp => ?_
  have hs : t.status = .running := hp.status.trans hm
  refine .some ⟨?_, hp.tracks, by simp [hs]⟩
  rw [hs, hp.result]
  rfl

theorem Tracks.command (h : Tracks (app, os) m) (hm : m.status = .running) (command : MultiplexerCommand)
    (size : UInt16 × UInt16) : Option.Rel Answered (app.command command size os) (m.command command) := by
  cases command with
  | splitHorizontal => exact answered_of_performed hm (h.split .horizontal size)
  | splitVertical => exact answered_of_performed hm (h.split .vertical size)
  | closeFocused => exact answered_of_performed hm h.closeFocused
  | focusNext =>
    simp only [App.command, Mux.command, Mux.perform, Session.step, ← h.session]
    cases hf : app.session.focusNext with
    | none => exact .none
    | some session => exact .some ⟨by simp [hm], h.focusNext hf, by simp [hm]⟩
  | enterCopyMode =>
    exact .some ⟨by simp [hm], ⟨h.session, h.lastSize, h.written, h.router, rfl, h.tended, h.reliable⟩, by simp [hm]⟩
  | detach | quit =>
    exact .some ⟨rfl, ⟨h.session, h.lastSize, h.written, h.router, h.copying, h.tended, h.reliable⟩,
      fun hs => (by cases hs)⟩

/-! ### Keys -/

theorem Tracks.forward (h : Tracks (app, os) m) (bytes : List UInt8) :
    ∃ app' os', app.forward bytes os = (.ok (), app', os') ∧
      Tracks (app', os') { m with written := m.written.append m.session.focused bytes } := by
  have hp : app.session.focused ∈ app.session.panes := h.tended.wf.focused
  obtain ⟨runtime, hget⟩ := Option.isSome_iff_exists.mp ((h.tended.owned _).mpr hp)
  obtain ⟨os', hw, h'⟩ := write_succeeds h.reliable runtime bytes
  have hset := written_set hget bytes
  rw [h.written] at hset
  simp only [App.forward, hget, hw]
  exact ⟨_, _, rfl, h.session, h.lastSize, by rw [← h.session]; exact hset, h.router, h.copying,
    Owned.set h.tended hp _, h'⟩

theorem Tracks.routed (h : Tracks (app, os) m) (byte : UInt8) :
    Tracks ({ app with router := (app.router.route byte).2 }, os) { m with router := (m.router.route byte).2 } :=
  ⟨h.session, h.lastSize, h.written, by rw [← h.router], h.copying, h.tended, h.reliable⟩

theorem Tracks.byte (h : Tracks (app, os) m) (hm : m.status = .running) (size : UInt16 × UInt16) (byte : UInt8) :
    Option.Rel Answered (app.byte size byte os) (m.byte byte) := by
  have routed := h.routed byte
  simp only [App.byte, Mux.byte, ← h.router]
  rw [← h.router] at routed
  cases (app.router.route byte).1 with
  | pending => exact .some ⟨by simp [hm], routed, by simp [hm]⟩
  | forward bytes =>
    obtain ⟨app', os', hw, hf⟩ := routed.forward bytes
    simp only [hw]
    exact .some ⟨by simp [hm], hf, by simp [hm]⟩
  | command command => exact routed.command hm command size

theorem Tracks.keys (h : Tracks (app, os) m) (hm : m.status = .running) (size : UInt16 × UInt16)
    (bytes : List UInt8) : Option.Rel Answered (keys size bytes app os) (m.keys bytes) := by
  induction bytes generalizing app os m with
  | nil => exact .some ⟨by simp [hm], h, by simp [hm]⟩
  | cons byte bytes ih =>
    refine Machine.rel_bind (h.byte hm size byte) fun r t _ _ hr => ?_
    obtain ⟨hresult, hf, hgoing⟩ := hr
    obtain ⟨result, app', os'⟩ := r
    obtain rfl : result = .ok (decide (t.status = .left)) := hresult
    cases ht : t.status with
    | running => simpa [ht] using ih hf ht
    | left =>
      have done : Answered (.ok true, app', os') t := ⟨by rw [ht]; rfl, hf, hgoing⟩
      simpa [ht] using Option.Rel.some done
    | failed => exact absurd ht hgoing

/-! ### Rounds -/

theorem Tracks.navigateCopyMode (h : Tracks (app, os) m) (hc : m.copying = true) (key : KeyEvent)
    (size : UInt16 × UInt16) (history : UInt64) :
    ∃ app' os', app.navigateCopyMode key size history os = (.ok (), app', os') ∧
      Tracks (app', os') { m with copying := copyModeAction key ≠ some .exit } := by
  have hactive : app.copyMode.active = true := h.copying.trans hc
  obtain ⟨runtime, hget⟩ := Option.isSome_iff_exists.mp ((h.tended.owned _).mpr h.tended.wf.focused)
  obtain ⟨os', ha, h'⟩ := h.reliable.attempt
  unfold App.navigateCopyMode
  cases hk : copyModeAction key with
  | none => exact ⟨_, _, rfl, h.session, h.lastSize, h.written, h.router, by simp [hactive], h.tended, h.reliable⟩
  | some action =>
    simp only [hget, ha]
    refine ⟨_, _, rfl, h.session, h.lastSize, h.written, h.router, ?_, h.tended, h'⟩
    simp [CopyMode.apply_active hactive]

/-- What comes of an event. -/
structure Handled (r : Except String Flow × App × Os) (t : Mux) : Prop where
  result : ∃ flow, r.1 = .ok flow ∧ (flow = .leave ↔ t.status = .left)
  tracks : Tracks r.2 t
  going : t.status ≠ .failed

theorem Tracks.handle (h : Tracks (app, os) m) (hm : m.status = .running) (size : UInt16 × UInt16)
    (event : TerminalEvent) (history : UInt64) :
    Option.Rel Handled (app.handle size event history os) (m.handle event) := by
  have stay : Handled (.ok .proceed, app, os) m := ⟨⟨_, rfl, by simp [hm]⟩, h, by simp [hm]⟩
  cases event with
  | key key =>
    simp only [App.handle, Mux.handle, ← h.copying]
    split
    · exact .some stay
    · split
      · next hc =>
        obtain ⟨app', os', hn, hf⟩ := h.navigateCopyMode (h.copying.symm.trans hc) key size history
        simp only [hn]
        exact .some ⟨⟨.skip, rfl, by simp [hm]⟩, hf, by simp [hm]⟩
      · refine Machine.rel_bind_left (h.keys hm size (keyBytes key)) fun r t _ hr => ?_
        refine .some ⟨⟨if t.status = .left then .leave else .proceed, ?_, ?_⟩, hr.tracks, hr.going⟩
        · rw [hr.result]
          by_cases ht : t.status = .left <;> simp [ht]
        · split <;> simp [*]
  | resize cols rows =>
    obtain ⟨app', os', hr, hf⟩ := h.resized (cols, rows)
    simp only [App.handle, hr]
    exact .some ⟨⟨.proceed, rfl, by simp [hm]⟩, hf, by simp [hm]⟩
  | mouse | other => exact .some stay

/-- When no shell has exited, no pane is closed. -/
theorem reap_nil (panes : List PaneId) (app : App) (os : Os) : reap [] panes app os = some (.ok (), app, os) := by
  induction panes with
  | nil => rfl
  | cons pane panes ih => simpa [reap] using ih

theorem Tracks.round (h : Tracks (app, os) m) (hm : m.status = .running) {tick : Tick} (hx : tick.exited = []) :
    Option.Rel Answered (app.round m.size tick os) (m.step tick) := by
  have event : Option.Rel Handled
      (tick.event.elim (some (.ok .proceed, app, os)) fun event => app.handle m.size event tick.history os)
      (tick.event.elim (some m) m.handle) := by
    cases tick.event with
    | none => exact .some ⟨⟨.proceed, rfl, by simp [hm]⟩, h, by simp [hm]⟩
    | some event => exact h.handle hm m.size event tick.history
  have hsize : app.lastSize = m.size := h.lastSize
  rw [Mux.step, if_pos hm]
  simp only [App.round, hsize, ne_eq, not_true_eq_false, if_false, hx]
  refine Machine.rel_bind_left event fun r t _ hr => ?_
  obtain ⟨⟨flow, hflow, hleave⟩, hf, hgoing⟩ := hr
  obtain ⟨result, app', os'⟩ := r
  obtain rfl : result = .ok flow := hflow
  cases flow with
  | leave => exact .some ⟨by simp [hleave.mp rfl], hf, hgoing⟩
  | skip | proceed =>
    have ht : t.status ≠ .left := fun ht => (by cases hleave.mpr ht)
    simp only [reap_nil]
    exact .some ⟨by simp [ht], hf, hgoing⟩

end NovaMux.App

namespace NovaMux.Local

/-- The client on its terminal is where the multiplexer is. -/
structure Tracks (s : Local) (m : Mux) : Prop where
  client : App.Tracks (s.app, s.os) m
  size : s.size = m.size
  status : s.status = m.status

theorem Tracks.step {s : Local} {m : Mux} (h : Tracks s m) {tick : Tick} (hx : tick.exited = []) :
    Option.Rel Tracks (s.step tick) (m.step tick) := by
  by_cases hm : m.status = .running
  · rw [Local.step, if_pos (h.status.trans hm), h.size]
    refine Machine.rel_bind_left (h.client.round hm hx) fun r t hs hr => ?_
    obtain ⟨result, app, os⟩ := r
    obtain ⟨hresult, hf, hgoing⟩ := hr
    obtain rfl : result = .ok (decide (t.status = .left)) := hresult
    refine .some ⟨hf, (Mux.step_size hs).symm, ?_⟩
    cases ht : t.status with
    | running => simp
    | left => simp
    | failed => exact absurd ht hgoing
  · rw [Local.step, Mux.step, if_neg (h.status ▸ hm), if_neg hm]
    exact .none

end NovaMux.Local

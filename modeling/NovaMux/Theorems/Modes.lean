import NovaMux.Theorems.LocalMode
import NovaMux.Theorems.AttachedMode
import Mathlib.Data.List.Infix

/-! Local and attached modes drive the same session. Both event loops follow the multiplexer, so with every
    PTY operation succeeding, no shell exiting and no more panes than a screen admits they agree after each
    event. -/

namespace NovaMux

open Machine

variable {c : ConnId} {name : SessionName} {daemon : Daemon} {os os' : Os} {size : UInt16 × UInt16}

/-! ### Starts -/

/-- The daemon has accepted the connection `c`, and the session `name` is as it was created. -/
structure Fresh (c : ConnId) (name : SessionName) (daemon : Daemon) : Prop where
  waiting : Waiting c daemon .reading
  session : ∃ hosted os os', HostedSession.create name os = (.ok hosted, os') ∧
    daemon.sessions[name.asStr]? = some hosted
  reliable : daemon.os.Reliable

/-- A session as it was created, on any system that works from then on. -/
theorem HostedSession.Tracks.create {hosted : HostedSession} {os₁ : Os}
    (hc : HostedSession.create name os₁ = (.ok hosted, os')) (h : os.Reliable) (session : Session)
    (hs : session.renamed name = Session.new name) :
    HostedSession.Tracks ({ hosted with attached := true }, os) (Mux.start session (80, 24)) := by
  have tended := HostedSession.Tended.create hc
  obtain ⟨removed, panes, hr, rfl⟩ := HostedSession.create_inv hc
  have hw := written_reconcile hr
  rw [PaneRegistry.written_new] at hw
  exact ⟨hs.symm, rfl, (by decide : (2 : UInt16) ≤ 80 ∧ (2 : UInt16) ≤ 24), hw.trans (by rw [← hs]; rfl), tended, h⟩

/-- The daemon confirms the attachment. -/
theorem Fresh.connect (h : Fresh c name daemon) : ∃ d hosted os os',
    Attached.connect c name daemon = some d ∧ HostedSession.create name os = (.ok hosted, os') ∧
      Serving c name d { hosted with attached := true } ∧ d.os.Reliable := by
  obtain ⟨hosted, os, os', hcreate, hget⟩ := h.session
  have hfree : hosted.attached = false := by
    obtain ⟨-, panes, -, rfl⟩ := HostedSession.create_inv hcreate
    rfl
  obtain ⟨bytes, he⟩ := encodeRequest_isOk_of_ne (.attach name) fun _ he => (by cases he)
  obtain ⟨bytes', he'⟩ := (encodeResponse_isOk _).mpr (limits_named name (Or.inr (Or.inl rfl)))
  have hcr : daemon.critical (.attaching name) = some (.greeting name,
      daemon.sessions.insert name.asStr { hosted with attached := true }, daemon.os) := by
    simp [Daemon.critical, hget, hfree]
  obtain ⟨d, hex, hwait, hsessions, hos⟩ := h.waiting.exchange_some rfl he hcr rfl he'
  refine ⟨d, hosted, os, os', ?_, hcreate, ⟨hwait, by rw [hsessions]; simp⟩, by rw [hos]; exact h.reliable⟩
  simp only [Attached.connect, hex, Option.bind_eq_bind, Option.bind_some, if_true]

/-- The second exchange tells the daemon the size of the terminal. -/
theorem Fresh.start (h : Fresh c name daemon) (hc : 2 ≤ size.1) (hr : 2 ≤ size.2) (session : Session)
    (hs : session.renamed name = Session.new name) :
    ∃ s, Attached.start c name daemon size = some s ∧ Attached.Tracks c name s (Mux.start session size) := by
  obtain ⟨d, hosted, os₁, os', hconnect, hcreate, hserv, hos⟩ := h.connect
  have hf := HostedSession.Tracks.create hcreate hos session hs
  -- The client before its first request, as if it had a screen already.
  obtain ⟨s₀, hs₀⟩ : ∃ s₀ : Attached,
      s₀ = { daemon := d, router := .new, copyMode := .default, response := .screen [], status := .running } := ⟨_, rfl⟩
  have tracks₀ : Attached.Tracks c name s₀ (Mux.start session (80, 24)) := by
    subst hs₀
    exact ⟨⟨_, hserv.session, hf, fun _ => hserv⟩, rfl, rfl, rfl, ⟨[], rfl⟩⟩
  have hroom : (Mux.start session (80, 24)).session.panes.length ≤ maxSnapshotPanes := by
    show (session.renamed name).panes.length ≤ maxSnapshotPanes
    rw [hs]
    exact (by decide : 1 ≤ 32)
  obtain ⟨s, hrequest, htracks⟩ := rel_some_right (tracks₀.resize rfl hroom hc hr) rfl
  refine ⟨s, ?_, htracks⟩
  subst hs₀
  obtain ⟨⟨response, d'⟩, hex, hrequest⟩ := Option.bind_eq_some_iff.mp hrequest
  cases response with
  | none =>
    cases hrequest
    cases htracks.status
  | some response =>
    cases hrequest
    simp only [Attached.start, hconnect, hex, Option.bind_eq_bind, Option.bind_some]

/-! ### Agreement -/

/-- What the client holds and what the daemon holds of the session that the other client is attached to. -/
structure Agree (l : Local) (a : Attached) (hosted : HostedSession) : Prop where
  root : l.app.session.root = hosted.session.root
  focused : l.app.session.focused = hosted.session.focused
  nextId : l.app.session.nextId = hosted.session.nextId
  layout : l.app.layout l.size = hosted.layout
  written : l.app.panes.written = hosted.panes.written
  copying : l.app.copyMode.active = a.copyMode.active
  status : l.status = a.status

/-- The two clients are at the same point of the same session. -/
def Same (name : SessionName) (l : Local) (a : Attached) : Prop :=
  ∃ hosted, a.daemon.sessions[name.asStr]? = some hosted ∧ Agree l a hosted

/-- Two clients that follow the same multiplexer. -/
theorem same_of_tracks {l : Local} {a : Attached} {m : Mux} (hl : l.Tracks m) (ha : Attached.Tracks c name a m) :
    Same name l a := by
  obtain ⟨hosted, hget, hf, -⟩ := ha.hosted
  have hlocal : l.app.session = m.session := hl.client.session
  have hhosted : hosted.session = m.session.renamed hosted.session.name := hf.session
  have hviewport : hosted.viewport = m.size := hf.viewport
  have hwritten : l.app.panes.written = m.written := hl.client.written
  refine ⟨hosted, hget, ?_, ?_, ?_, ?_, hwritten.trans hf.written.symm, hl.client.copying.trans ha.copying.symm,
    hl.status.trans ha.status.symm⟩
  · rw [hlocal, hhosted]
    rfl
  · rw [hlocal, hhosted]
    rfl
  · rw [hlocal, hhosted]
    rfl
  · rw [App.layout, HostedSession.layout, hlocal, hhosted, hl.size, hviewport]
    rfl

/-- A round in which no shell has exited by its end, and the terminal tells no size that would be clamped. -/
structure Tick.Calm (tick : Tick) : Prop where
  exited : tick.exited = []
  large : ∀ cols rows, tick.event = some (.resize cols rows) → 2 ≤ cols ∧ 2 ≤ rows

/-- One multiplexer that both clients follow. -/
def Both (c : ConnId) (name : SessionName) (l : Local) (a : Attached) : Prop :=
  ∃ m, l.Tracks m ∧ Attached.Tracks c name a m

theorem both_step {l : Local} {a : Attached} {tick : Tick} (htick : tick.Calm) (h : Both c name l a)
    (hfew : l.app.session.panes.length ≤ 32)
    (hnext : ∀ l', l.step tick = some l' → l'.app.session.panes.length ≤ 32) :
    Option.Rel (Both c name) (l.step tick) (a.step c name tick) := by
  obtain ⟨m, hl, ha⟩ := h
  have hlocal := hl.step htick.exited
  refine rel_of_both hlocal (ha.step htick.large (hl.client.session ▸ hfew) fun t ht => ?_)
  obtain ⟨l', hs, hl'⟩ := rel_some_right hlocal ht
  exact hl'.client.session ▸ hnext l' hs

/-- A local client that is running takes part in every round for which there are identifiers. -/
theorem step_isSome_of_tracks {l : Local} {m : Mux} (h : l.Tracks m) (hl : l.status = .running)
    (hid : l.app.session.nextId.toNat + 1 < 2 ^ 64) {tick : Tick} (htick : tick.Calm) : ∃ l', l.step tick = some l' := by
  have hsession : l.app.session = m.session := h.client.session
  have hw : l.app.session.Wf := h.client.tended.wf
  rw [hsession] at hid hw
  obtain ⟨t, ht⟩ := Mux.step_isSome hw (h.status.symm.trans hl) hid tick
  obtain ⟨l', hs, -⟩ := rel_some_right (h.step htick.exited) ht
  exact ⟨l', hs⟩

/-- After any sequence of events, the local client and the client that is attached to a new session hold the
    same pane tree, focus, identifier counter and layout, have sent the same bytes to the same panes, agree on
    copy mode, and go on or have stopped alike. As long as there are identifiers, one that has not stopped takes
    part in the next round. -/
theorem modes_agree (hfresh : Fresh c name daemon) (hos : os.Reliable) (size : UInt16 × UInt16) (hcols : 2 ≤ size.1)
    (hrows : 2 ≤ size.2) :
    ∃ app os' attached, App.new size os = (.ok app, os') ∧ Attached.start c name daemon size = some attached ∧
      ∀ ticks : List Tick, (∀ tick ∈ ticks, tick.Calm) →
        Throughout Local.step (fun l => l.app.session.panes.length ≤ 32) (.start app size os') ticks →
        ∀ events, events <+: ticks →
          Option.Rel (Same name) (run Local.step (.start app size os') events)
              (run (Attached.step c name) attached events) ∧
            ∀ l, run Local.step (.start app size os') events = some l →
              l.status = .running → l.app.session.nextId.toNat + 1 < 2 ^ 64 →
              ∀ tick ∈ ticks, ∃ l', l.step tick = some l' := by
  obtain ⟨app, os', hnew, hclient⟩ := App.Tracks.new hos size
  obtain ⟨attached, hstart, hattached⟩ := hfresh.start hcols hrows App.localSession rfl
  refine ⟨app, os', attached, hnew, hstart, fun ticks hcalm hroom events hp => ?_⟩
  have both : Both c name (.start app size os') attached := ⟨_, ⟨hclient, rfl, rfl⟩, hattached⟩
  have hrel := run_rel (fun l a tick htick => both_step htick) both (hroom.of_prefix hp) fun tick ht =>
    hcalm tick (hp.subset ht)
  refine ⟨rel_imp hrel fun l a hboth => ?_, fun l hrun hstatus hid tick ht => ?_⟩
  · obtain ⟨m, hl, ha⟩ := hboth
    exact same_of_tracks hl ha
  · obtain ⟨a, -, m, hl, -⟩ := rel_some hrel hrun
    exact step_isSome_of_tracks hl hstatus hid (hcalm tick ht)

/-- A split, a letter for the new pane, another size of the terminal, and the command to leave. -/
def visit : List Tick :=
  [pressed (.char 'b') true, pressed (.char '%') false, pressed (.char 'é') false,
    { event := some (.resize 100 40), exited := [], history := 0 }, pressed (.char 'B') true, pressed (.char 'q') false]

theorem modes_agree_visit : ∃ daemon app os' attached, App.new (80, 24) ⟨0, [], []⟩ = (.ok app, os') ∧
    Attached.start 2 .work daemon (80, 24) = some attached ∧
    (∃ l, run Local.step (.start app (80, 24) os') visit = some l ∧ l.status = .left) ∧
    ∀ events, events <+: visit →
      Option.Rel (Same .work) (run Local.step (.start app (80, 24) os') events)
        (run (Attached.step 2 .work) attached events) := by
  obtain ⟨hosted, os₁, hcreate⟩ : ∃ hosted os₁, HostedSession.create .work ⟨0, [], []⟩ = (.ok hosted, os₁) :=
    ⟨_, _, rfl⟩
  have quiet : ∀ spawned, Os.Reliable ⟨spawned, [], []⟩ := fun _ _ h => absurd h List.not_mem_nil
  have fresh : Fresh 2 .work
      { sessions := (∅ : Sessions).insert SessionName.work.asStr hosted
        lock := none
        conns := fun d => if d = 2 then some { phase := .reading, inbox := [], outbox := [] } else none
        os := ⟨1, [], []⟩ } :=
    ⟨⟨⟨[], rfl⟩, rfl⟩, ⟨hosted, _, _, hcreate, by simp⟩, quiet 1⟩
  obtain ⟨app, os', attached, hnew, hstart, hall⟩ := modes_agree fresh (quiet 0) (80, 24) (by decide) (by decide)
  have hpanes : ((App.new (80, 24) ⟨0, [], []⟩).1.toOption.map fun app => visit.inits.map fun events =>
      (run Local.step (.start app (80, 24) (App.new (80, 24) ⟨0, [], []⟩).2) events).map fun l => l.app.session.panes.length) =
      some [some 1, some 1, some 2, some 2, some 2, some 2, some 2] := by decide +kernel
  rw [hnew] at hpanes
  have hlist := Option.some.inj hpanes
  have few : ∀ events, events <+: visit → ∀ l, run Local.step (.start app (80, 24) os') events = some l →
      l.app.session.panes.length ≤ 32 := by
    intro events hp l hl
    have hin := List.mem_map_of_mem (f := fun events =>
      (run Local.step (.start app (80, 24) os') events).map fun l => l.app.session.panes.length)
      ((List.mem_inits _ _).mpr hp)
    have hsome : some l.app.session.panes.length ∈ [some 1, some 1, some 2, some 2, some 2, some 2, some 2] := by
      rw [← hlist]
      simpa [hl] using hin
    have hone : l.app.session.panes.length = 1 ∨ l.app.session.panes.length = 2 := by simpa using hsome
    omega
  have hleft : ((App.new (80, 24) ⟨0, [], []⟩).1.toOption.bind fun app => (run Local.step
      (.start app (80, 24) (App.new (80, 24) ⟨0, [], []⟩).2) visit).map Local.status) = some .left := by decide +kernel
  rw [hnew] at hleft
  obtain ⟨l, hl, hstatus⟩ := Option.map_eq_some_iff.mp hleft
  refine ⟨_, app, os', attached, hnew, hstart, ⟨l, hl, hstatus⟩, fun events hp =>
    (hall visit ?_ (fun pre post l he hl => ?_) events hp).1⟩
  · intro tick ht
    refine ⟨(by decide : ∀ tick ∈ visit, tick.exited = []) tick ht, fun cols rows he => ?_⟩
    simp only [visit, List.mem_cons, List.not_mem_nil, or_false] at ht
    rcases ht with rfl | rfl | rfl | rfl | rfl | rfl
    all_goals
      cases he
    decide
  · exact few pre ⟨post, he.symm⟩ l hl

end NovaMux

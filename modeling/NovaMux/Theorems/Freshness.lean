import NovaMux.Theorems.Modes
import NovaMux.Theorems.Snapshots
import NovaMux.Theorems.Pictures

/-! The screen that an attached client holds is up to date. Whatever fails, an exchange that returns a response leaves
    the session as the response shows it, with the texts that the daemon has read last, and between two exchanges nobody
    else touches the session. So a client that is running draws a snapshot of the session as it is. -/

namespace NovaMux

variable {c : ConnId} {name : SessionName} {daemon daemon' : Daemon} {hosted hosted' : HostedSession}
  {request : Request} {response : Response} {reply : Option Response} {os os' : Os}

/-! ### Readings -/

/-- Only a snapshot reads terminals. -/
@[simp] theorem Os.attempt_screens (os : Os) : os.attempt.2.screens = os.screens := by
  unfold Os.attempt
  split <;> rfl

theorem LivePty.spawn_screens (size : TerminalSize) (os : Os) : (LivePty.spawn size os).2.screens = os.screens := by
  have hs := os.attempt_screens
  unfold LivePty.spawn
  split
  all_goals
    next ha =>
      rw [ha] at hs
      exact hs

theorem Os.screen_screens (os : Os) : os.screen.2.screens <:+ os.screens := by
  unfold Os.screen
  split
  · exact List.suffix_refl _
  · next text screens he =>
    rw [he]
    exact List.suffix_cons text screens

theorem LivePty.visibleText_screens (runtime : LivePty) (os : Os) : (runtime.visibleText os).2.screens <:+ os.screens := by
  rw [← os.attempt_screens]
  unfold LivePty.visibleText
  rcases os.attempt with ⟨_ | _, os₁⟩
  · exact os₁.screen_screens
  · exact List.suffix_refl _

theorem createMissing_screens (size : TerminalSize) (missing : List PaneId) (os : Os) :
    (PaneRegistry.createMissing (fun _ => LivePty.spawn size) missing os).2.screens = os.screens := by
  induction missing generalizing os with
  | nil => rfl
  | cons pane missing ih =>
    have hs := LivePty.spawn_screens size os
    rw [PaneRegistry.createMissing]
    split
    · next he =>
      rw [he] at hs
      exact hs
    · next os₁ he =>
      rw [he] at hs
      have hrest := (ih os₁).trans hs
      split
      all_goals
        next hc =>
          rw [hc] at hrest
          exact hrest

theorem reconcile_screens (panes : PaneRegistry LivePty) (session : Session) (size : TerminalSize) (os : Os) :
    (panes.reconcile session (fun _ => LivePty.spawn size) os).2.2.screens = os.screens := by
  have hs := createMissing_screens size (panes.missing session) os
  unfold PaneRegistry.reconcile
  simp only
  rw [← PaneRegistry.missing]
  split
  all_goals
    next hc =>
      rw [hc] at hs
      exact hs

namespace HostedSession

variable {result : Except ServiceError Unit}

theorem resize_screens {cols rows : UInt16} (h : hosted.resize cols rows os = (result, hosted', os')) :
    os'.screens = os.screens := by
  obtain ⟨outcome, panes, -, hres, -⟩ := resize_inv h
  have hs := resizeRuntimes_keeps (f := Os.screens) Os.attempt_screens hosted'.layout hosted.panes os
  rwa [hres] at hs

theorem split_screens {direction : SplitDirection} (h : hosted.split direction os = some (result, hosted', os')) :
    os'.screens = os.screens := by
  obtain ⟨id, candidate, -, hcases⟩ := split_inv h
  have hs := reconcile_screens hosted.panes candidate (.new 2 2) os
  rcases hcases with ⟨error, hrec, -, -⟩ | ⟨removed, panes, os₁, hrec, hres⟩
  · rwa [hrec] at hs
  · rw [hrec] at hs
    exact (resize_screens hres).trans hs

theorem close_screens (h : hosted.close os = some (result, hosted', os')) : os'.screens = os.screens := by
  rcases close_inv h with ⟨-, -, -, -, rfl⟩ | ⟨session, outcome, panes, os₁, -, hrec, -, hend⟩
  · rfl
  · have hs := reconcile_screens hosted.panes session (.new 2 2) os
    rw [hrec] at hs
    rcases hend with ⟨-, -, -, rfl⟩ | ⟨removed, ended, -, hterm, -⟩
    · exact hs
    · have ht := terminateRuntimes_keeps (f := Os.screens) Os.attempt_screens removed os₁
      rw [hterm] at ht
      exact ht.trans hs

theorem command_screens {code : UInt8} (h : hosted.command code os = some (result, hosted', os')) :
    os'.screens = os.screens := by
  unfold HostedSession.command at h
  split at h
  · exact split_screens h
  · exact split_screens h
  · obtain ⟨session, -, h⟩ := Option.bind_eq_some_iff.mp h
    cases h
    rfl
  · exact close_screens h
  · cases h
    rfl

theorem input_screens (hosted : HostedSession) (bytes : List UInt8) (os : Os) :
    (hosted.input bytes os).2.2.screens = os.screens := by
  have hs := os.attempt_screens
  unfold HostedSession.input
  split
  · rfl
  · simp only [LivePty.write]
    rcases ha : os.attempt with ⟨_ | _, os₁⟩
    all_goals
      rw [ha] at hs
      exact hs

theorem paneText_screens (hosted : HostedSession) (pane : PaneId) (os : Os) :
    (hosted.paneText pane os).2.screens <:+ os.screens := by
  unfold paneText
  split
  · exact List.suffix_refl _
  · next runtime _ =>
    have hs := runtime.visibleText_screens os
    split
    all_goals
      next ht =>
        rw [ht] at hs
        exact hs

theorem snapshotPanes_screens (hosted : HostedSession) (allowance : Nat) (layout : List (PaneId × Rect)) (os : Os) :
    (hosted.snapshotPanes allowance layout os).2.screens <:+ os.screens := by
  induction layout generalizing os with
  | nil => exact List.suffix_refl _
  | cons entry layout ih =>
    obtain ⟨pane, rect⟩ := entry
    have htext := hosted.paneText_screens pane os
    rw [snapshotPanes]
    split
    · next hp =>
      rw [hp] at htext
      exact htext
    · next os₁ hp =>
      rw [hp] at htext
      have hrest := (ih os₁).trans htext
      split
      all_goals
        next hs =>
          rw [hs] at hrest
          exact hrest

theorem snapshot_screens (h : hosted.snapshot os = (.ok response, os')) : os'.screens <:+ os.screens := by
  have hs := hosted.snapshotPanes_screens (6500 / max hosted.layout.length 1) hosted.layout os
  simp only [snapshot] at h
  split at h
  · cases h
  · next hp =>
    rw [hp] at hs
    cases h
    exact hs

/-! ### Snapshots -/

/-- The response shows the session as it is. Nothing has been read since, and what it shows was read in turn: of the
    texts to read there are those left of `screens` when it was made, and then those that `os'` has left. -/
def ShownBy (hosted : HostedSession) (screens : List String) (os' : Os) (response : Response) : Prop :=
  ∃ os, os.screens <:+ screens ∧ hosted.snapshot os = (.ok response, os')

variable {screens : List String}

theorem ShownBy.left (h : hosted.ShownBy screens os' response) : os'.screens <:+ screens := by
  obtain ⟨os, hsuffix, hs⟩ := h
  exact (snapshot_screens hs).trans hsuffix

theorem ShownBy.of_thenSnapshot {r : Except ServiceError Unit × HostedSession × Os} (hr : r.2.2.screens <:+ screens)
    (h : thenSnapshot r = (.ok response, hosted', os')) : hosted'.ShownBy screens os' response := by
  obtain ⟨result, hosted, os⟩ := r
  cases result with
  | error error => cases h
  | ok =>
    simp only [thenSnapshot, Prod.mk.injEq] at h
    obtain ⟨hresponse, rfl, rfl⟩ := h
    exact ⟨os, hr, Prod.ext hresponse rfl⟩

theorem paneText_mem {pane : PaneId} {text : String} (h : hosted.paneText pane os = (.ok text, os')) :
    text = "" ∨ text ∈ os.screens := by
  unfold paneText at h
  split at h
  · cases h
    exact Or.inl rfl
  · simp only [LivePty.visibleText] at h
    have hs := os.attempt_screens
    rcases ha : os.attempt with ⟨_ | _, os₁⟩
    · rw [ha] at h hs
      rw [← hs]
      unfold Os.screen at h
      cases hscreens : os₁.screens with
      | nil =>
        simp only [hscreens, Prod.mk.injEq, Except.ok.injEq] at h
        exact Or.inl h.1.symm
      | cons first screens =>
        simp only [hscreens, Prod.mk.injEq, Except.ok.injEq] at h
        exact Or.inr (h.1 ▸ List.mem_cons_self)
    · rw [ha] at h
      cases h

theorem snapshotPanes_mem {allowance : Nat} {layout : List (PaneId × Rect)} {panes : List PaneSnapshot}
    (h : hosted.snapshotPanes allowance layout os = (.ok panes, os')) {pane : PaneSnapshot} (hp : pane ∈ panes) :
    ∃ text, pane.text = truncateUtf8 text allowance ∧ (text = "" ∨ text ∈ os.screens) := by
  induction layout generalizing os panes with
  | nil =>
    cases h
    cases hp
  | cons entry layout ih =>
    obtain ⟨id, rect⟩ := entry
    have hleft := hosted.paneText_screens id os
    simp only [snapshotPanes] at h
    split at h
    · cases h
    · next text os₁ htext =>
      rw [htext] at hleft
      split at h
      · cases h
      · next rest os₂ hrest =>
        cases h
        -- Later panes read what the first one has left.
        rcases List.mem_cons.mp hp with rfl | hp
        · exact ⟨text, rfl, paneText_mem htext⟩
        · obtain ⟨text, he, hmem⟩ := ih hrest hp
          exact ⟨text, he, hmem.imp_right fun hmem => hleft.subset hmem⟩

/-- Each pane shows the end of a text to read, or none. -/
theorem ShownBy.texts {panes : List PaneSnapshot} (h : hosted.ShownBy screens os' (.screen panes)) {pane : PaneSnapshot}
    (hp : pane ∈ panes) : ∃ text, pane.text = truncateUtf8 text (6500 / max hosted.layout.length 1) ∧
      (text = "" ∨ text ∈ screens) := by
  obtain ⟨os, hsuffix, h⟩ := h
  simp only [snapshot] at h
  split at h
  · cases h
  · next hpanes =>
    cases h
    obtain ⟨text, he, hmem⟩ := snapshotPanes_mem hpanes hp
    exact ⟨text, he, hmem.imp_right fun hmem => hsuffix.subset hmem⟩

/-- The requests of an attached client, apart from its detachment. -/
def Attends : Request → Prop
  | .snapshot | .input _ | .resize _ _ | .command _ => True
  | _ => False

theorem Attends.ne_detach (h : Attends request) (name : SessionName) : request ≠ .detach name := by
  rintro rfl
  exact h

theorem respond_shown (ha : Attends request) (hleft : os.screens <:+ screens)
    (h : hosted.respond request os = some (.ok response, hosted', os')) : hosted'.ShownBy screens os' response := by
  cases request with
  | snapshot =>
    simp only [respond, Option.some.injEq, Prod.mk.injEq] at h
    obtain ⟨hresponse, rfl, rfl⟩ := h
    exact ⟨os, hleft, Prod.ext hresponse rfl⟩
  | input bytes => exact ShownBy.of_thenSnapshot ((hosted.input_screens bytes os).symm ▸ hleft) (Option.some.inj h)
  | resize cols rows => exact ShownBy.of_thenSnapshot ((resize_screens rfl).symm ▸ hleft) (Option.some.inj h)
  | command code =>
    obtain ⟨r, hc, hr⟩ := Option.map_eq_some_iff.mp h
    exact ShownBy.of_thenSnapshot ((command_screens hc).symm ▸ hleft) hr
  | ping | list | create | attach | detach => exact ha.elim

/-! ### Viewports -/

/-- The viewport of a terminal of the given size. -/
def clamp (size : UInt16 × UInt16) : UInt16 × UInt16 := (max size.1 2, max size.2 2)

theorem two_le_max (a : UInt16) : 2 ≤ max a 2 := by
  show 2 ≤ if a ≤ 2 then 2 else a
  split
  · exact UInt16.le_refl _
  · next hlt => exact UInt16.le_of_lt (UInt16.not_le.mp hlt)

theorem clamp_eq {size : UInt16 × UInt16} (hcols : 2 ≤ size.1) (hrows : 2 ≤ size.2) : clamp size = size :=
  Prod.ext (max_two hcols) (max_two hrows)

theorem clamp_clamp (size : UInt16 × UInt16) : clamp (clamp size) = clamp size :=
  clamp_eq (two_le_max _) (two_le_max _)

theorem resize_viewport (hosted : HostedSession) (cols rows : UInt16) (os : Os) :
    (hosted.resize cols rows os).2.1.viewport = clamp (cols, rows) := by
  obtain ⟨⟨result, hosted', os'⟩, hres⟩ : ∃ r, hosted.resize cols rows os = r := ⟨_, rfl⟩
  obtain ⟨outcome, panes, rfl, -⟩ := resize_inv hres
  rw [hres]
  rfl

/-- The size of the terminal that a request leaves behind. -/
def sizeAfter (request : Request) (size : UInt16 × UInt16) : UInt16 × UInt16 :=
  match request with
  | .resize cols rows => (cols, rows)
  | _ => size

/-- Only a new size changes the viewport. -/
theorem respond_viewport {size : UInt16 × UInt16} {result : Except ServiceError Response}
    (hv : hosted.viewport = clamp size) (h : hosted.respond request os = some (result, hosted', os')) :
    hosted'.viewport = clamp (sizeAfter request size) := by
  cases request with
  | snapshot =>
    cases h
    exact hv
  | input bytes =>
    have he : (hosted.input bytes os).2.1 = hosted' := by rw [← thenSnapshot_hosted, Option.some.inj h]
    rw [← he]
    unfold HostedSession.input
    split
    · exact hv
    · split
      · exact hv
      · exact hv
  | resize cols rows =>
    have he : (hosted.resize cols rows os).2.1 = hosted' := by rw [← thenSnapshot_hosted, Option.some.inj h]
    rw [← he]
    exact resize_viewport _ _ _ _
  | command code =>
    obtain ⟨⟨result, hosted₁, os₁⟩, hc, he⟩ := Option.map_eq_some_iff.mp h
    obtain rfl : hosted₁ = hosted' := (thenSnapshot_hosted _).symm.trans (congrArg (·.2.1) he)
    -- A split resizes to the viewport that the session has, which is clamped already.
    have split : ∀ direction, hosted.split direction os = some (result, hosted₁, os₁) → hosted₁.viewport = clamp size := by
      intro direction hs
      obtain ⟨id, candidate, -, ⟨error, -, -, rfl⟩ | ⟨removed, panes, os₂, -, hres⟩⟩ := split_inv hs
      · exact hv
      · obtain ⟨outcome, panes', rfl, -⟩ := resize_inv hres
        show clamp hosted.viewport = clamp size
        rw [hv, clamp_clamp]
    unfold HostedSession.command at hc
    split at hc
    · exact split _ hc
    · exact split _ hc
    · obtain ⟨session, -, hc⟩ := Option.bind_eq_some_iff.mp hc
      cases hc
      exact hv
    · rcases close_inv hc with ⟨-, -, rfl, -⟩ | ⟨session, outcome, panes, os₁, -, -, rfl, -⟩
      · exact hv
      · exact hv
    · cases hc
      exact hv
  | create | list | attach | detach | ping =>
    cases h
    exact hv

/-! ### What a snapshot says -/

/-- A snapshot lists the panes of the layout in order. -/
theorem snapshotPanes_inv {allowance : Nat} {layout : List (PaneId × Rect)} {panes : List PaneSnapshot}
    (h : hosted.snapshotPanes allowance layout os = (.ok panes, os')) :
    List.Forall₂ (fun entry pane => ∃ text, pane = hosted.shot allowance entry text) layout panes := by
  induction layout generalizing os panes with
  | nil =>
    cases h
    exact .nil
  | cons entry layout ih =>
    obtain ⟨pane, rect⟩ := entry
    simp only [snapshotPanes] at h
    split at h
    · cases h
    · next text os₁ _ =>
      split at h
      · cases h
      · next rest os₂ hrest =>
        cases h
        exact .cons ⟨text, rfl⟩ (ih hrest)

theorem ShownBy.screen (h : hosted.ShownBy screens os' response) : ∃ panes, response = .screen panes ∧
    List.Forall₂ (fun entry pane => ∃ text, pane = hosted.shot (6500 / max hosted.layout.length 1) entry text)
      hosted.layout panes := by
  obtain ⟨os, -, h⟩ := h
  simp only [snapshot] at h
  split at h
  · cases h
  · next panes os₁ hpanes =>
    cases h
    exact ⟨panes, rfl, snapshotPanes_inv hpanes⟩

theorem areas_of_shots {allowance : Nat} {layout : List (PaneId × Rect)} {panes : List PaneSnapshot}
    (h : List.Forall₂ (fun entry pane => ∃ text, pane = hosted.shot allowance entry text) layout panes) :
    panes.map PaneSnapshot.area = layout.map Prod.snd := by
  induction h with
  | nil => rfl
  | cons hpane _ ih =>
    obtain ⟨text, rfl⟩ := hpane
    rw [List.map_cons, List.map_cons, ih]
    rfl

/-- The panes of a snapshot are arranged in the viewport. -/
theorem arranged_of_shots {allowance : Nat} {panes : List PaneSnapshot}
    (h : List.Forall₂ (fun entry pane => ∃ text, pane = hosted.shot allowance entry text) hosted.layout panes) :
    Arranged hosted.viewport panes := by
  refine Arranged.of_rects hosted.session.root ?_
  rw [areas_of_shots h, layout, Session.layout_eq]

end HostedSession

/-! ### Exchanges -/

theorem exchange_eq {d : Daemon} (henc : deliverRequest request = .ok request)
    (hrun : Machine.run Daemon.step daemon [.send c request, .read c true] = some d) : exchange c daemon request =
      (d.step (.enter c)).bind fun entered => match entered.step (.write c true) with
        | none => some (none, entered)
        | some daemon => (daemon.conns c).bind fun conn => conn.outbox.getLast?.bind fun response =>
          some ((deliverResponse response).toOption, daemon) := by
  have hall : Machine.run Daemon.step daemon ([.send c request, .read c true] ++ [.enter c]) = d.step (.enter c) := by
    rw [Machine.run_append, hrun, Option.bind_some, Machine.run_singleton]
  simp only [List.cons_append, List.nil_append] at hall
  simp only [exchange, henc, hall, Option.bind_eq_bind]
  rfl

/-- A client that gets a response gets the one that the thread has come to with the sessions locked. -/
theorem Waiting.exchange_inv {phase phase' entered : Phase} {sessions : Sessions} (h : Waiting c daemon phase)
    (hp : phase.afterRead request = some phase') (hcr : daemon.critical phase' = some (entered, sessions, os))
    (hex : exchange c daemon request = some (some response, daemon')) :
    entered.reply = some response ∧ Waiting c daemon' entered.afterWrite ∧ daemon'.sessions = sessions ∧
      daemon'.os = os := by
  cases henc : encodeRequest request with
  | error error =>
    have hdeliver : deliverRequest request = .error error := by rw [deliverRequest, henc]; rfl
    simp [exchange, hdeliver] at hex
  | ok bytes =>
    obtain ⟨d, outbox, hrun, henter⟩ := h.entered hp
    rw [exchange_eq (deliverRequest_eq henc) hrun, henter, hcr] at hex
    cases hreply : entered.reply with
    | none => simp [Daemon.step, hreply] at hex
    | some answer =>
      cases hsent : encodeResponse answer with
      | error error => simp [Daemon.step, hreply, hsent] at hex
      | ok bytes' =>
        obtain ⟨d', hex', hwait, hsessions, hos⟩ := h.exchange_some hp henc hcr hreply hsent
        rw [exchange_eq (deliverRequest_eq henc) hrun, henter, hcr] at hex'
        cases hex.symm.trans hex'
        exact ⟨rfl, hwait, hsessions, hos⟩

theorem exchange_isSome_of_reply {phase phase' : Phase} (h : Waiting c daemon phase)
    (hp : phase.afterRead request = some phase') (hex : exchange c daemon request = some (some response, daemon')) :
    ∃ r, daemon.critical phase' = some r := by
  cases hcr : daemon.critical phase' with
  | some r => exact ⟨r, rfl⟩
  | none =>
    cases henc : encodeRequest request with
    | error error =>
      have hdeliver : deliverRequest request = .error error := by rw [deliverRequest, henc]; rfl
      simp [exchange, hdeliver] at hex
    | ok bytes =>
      rw [h.exchange_none hp henc hcr] at hex
      cases hex

/-- A response to a request of an attachment is the one that the session has made, and the session serves the connection
    still. -/
theorem Serving.exchange_inv (h : Serving c name daemon hosted) (hd : request ≠ .detach name)
    (hex : exchange c daemon request = some (some response, daemon')) : ∃ hosted' os',
      hosted.respond request daemon.os = some (.ok response, hosted', os') ∧ Serving c name daemon' hosted' ∧
        daemon'.os = os' := by
  obtain ⟨⟨entered, sessions, os⟩, hcr⟩ := exchange_isSome_of_reply h.waiting rfl hex
  obtain ⟨hreply, hwait, hsessions, hos⟩ := h.waiting.exchange_inv rfl hcr hex
  simp only [Daemon.critical, h.session, if_neg hd] at hcr
  obtain ⟨⟨result, hosted', os'⟩, hrespond, hcr⟩ := Option.bind_eq_some_iff.mp hcr
  cases result with
  | error error =>
    cases hcr
    cases hreply
  | ok answer =>
    cases hcr
    cases hreply
    exact ⟨hosted', os', hrespond, ⟨hwait, by rw [hsessions]; simp⟩, hos⟩

/-- The daemon confirms an attachment only to a connection that it serves from then on, and reads nothing for it. -/
theorem Waiting.connect_inv (h : Waiting c daemon .reading) (hr : Attached.connect c name daemon = some daemon') :
    ∃ hosted, Serving c name daemon' hosted ∧ daemon'.os = daemon.os := by
  obtain ⟨⟨reply, daemon₁⟩, hex, hr⟩ := Option.bind_eq_some_iff.mp hr
  split at hr
  · next attached d he =>
    cases he
    split at hr
    · next hname =>
      cases hr
      subst hname
      obtain ⟨⟨entered, sessions, os⟩, hcr⟩ := exchange_isSome_of_reply h rfl hex
      obtain ⟨hreply, hwait, hsessions, hos⟩ := h.exchange_inv rfl hcr hex
      simp only [Daemon.critical] at hcr
      split at hcr
      · cases hcr
        cases hreply
      · next hosted _ =>
        split at hcr
        · cases hcr
          cases hreply
        · cases hcr
          exact ⟨_, ⟨hwait, by rw [hsessions]; simp; rfl⟩, hos⟩
    · cases hr
  · cases hr

/-! ### The loop -/

namespace Attached

variable {s t : Attached}

/-- The daemon serves the client on a terminal of the given size, and the response that the client holds shows the
    session as it is, with the texts read last. -/
structure Current (c : ConnId) (name : SessionName) (screens : List String) (size : UInt16 × UInt16) (s : Attached) : Prop where
  shown : s.status = .running → ∃ hosted, Serving c name s.daemon hosted ∧
    hosted.ShownBy screens s.daemon.os s.response ∧ hosted.viewport = HostedSession.clamp size

variable {size : UInt16 × UInt16} {screens : List String}

theorem Current.requested (h : Current c name screens size s) (hs : s.status = .running) (hr : s.request c request = some t)
    (ha : HostedSession.Attends request) : Current c name screens (HostedSession.sizeAfter request size) t := by
  obtain ⟨hosted, hserv, hshown, hv⟩ := h.shown hs
  obtain ⟨⟨reply, daemon⟩, hex, hr⟩ := Option.bind_eq_some_iff.mp hr
  cases reply with
  | none =>
    -- A client without a response has failed, and draws nothing more.
    cases hr
    exact ⟨nofun⟩
  | some response =>
    cases hr
    obtain ⟨hosted', os', hrespond, hserv', rfl⟩ := hserv.exchange_inv (ha.ne_detach name) hex
    exact ⟨fun _ => ⟨hosted', hserv', HostedSession.respond_shown ha hshown.left hrespond,
      HostedSession.respond_viewport hv hrespond⟩⟩

theorem Current.detach (hr : s.detach c name = some t) : Current c name screens size t := by
  obtain ⟨⟨reply, daemon⟩, -, hr⟩ := Option.bind_eq_some_iff.mp hr
  have hended : t.status ≠ .running := by
    split at hr
    · cases hr
      exact nofun
    · cases hr
      exact nofun
  exact ⟨fun hrunning => absurd hrunning hended⟩

theorem Current.command (h : Current c name screens size s) (hs : s.status = .running) {command : MultiplexerCommand}
    (hr : s.command c name command = some t) : Current c name screens size t := by
  cases command with
  | detach | quit => exact Current.detach hr
  | enterCopyMode =>
    cases hr
    exact ⟨h.shown⟩
  | splitHorizontal | splitVertical | focusNext | closeFocused => exact h.requested hs hr trivial

theorem Current.byte (h : Current c name screens size s) (hs : s.status = .running) {byte : UInt8}
    (hr : s.byte c name byte = some t) : Current c name screens size t := by
  unfold Attached.byte at hr
  split at hr
  next action router _ =>
  have hrouted : Current c name screens size { s with router } := ⟨h.shown⟩
  cases action with
  | pending =>
    cases hr
    exact hrouted
  | forward bytes => exact hrouted.requested hs hr trivial
  | command command => exact hrouted.command hs hr

theorem Current.keys {bytes : List UInt8} (h : Current c name screens size s) (hs : s.status = .running)
    (hr : s.keys c name bytes = some t) : Current c name screens size t := by
  induction bytes generalizing s with
  | nil =>
    cases hr
    exact h
  | cons byte bytes ih =>
    obtain ⟨u, hu, hr⟩ := Option.bind_eq_some_iff.mp hr
    have hcurrent := h.byte hs hu
    split at hr
    · next hrunning => exact ih hcurrent hrunning hr
    · cases hr
      exact hcurrent

/-- The size of the terminal behind an event. -/
def sizeAfter (event : TerminalEvent) (size : UInt16 × UInt16) : UInt16 × UInt16 :=
  match event with
  | .resize cols rows => (cols, rows)
  | _ => size

theorem Current.handle (h : Current c name screens size s) (hs : s.status = .running) {event : TerminalEvent}
    (hr : s.handle c name event = some t) : Current c name screens (sizeAfter event size) t := by
  cases event with
  | key key =>
    simp only [Attached.handle] at hr
    split at hr
    · cases hr
      exact h
    · split at hr
      · cases hr
        unfold navigateCopyMode
        split
        · exact ⟨h.shown⟩
        · exact h
      · exact h.keys hs hr
  | resize cols rows => exact h.requested hs hr trivial
  | mouse | other =>
    cases hr
    exact h

theorem Current.step (h : Current c name screens size s) {tick : Tick} (hr : s.step c name tick = some t) :
    Current c name screens (tick.sizeAfter size) t := by
  unfold Attached.step at hr
  split at hr
  · next hs =>
    obtain ⟨hosted, -, hshown, -⟩ := h.shown hs
    obtain ⟨panes, hscreen, -⟩ := hshown.screen
    simp only [hscreen] at hr
    unfold Tick.sizeAfter
    cases hevent : tick.event with
    | none =>
      rw [hevent] at hr
      exact h.requested hs hr trivial
    | some event =>
      rw [hevent] at hr
      have hcurrent := h.handle hs hr
      cases event <;> exact hcurrent
  · cases hr

theorem Current.start (h : Waiting c daemon .reading) (hr : start c name daemon size = some s) :
    Current c name daemon.os.screens size s := by
  obtain ⟨attached, hconnect, hr⟩ := Option.bind_eq_some_iff.mp hr
  obtain ⟨⟨reply, daemon'⟩, hex, hr⟩ := Option.bind_eq_some_iff.mp hr
  obtain ⟨response, rfl, hr⟩ := Option.bind_eq_some_iff.mp hr
  cases hr
  obtain ⟨hosted, hserv, hos⟩ := h.connect_inv hconnect
  have ha : HostedSession.Attends (.resize size.1 size.2) := trivial
  obtain ⟨hosted', os', hrespond, hserv', rfl⟩ := hserv.exchange_inv (ha.ne_detach name) hex
  have hleft : attached.os.screens <:+ daemon.os.screens := hos ▸ List.suffix_refl _
  refine ⟨fun _ => ⟨hosted', hserv', HostedSession.respond_shown ha hleft hrespond, ?_⟩⟩
  have he : (hosted.resize size.1 size.2 attached.os).2.1 = hosted' := by
    rw [← HostedSession.thenSnapshot_hosted, Option.some.inj hrespond]
  rw [← he]
  exact HostedSession.resize_viewport _ _ _ _

/-! ### Runs -/

/-- The size of the terminal behind some rounds. -/
def sizeBehind (size : UInt16 × UInt16) (ticks : List Tick) : UInt16 × UInt16 :=
  ticks.foldl (fun size tick => tick.sizeAfter size) size

end Attached

end NovaMux

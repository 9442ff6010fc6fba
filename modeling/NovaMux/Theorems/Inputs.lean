import NovaMux.Theorems.Keystrokes
import NovaMux.Theorems.DaemonSteps

/-! Input reaches the shells of the daemon. However the connections interleave, and whatever the system refuses, an
    input that is served goes to the shell with the focus of its session, and no other shell, of that or of another
    session, is sent any of it. What a refused write has taken counts as sent. -/

namespace NovaMux

open Std Machine

/-- What the system takes of bytes that are written. -/
def Os.taken (os : Os) (bytes : List UInt8) : List UInt8 :=
  match os.attempt.1 with
  | none => bytes
  | some fault => bytes.take fault.accepted

theorem Os.taken_prefix (os : Os) (bytes : List UInt8) : os.taken bytes <+: bytes := by
  unfold Os.taken
  split
  · exact List.prefix_rfl
  · exact List.take_prefix _ _

variable {os os' : Os}

namespace HostedSession

variable {hosted hosted' : HostedSession} {result : Except ServiceError Unit}

/-- The number of the shell of the focused pane. -/
def shell (hosted : HostedSession) : Option Nat := (hosted.panes.get hosted.session.focused).map LivePty.child

/-! ### What requests send -/

theorem paneText_spawned (hosted : HostedSession) (pane : PaneId) (os : Os) :
    (hosted.paneText pane os).2.spawned = os.spawned := by
  have hattempt := os.attempt_spawned
  unfold HostedSession.paneText
  split
  · rfl
  · simp only [LivePty.visibleText]
    rcases ha : os.attempt with ⟨_ | _, os₁⟩
    all_goals
      rw [ha] at hattempt
    · simp only [Os.screen]
      split
      all_goals exact hattempt
    · exact hattempt

theorem snapshotPanes_spawned (hosted : HostedSession) (allowance : Nat) (layout : List (PaneId × Rect)) (os : Os) :
    (hosted.snapshotPanes allowance layout os).2.spawned = os.spawned := by
  induction layout generalizing os with
  | nil => rfl
  | cons entry layout ih =>
    obtain ⟨pane, rect⟩ := entry
    have htext := hosted.paneText_spawned pane os
    rw [HostedSession.snapshotPanes]
    split
    · next hp =>
      rw [hp] at htext
      exact htext
    · next hp =>
      rw [hp] at htext
      have hrest := (ih _).trans htext
      split
      all_goals
        next hs =>
          rw [hs] at hrest
          exact hrest

theorem snapshot_spawned (hosted : HostedSession) (os : Os) : (hosted.snapshot os).2.spawned = os.spawned := by
  have hpanes := hosted.snapshotPanes_spawned (6500 / max hosted.layout.length 1) hosted.layout os
  unfold HostedSession.snapshot
  simp only
  split
  all_goals
    next hs =>
      rw [hs] at hpanes
      exact hpanes

theorem thenSnapshot_inv {reply : Except ServiceError Response} {hosted₁ : HostedSession} {os₁ : Os}
    (h : thenSnapshot (result, hosted₁, os₁) = (reply, hosted', os')) : hosted₁ = hosted' ∧ os'.spawned = os₁.spawned := by
  cases result with
  | error error =>
    cases h
    exact ⟨rfl, rfl⟩
  | ok =>
    have hspawned := hosted₁.snapshot_spawned os₁
    cases h
    exact ⟨rfl, hspawned⟩

theorem grown_resize {cols rows : UInt16} (hr : hosted.resize cols rows os = (result, hosted', os')) :
    Grown hosted.panes os hosted'.panes os' := by
  obtain ⟨outcome, panes, rfl, hres, -⟩ := resize_inv hr
  exact .resize hres

theorem grown_split {direction : SplitDirection} (hs : hosted.split direction os = some (result, hosted', os')) :
    Grown hosted.panes os hosted'.panes os' := by
  rcases split_inv hs with ⟨id, candidate, -, ⟨error, hrec, -, rfl⟩ | ⟨removed, panes, os₁, hrec, hres⟩⟩
  · exact .of_le (reconcile_spawned hrec)
  · exact (Grown.reconcile hrec).trans (grown_resize hres)

theorem grown_close (hc : hosted.close os = some (result, hosted', os')) : Grown hosted.panes os hosted'.panes os' := by
  rcases close_inv hc with ⟨-, -, rfl, -, rfl⟩ | ⟨session, outcome, panes, os₁, -, hrec, rfl, hend⟩
  · exact .of_le le_rfl
  · rcases hend with ⟨_, -, -, rfl⟩ | ⟨removed, ended, -, hend, -⟩
    · exact .reconcile hrec
    · have hgrown := (Grown.reconcile hrec).terminate removed
      rwa [hend] at hgrown

theorem grown_command {code : UInt8} (hc : hosted.command code os = some (result, hosted', os')) :
    Grown hosted.panes os hosted'.panes os' := by
  unfold HostedSession.command at hc
  split at hc
  · exact grown_split hc
  · exact grown_split hc
  · obtain ⟨session, -, hc⟩ := Option.bind_eq_some_iff.mp hc
    cases hc
    exact .of_le le_rfl
  · exact grown_close hc
  · cases hc
    exact .of_le le_rfl

/-- An input goes to the shell with the focus, as far as it is taken. -/
theorem input_exact (h : Follows (hosted, os)) (bytes : List UInt8) : ∃ runtime,
    hosted.panes.get hosted.session.focused = some runtime ∧
    (hosted.input bytes os).2.1 = { hosted with
      panes := hosted.panes.set hosted.session.focused { runtime with written := runtime.written ++ os.taken bytes } } ∧
    (hosted.input bytes os).2.2 = os.attempt.2 ∧ ((hosted.input bytes os).1 = .ok () → os.taken bytes = bytes) := by
  obtain ⟨runtime, hget⟩ := Option.isSome_iff_exists.mp ((h.tended.owned _).mpr h.tended.wf.focused)
  refine ⟨runtime, hget, ?_⟩
  rcases ha : os.attempt with ⟨_ | fault, os₁⟩
  · simp [HostedSession.input, hget, LivePty.write, Os.taken, ha]
  · simp [HostedSession.input, hget, LivePty.write, Os.taken, ha]

/-- What a request other than an input does to the shells. -/
theorem grown_respond {request : Request} {reply : Except ServiceError Response}
    (hr : hosted.respond request os = some (reply, hosted', os')) (hi : ∀ bytes, request ≠ .input bytes) :
    Grown hosted.panes os hosted'.panes os' := by
  cases request with
  | snapshot =>
    cases hr
    exact .of_le (hosted.snapshot_spawned os).ge
  | input bytes => exact absurd rfl (hi bytes)
  | resize cols rows =>
    rcases hres : hosted.resize cols rows os with ⟨result, hosted₁, os₁⟩
    rw [HostedSession.respond, hres] at hr
    obtain ⟨rfl, hspawned⟩ := thenSnapshot_inv (Option.some.inj hr)
    exact (grown_resize hres).trans (.of_le hspawned.ge)
  | command code =>
    obtain ⟨⟨result, hosted₁, os₁⟩, hc, he⟩ := Option.map_eq_some_iff.mp hr
    obtain ⟨rfl, hspawned⟩ := thenSnapshot_inv he
    exact (grown_command hc).trans (.of_le hspawned.ge)
  | create | list | attach | detach | ping =>
    cases hr
    exact .of_le le_rfl

theorem Follows.respond {request : Request} {reply : Except ServiceError Response} (h : Follows (hosted, os))
    (hr : hosted.respond request os = some (reply, hosted', os')) : Follows (hosted', os') := by
  cases request with
  | snapshot =>
    cases hr
    exact Tracked.later h (hosted.snapshot_spawned os).ge
  | input bytes =>
    obtain ⟨runtime, hget, hhosted, hos, -⟩ := input_exact h bytes
    rcases hi : hosted.input bytes os with ⟨result, hosted₁, os₁⟩
    rw [hi] at hhosted hos
    rw [HostedSession.respond, hi] at hr
    obtain ⟨rfl, hspawned⟩ := thenSnapshot_inv (Option.some.inj hr)
    obtain rfl : hosted₁ = _ := hhosted
    obtain rfl : os₁ = _ := hos
    exact (Tracked.write h hget (os.taken bytes)).later (by rw [hspawned, os.attempt_spawned])
  | resize cols rows =>
    rcases hres : hosted.resize cols rows os with ⟨result, hosted₁, os₁⟩
    rw [HostedSession.respond, hres] at hr
    obtain ⟨rfl, hspawned⟩ := thenSnapshot_inv (Option.some.inj hr)
    exact Tracked.later (h.resize hres).1 hspawned.ge
  | command code =>
    obtain ⟨⟨result, hosted₁, os₁⟩, hc, he⟩ := Option.map_eq_some_iff.mp hr
    obtain ⟨rfl, hspawned⟩ := thenSnapshot_inv he
    have hoperate : HostedSession.operate (hosted, os) (.command code) = some (result, hosted₁, os₁) := hc
    have operated := (Follows.operate h hoperate).1
    exact operated.later hspawned.ge
  | create | list | attach | detach | ping =>
    cases hr
    exact h

end HostedSession

/-! ### All sessions -/

/-- Each session has its own shells, which have been sent their bytes. -/
structure Sessions.Posted (sent : Received) (sessions : Sessions) (os : Os) : Prop where
  follows : ∀ (key : String) (hosted : HostedSession), sessions[key]? = some hosted → HostedSession.Follows (hosted, os)
  held : ∀ (key : String) (hosted : HostedSession), sessions[key]? = some hosted → sent.Held hosted.panes os
  fresh : ∀ shell, os.spawned ≤ shell → sent shell = []
  apart : ∀ (key key' : String) (hosted hosted' : HostedSession) pane pane' runtime runtime', sessions[key]? = some hosted →
    sessions[key']? = some hosted' → hosted.panes.get pane = some runtime → hosted'.panes.get pane' = some runtime' →
    runtime.child = runtime'.child → key = key'

namespace Sessions.Posted

variable {sent : Received} {sessions : Sessions} {key : String} {hosted hosted' : HostedSession}

theorem insert_cases {other : String} {found : HostedSession} (h : (sessions.insert key hosted)[other]? = some found) :
    other = key ∧ found = hosted ∨ other ≠ key ∧ sessions[other]? = some found := by
  rw [ExtTreeMap.getElem?_insert] at h
  split at h
  · next he => exact Or.inl ⟨(LawfulEqOrd.eq_of_compare he).symm, (Option.some.inj h).symm⟩
  · next hne =>
    refine Or.inr ⟨fun he => hne ?_, h⟩
    rw [he]
    exact ReflCmp.compare_self

theorem later (h : Posted sent sessions os) (hle : os.spawned ≤ os'.spawned) : Posted sent sessions os' :=
  ⟨fun key hosted hget => Tracked.later (h.follows key hosted hget) hle,
    fun key hosted hget => (h.held key hosted hget).grown (.of_le hle), fun shell hs => h.fresh shell (hle.trans hs), h.apart⟩

/-- A session is put in place of one whose shells it has, apart from new ones, or of none. -/
theorem insert (h : Posted sent sessions os) {panes : PaneRegistry LivePty}
    (hbefore : ∀ pane runtime, panes.get pane = some runtime → ∃ before, sessions[key]? = some before ∧
      before.panes.get pane = some runtime) (hg : Grown panes os hosted'.panes os')
    (hf : HostedSession.Follows (hosted', os')) : Posted sent (sessions.insert key hosted') os' := by
  have foreign : ∀ other hosted pane pane' runtime runtime', other ≠ key → sessions[other]? = some hosted →
      hosted.panes.get pane = some runtime → hosted'.panes.get pane' = some runtime' → runtime.child ≠ runtime'.child := by
    intro other hosted pane pane' runtime runtime' hne hget hpane hpane' he
    rcases hg.kept pane' runtime' hpane' with ⟨before, hkept, hchild, -⟩ | ⟨hnew, -⟩
    · obtain ⟨session, hsession, hold⟩ := hbefore pane' before hkept
      exact hne (h.apart other key hosted session pane pane' runtime before hget hsession hpane hold (he.trans hchild.symm))
    · exact ((h.follows other hosted hget).numbered.started pane runtime hpane).not_ge (he ▸ hnew)
  have held : sent.Held hosted'.panes os' := by
    refine Received.Held.grown ⟨fun pane runtime hget => ?_, h.fresh⟩ hg
    obtain ⟨before, hsession, hold⟩ := hbefore pane runtime hget
    exact (h.held key before hsession).written pane runtime hold
  refine ⟨fun other hosted hget => ?_, fun other hosted hget => ?_, fun shell hs => h.fresh shell (hg.spawned.trans hs),
    fun key₁ key₂ hosted₁ hosted₂ pane₁ pane₂ runtime₁ runtime₂ hget₁ hget₂ hpane₁ hpane₂ he => ?_⟩
  · rcases insert_cases hget with ⟨-, rfl⟩ | ⟨-, hold⟩
    · exact hf
    · exact Tracked.later (h.follows other hosted hold) hg.spawned
  · rcases insert_cases hget with ⟨-, rfl⟩ | ⟨-, hold⟩
    · exact held
    · exact (h.held other hosted hold).grown (.of_le hg.spawned)
  · rcases insert_cases hget₁ with ⟨rfl, rfl⟩ | ⟨hne₁, hold₁⟩
    · rcases insert_cases hget₂ with ⟨rfl, -⟩ | ⟨hne₂, hold₂⟩
      · rfl
      · exact absurd he.symm (foreign key₂ hosted₂ pane₂ pane₁ runtime₂ runtime₁ hne₂ hold₂ hpane₂ hpane₁)
    · rcases insert_cases hget₂ with ⟨rfl, rfl⟩ | ⟨-, hold₂⟩
      · exact absurd he (foreign key₁ hosted₁ pane₁ pane₂ runtime₁ runtime₂ hne₁ hold₁ hpane₁ hpane₂)
      · exact h.apart key₁ key₂ hosted₁ hosted₂ pane₁ pane₂ runtime₁ runtime₂ hold₁ hold₂ hpane₁ hpane₂ he

/-- Bytes that are written to the shell of a pane. -/
theorem write (h : Posted sent sessions os) (hget : sessions[key]? = some hosted) {pane : PaneId} {runtime : LivePty}
    (hpane : hosted.panes.get pane = some runtime) (bytes : List UInt8) :
    Posted (sent.post runtime.child bytes) (sessions.insert key { hosted with
      panes := hosted.panes.set pane { runtime with written := runtime.written ++ bytes } }) os := by
  have follows := h.follows key hosted hget
  -- Every shell was there before with its number, only the written bytes differ.
  have before : ∀ {other : String} {found : HostedSession} {pane' : PaneId} {runtime' : LivePty},
      (sessions.insert key { hosted with
        panes := hosted.panes.set pane { runtime with written := runtime.written ++ bytes } })[other]? = some found →
      found.panes.get pane' = some runtime' → ∃ old kept, sessions[other]? = some old ∧ old.panes.get pane' = some kept ∧
        kept.child = runtime'.child := by
    intro other found pane' runtime' hfound hpane'
    rcases insert_cases hfound with ⟨rfl, rfl⟩ | ⟨-, hold⟩
    · refine ⟨hosted, ?_⟩
      simp only [PaneRegistry.get_set] at hpane'
      split at hpane'
      · next he =>
        obtain rfl := Option.some.inj hpane'
        exact ⟨runtime, hget, he ▸ hpane, rfl⟩
      · exact ⟨runtime', hget, hpane', rfl⟩
    · exact ⟨found, runtime', hold, hpane', rfl⟩
  have fresh : ∀ shell, os.spawned ≤ shell → sent.post runtime.child bytes shell = [] := fun shell hs => by
    have hne : shell ≠ runtime.child := fun he => (follows.numbered.started pane runtime hpane).not_ge (he ▸ hs)
    rw [Received.post_of_ne hne]
    exact h.fresh shell hs
  refine ⟨fun other found hfound => ?_, fun other found hfound => ?_, fresh,
    fun key₁ key₂ hosted₁ hosted₂ pane₁ pane₂ runtime₁ runtime₂ hget₁ hget₂ hpane₁ hpane₂ he => ?_⟩
  · rcases insert_cases hfound with ⟨-, rfl⟩ | ⟨-, hold⟩
    · exact Tracked.write follows hpane bytes
    · exact h.follows other found hold
  · rcases insert_cases hfound with ⟨-, rfl⟩ | ⟨hne, hold⟩
    · exact (h.held key hosted hget).write follows.numbered hpane bytes
    -- Shells of another session have other numbers, so nothing is posted to them.
    · refine ⟨fun pane' runtime' hpane' => ?_, fresh⟩
      rw [Received.post_of_ne fun he => hne (h.apart other key found hosted pane' pane runtime' runtime hold hget hpane' hpane he)]
      exact (h.held other found hold).written pane' runtime' hpane'
  · obtain ⟨old₁, kept₁, hold₁, hkept₁, hchild₁⟩ := before hget₁ hpane₁
    obtain ⟨old₂, kept₂, hold₂, hkept₂, hchild₂⟩ := before hget₂ hpane₂
    exact h.apart key₁ key₂ old₁ old₂ pane₁ pane₂ kept₁ kept₂ hold₁ hold₂ hkept₁ hkept₂ (by rw [hchild₁, hchild₂, he])

/-- An input sends what is taken of it to the shell with the focus, and all of it if it is answered. -/
theorem input (h : Posted sent sessions os) (hget : sessions[key]? = some hosted) {bytes : List UInt8}
    {reply : Except ServiceError Response} (hr : hosted.respond (.input bytes) os = some (reply, hosted', os')) :
    ∃ shell, hosted.shell = some shell ∧ Posted (sent.post shell (os.taken bytes)) (sessions.insert key hosted') os' ∧
      ∀ response, reply = .ok response → os.taken bytes = bytes := by
  obtain ⟨runtime, hpane, hhosted, hos, hok⟩ := HostedSession.input_exact (h.follows key hosted hget) bytes
  rcases hi : hosted.input bytes os with ⟨result, hosted₁, os₁⟩
  rw [hi] at hhosted hos hok
  rw [HostedSession.respond, hi] at hr
  obtain ⟨rfl, hspawned⟩ := HostedSession.thenSnapshot_inv (Option.some.inj hr)
  obtain rfl : hosted₁ = _ := hhosted
  obtain rfl : os₁ = _ := hos
  refine ⟨runtime.child, by rw [HostedSession.shell, hpane]; rfl, ?_, fun response he => hok ?_⟩
  · exact (h.write hget hpane (os.taken bytes)).later (by rw [hspawned, os.attempt_spawned])
  · cases result with
    | ok => rfl
    | error error =>
      cases hr
      cases he

/-- Any other request sends nothing. -/
theorem respond (h : Posted sent sessions os) (hget : sessions[key]? = some hosted) {request : Request}
    (hi : ∀ bytes, request ≠ .input bytes) {reply : Except ServiceError Response}
    (hr : hosted.respond request os = some (reply, hosted', os')) : Posted sent (sessions.insert key hosted') os' :=
  h.insert (fun _ _ hpane => ⟨hosted, hget, hpane⟩) (HostedSession.grown_respond hr hi)
    (HostedSession.Follows.respond (h.follows key hosted hget) hr)

theorem reserve (h : Posted sent sessions os) (hget : sessions[key]? = some hosted) (attached : Bool) :
    Posted sent (sessions.insert key { hosted with attached }) os :=
  h.insert (fun _ _ hpane => ⟨hosted, hget, hpane⟩) (.of_le le_rfl) (h.follows key hosted hget)

theorem create (h : Posted sent sessions os) {name : SessionName}
    (hc : HostedSession.create name os = (.ok hosted, os')) : Posted sent (sessions.insert name.asStr hosted) os' := by
  have follows := HostedSession.Follows.create hc
  obtain ⟨removed, panes, hr, rfl⟩ := HostedSession.create_inv hc
  refine h.insert (fun pane runtime hpane => ?_) (.reconcile hr) follows
  simp [PaneRegistry.new, PaneRegistry.get] at hpane

theorem dispatch (h : Posted sent sessions os) (request : Request) :
    Posted sent (NovaMux.dispatch sessions request os).2.1 (NovaMux.dispatch sessions request os).2.2 := by
  cases request with
  | create name =>
    simp only [NovaMux.dispatch]
    split
    · exact h
    · split
      · exact h
      · split
        · next hc => exact h.create hc
        · next hc =>
          refine h.later ?_
          simp only [HostedSession.create] at hc
          split at hc
          · next hr =>
            cases hc
            exact reconcile_spawned hr
          · cases hc
  | list | attach | detach | ping | input | resize | command | snapshot => exact h

end Sessions.Posted

/-! ### Runs of the daemon -/

namespace Daemon

variable {s t : Daemon} {a : Action} {as : List Action} {sent : Received}

/-- What a step sends, and to which shell. -/
def delivery (s : Daemon) : Action → List (Option Nat × List UInt8)
  | .enter c =>
    match s.phaseOf c with
    | some (.serving name (.input bytes)) =>
      match s.sessions[name.asStr]? with
      | some hosted => [(hosted.shell, s.os.taken bytes)]
      | none => []
    | _ => []
  | _ => []

/-- The deliveries of a run, in the order in which the sessions were locked. -/
def ledger (s : Daemon) (as : List Action) : List (Option Nat × List UInt8) := history step delivery s as

/-- An input that a thread serves goes to the shell with the focus of its session, and whole if it is answered. -/
def Delivers (s : Daemon) (a : Action) : Prop := ∀ c name bytes hosted t, a = .enter c →
  s.phaseOf c = some (.serving name (.input bytes)) → s.sessions[name.asStr]? = some hosted → s.step a = some t →
  ∃ shell taken, hosted.shell = some shell ∧ s.delivery a = [(some shell, taken)] ∧ taken <+: bytes ∧
    ∀ response, t.phaseOf c = some (.responding name response) → taken = bytes

/-- Only a thread that locks the sessions uses the system. -/
theorem step_os (h : s.step a = some t) (ha : ∀ c, a ≠ .enter c) : t.os = s.os ∧ t.sessions = s.sessions ∧ s.delivery a = [] := by
  cases a with
  | accept c =>
    obtain ⟨-, rfl⟩ := accept_inv h
    exact ⟨rfl, rfl, rfl⟩
  | send c request =>
    obtain ⟨conn, -, rfl⟩ := send_inv h
    exact ⟨rfl, rfl, rfl⟩
  | read c ok =>
    cases ok with
    | true =>
      obtain ⟨conn, request, inbox, phase, -, -, -, rfl⟩ := read_inv h
      exact ⟨rfl, rfl, rfl⟩
    | false =>
      obtain ⟨conn, phase, -, -, rfl⟩ := failedRead_inv h
      exact ⟨rfl, rfl, rfl⟩
  | enter c => exact absurd rfl (ha c)
  | write c ok =>
    cases ok with
    | true =>
      obtain ⟨conn, response, bytes, -, -, -, rfl⟩ := write_inv h
      exact ⟨rfl, rfl, rfl⟩
    | false =>
      obtain ⟨conn, response, -, -, rfl⟩ := failedWrite_inv h
      exact ⟨rfl, rfl, rfl⟩

/-- What becomes of the sessions, by what a step sends. -/
def Sends (sent : Received) (ledger : List (Option Nat × List UInt8)) (sessions : Sessions) (os : Os) : Prop :=
  ledger = [] ∧ Sessions.Posted sent sessions os ∨
    ∃ shell bytes, ledger = [(some shell, bytes)] ∧ Sessions.Posted (sent.post shell bytes) sessions os

theorem delivery_of_phase {c : ConnId} {before : Phase} (hp : s.phaseOf c = some before)
    (hb : ∀ name bytes, before ≠ .serving name (.input bytes)) : s.delivery (.enter c) = [] := by
  simp only [delivery, hp]
  split
  · next name bytes he => exact absurd (Option.some.inj he) (hb name bytes)
  · rfl

theorem posted_entered (h : Sessions.Posted sent s.sessions s.os) {c : ConnId} {before phase : Phase} {sessions : Sessions}
    (hp : s.phaseOf c = some before) (he : Entered s before phase sessions os) :
    Sends sent (s.delivery (.enter c)) sessions os := by
  cases he with
  | dispatched request => exact Or.inl ⟨delivery_of_phase hp (by simp), h.dispatch request⟩
  | unknown | refused | detached | gone => exact Or.inl ⟨delivery_of_phase hp (by simp), h⟩
  | attached hs => exact Or.inl ⟨delivery_of_phase hp (by simp), h.reserve hs true⟩
  | released hs => exact Or.inl ⟨delivery_of_phase hp (by simp), h.reserve hs false⟩
  | disappeared request hs =>
    refine Or.inl ⟨?_, h⟩
    simp only [delivery, hp]
    split
    · next heq =>
      cases heq
      rw [hs]
    · rfl
  | @answered name request hosted hosted' reply phase os hs hd hr =>
    by_cases hi : ∃ bytes, request = .input bytes
    · obtain ⟨bytes, rfl⟩ := hi
      obtain ⟨shell, hshell, hposted, -⟩ := h.input hs hr
      exact Or.inr ⟨shell, s.os.taken bytes, by simp [delivery, hp, hs, hshell], hposted⟩
    · have hother : ∀ bytes, request ≠ .input bytes := fun bytes hb => hi ⟨bytes, hb⟩
      refine Or.inl ⟨delivery_of_phase hp fun other bytes hb => ?_, h.respond hs hother hr⟩
      cases hb
      exact hi ⟨bytes, rfl⟩

theorem posted_step (h : Sessions.Posted sent s.sessions s.os) (hs : s.step a = some t) :
    Sends sent (s.delivery a) t.sessions t.os := by
  by_cases ha : ∃ c, a = .enter c
  · obtain ⟨c, rfl⟩ := ha
    obtain ⟨conn, phase, sessions, os, hc, -, hcr, rfl⟩ := enter_inv hs
    exact posted_entered h (phaseOf_eq hc) (critical_inv hcr)
  · obtain ⟨hos, hsessions, hnone⟩ := step_os hs fun c he => ha ⟨c, he⟩
    refine Or.inl ⟨hnone, ?_⟩
    rw [hos, hsessions]
    exact h

theorem delivers_step (h : Sessions.Posted sent s.sessions s.os) (a : Action) : s.Delivers a := by
  intro c name bytes hosted t ha hp hget hs
  subst ha
  obtain ⟨conn, phase, sessions, os, hc, -, hcr, rfl⟩ := enter_inv hs
  have hphase : conn.phase = .serving name (.input bytes) := Option.some.inj ((phaseOf_eq hc).symm.trans hp)
  rw [hphase] at hcr
  cases critical_inv hcr with
  | @disappeared _ _ hmissing =>
    rw [hget] at hmissing
    cases hmissing
  | @answered _ _ found hosted' reply _ _ hfound _ hr hnext =>
    obtain rfl : hosted = found := Option.some.inj (hget.symm.trans hfound)
    obtain ⟨shell, hshell, -, hwhole⟩ := h.input hget hr
    refine ⟨shell, s.os.taken bytes, hshell, by simp [delivery, hp, hget, hshell], s.os.taken_prefix bytes, fun response he => ?_⟩
    rcases hnext with ⟨answer, hreply, -⟩ | ⟨error, -, rfl⟩
    · exact hwhole answer hreply
    · simp [phaseOf] at he

/-- What a run sends, over what has been sent before. -/
theorem posted_run (h : Sessions.Posted sent s.sessions s.os) (hr : Machine.run step s as = some t) :
    Sessions.Posted (fun shell => sent shell ++ Received.part (s.ledger as) shell) t.sessions t.os := by
  induction as generalizing s sent with
  | nil =>
    cases hr
    simpa [ledger, history, Received.part] using h
  | cons a as ih =>
    obtain ⟨u, hs, hr⟩ := run_cons_eq_some.mp hr
    have hcons : s.ledger (a :: as) = s.delivery a ++ u.ledger as := history_cons hs
    rcases posted_step h hs with ⟨hnone, hposted⟩ | ⟨shell, bytes, hone, hposted⟩
    · rw [hcons, hnone]
      exact ih hposted hr
    · have hpart : (fun other => sent other ++ Received.part (s.ledger (a :: as)) other) =
          fun other => sent.post shell bytes other ++ Received.part (u.ledger as) other := by
        funext other
        rw [hcons, hone, List.singleton_append, Received.part_cons, Received.post, List.append_assoc]
      rw [hpart]
      exact ih hposted hr

theorem posted_start (os : Os) : Sessions.Posted (fun _ => []) (start os).sessions (start os).os :=
  ⟨fun key hosted hget => by simp [start] at hget, fun key hosted hget => by simp [start] at hget, fun _ _ => rfl,
    fun key key' hosted hosted' pane pane' runtime runtime' hget => by simp [start] at hget⟩

/-- In every run of the daemon, with its connections interleaved and everything failing at any point, the shells of all
    sessions are different from each other, and each has been sent exactly what the inputs served so far have sent to
    it, in the order in which they were served. An input goes to the shell with the focus of its session, whole if it
    is answered and a first part of it otherwise. -/
theorem inputs_reach_shells (hr : Machine.run step (start os) as = some s) :
    (∀ (key : String) (hosted : HostedSession) pane runtime, s.sessions[key]? = some hosted →
      hosted.panes.get pane = some runtime → runtime.written = Received.part ((start os).ledger as) runtime.child) ∧
    (∀ (key key' : String) (hosted hosted' : HostedSession) pane pane' runtime runtime', s.sessions[key]? = some hosted →
      s.sessions[key']? = some hosted' → hosted.panes.get pane = some runtime → hosted'.panes.get pane' = some runtime' →
      runtime.child = runtime'.child → key = key' ∧ pane = pane') ∧
    Along step Delivers (start os) as := by
  have posted := posted_run (posted_start os) hr
  refine ⟨fun key hosted pane runtime hget hpane => by simpa using (posted.held key hosted hget).written pane runtime hpane,
    fun key key' hosted hosted' pane pane' runtime runtime' hget hget' hpane hpane' he => ?_,
    fun pre a post s _ hr => delivers_step (posted_run (posted_start os) hr) a⟩
  obtain rfl := posted.apart key key' hosted hosted' pane pane' runtime runtime' hget hget' hpane hpane' he
  obtain rfl : hosted = hosted' := Option.some.inj (hget.symm.trans hget')
  exact ⟨rfl, (posted.follows key hosted hget).numbered.distinct pane pane' runtime runtime' hpane hpane' he⟩

/-- A client creates a session, and another one attaches to it and sends two bytes. -/
def greeting : List Action :=
  [.accept 0, .send 0 (.create .work), .read 0 true, .enter 0, .accept 1, .send 1 (.attach .work), .read 1 true,
    .write 0 true, .enter 1, .write 1 true, .send 1 (.input ['h'.toUInt8, 'i'.toUInt8]), .read 1 true, .enter 1]

/-- The system takes the first of the bytes only. -/
theorem inputs_reach_shells_cut : ∃ s hosted runtime,
    Machine.run step (start ⟨0, [none, some ⟨"broken pipe", 1⟩], []⟩) greeting = some s ∧
    s.sessions[SessionName.work.asStr]? = some hosted ∧ hosted.panes.get ⟨1⟩ = some runtime ∧
    Received.part ((start ⟨0, [none, some ⟨"broken pipe", 1⟩], []⟩).ledger greeting) runtime.child = ['h'.toUInt8] := by
  obtain ⟨s, hs, hwritten⟩ : ∃ s, Machine.run step (start ⟨0, [none, some ⟨"broken pipe", 1⟩], []⟩) greeting = some s ∧
      (s.sessions[SessionName.work.asStr]?.bind fun hosted => (hosted.panes.get ⟨1⟩).map LivePty.written) =
        some ['h'.toUInt8] := ⟨_, rfl, by decide +kernel⟩
  obtain ⟨hosted, hget, hwritten⟩ := Option.bind_eq_some_iff.mp hwritten
  obtain ⟨runtime, hpane, hwritten⟩ := Option.map_eq_some_iff.mp hwritten
  refine ⟨s, hosted, runtime, hs, hget, hpane, ?_⟩
  rw [← (inputs_reach_shells hs).1 _ hosted _ runtime hget hpane, hwritten]

end Daemon

end NovaMux

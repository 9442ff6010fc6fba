import NovaMux.Theorems.Linearization
import NovaMux.Theorems.Freshness
import NovaMux.Theorems.Store

/-! Sessions apart from each other. As long as the system works, a session is what the requests of its own attachments
    make of a new one, in the order in which they were served, whatever the other connections ask for in between and
    wherever clients fail. -/

namespace NovaMux

open Std

/-! ### One session -/

/-- What a request makes of a session. -/
def Mux.serve (m : Mux) : Request → Option Mux
  | .input bytes => some { m with written := m.written.append m.session.focused bytes }
  | .resize cols rows => some { m with size := HostedSession.clamp (cols, rows) }
  | .command code =>
    match code with
    | 1 => m.perform (.splitFocused .horizontal)
    | 2 => m.perform (.splitFocused .vertical)
    | 3 => m.perform .focusNext
    | 4 => m.perform .closeFocused
    | _ => some m
  | _ => some m

/-- A session as it is created. -/
def Mux.created : Mux := .start App.localSession (80, 24)

namespace HostedSession

variable {hosted hosted' : HostedSession} {os os' : Os} {m : Mux} {request : Request}

theorem Tracks.reliable_os (h : Tracks (hosted, os) m) (h' : os'.Reliable) : Tracks (hosted, os') m :=
  ⟨h.session, h.viewport, h.large, h.written, h.tended, h'⟩

/-- The reservation is not part of what a session is. -/
theorem Tracks.reserved (h : Tracks (hosted, os) m) (attached : Bool) : Tracks ({ hosted with attached }, os) m :=
  ⟨h.session, h.viewport, h.large, h.written, h.tended, h.reliable⟩

theorem Performed.snapshot (h : Performed r m) {reply : Except ServiceError Response}
    (hr : thenSnapshot r = (reply, hosted', os')) : Tracks (hosted', os') m := by
  obtain ⟨result, hosted, os⟩ := r
  obtain ⟨rfl, h'⟩ := thenSnapshot_reliable h.tracks.reliable hr
  exact h.tracks.reliable_os h'

theorem Tracks.resize_clamp (h : Tracks (hosted, os) m) (cols rows : UInt16) :
    Performed (hosted.resize cols rows os) { m with size := clamp (cols, rows) } := by
  have hsame : hosted.resize cols rows os = hosted.resize (max cols 2) (max rows 2) os := by
    simp only [HostedSession.resize, max_two (two_le_max cols), max_two (two_le_max rows)]
  obtain ⟨hosted', os', hresize, htracks⟩ := h.resize (two_le_max cols) (two_le_max rows)
  rw [hsame, hresize]
  exact ⟨rfl, htracks⟩

theorem Tracks.command (h : Tracks (hosted, os) m) {code : UInt8} {result : Except ServiceError Unit}
    (hc : hosted.command code os = some (result, hosted', os')) :
    ∃ m', m.serve (.command code) = some m' ∧ Tracks (hosted', os') m' := by
  have performed : ∀ {op : SessionOp} {x : Option (Except ServiceError Unit × HostedSession × Os)},
      Option.Rel Performed x (m.perform op) → x = some (result, hosted', os') →
        ∃ m', m.perform op = some m' ∧ Tracks (hosted', os') m' := fun hrel hx =>
    let ⟨m', hm', hp⟩ := Machine.rel_some hrel hx
    ⟨m', hm', hp.tracks⟩
  unfold HostedSession.command at hc
  split at hc
  · exact performed (h.split .horizontal) hc
  · exact performed (h.split .vertical) hc
  · exact performed h.focusNext hc
  · exact performed h.close hc
  · cases hc
    refine ⟨m, ?_, h⟩
    simp only [Mux.serve]

theorem Tracks.respond (h : Tracks (hosted, os) m) {reply : Except ServiceError Response}
    (hr : hosted.respond request os = some (reply, hosted', os')) :
    ∃ m', m.serve request = some m' ∧ Tracks (hosted', os') m' := by
  cases request with
  | snapshot =>
    obtain ⟨panes, os₁, hs, h₁, -⟩ := hosted.snapshot_reliable h.reliable
    simp only [HostedSession.respond, hs] at hr
    cases hr
    exact ⟨m, rfl, h.reliable_os h₁⟩
  | input bytes => exact ⟨_, rfl, (h.input bytes).snapshot (Option.some.inj hr)⟩
  | resize cols rows => exact ⟨_, rfl, (h.resize_clamp cols rows).snapshot (Option.some.inj hr)⟩
  | command code =>
    obtain ⟨⟨result, hosted₁, os₁⟩, hc, he⟩ := Option.map_eq_some_iff.mp hr
    obtain ⟨m', hm', htracks⟩ := h.command hc
    obtain ⟨rfl, h'⟩ := thenSnapshot_reliable htracks.reliable he
    exact ⟨m', hm', htracks.reliable_os h'⟩
  | create | list | attach | detach | ping =>
    cases hr
    exact ⟨m, rfl, h⟩

end HostedSession

/-! ### The service -/

theorem Sessions.get_insert (sessions : Sessions) (name other : SessionName) (hosted : HostedSession) :
    (sessions.insert name.asStr hosted)[other.asStr]? = if other = name then some hosted else sessions[other.asStr]? := by
  rw [ExtTreeMap.getElem?_insert]
  by_cases he : other = name
  · rw [if_pos he, if_pos (Std.compare_eq_iff_eq.mpr (congrArg SessionName.asStr he.symm))]
  · rw [if_neg he, if_neg fun hc => he (SessionName.eq_of_asStr (Std.compare_eq_iff_eq.mp hc)).symm]

theorem dispatch_reliable {sessions : Sessions} {request : Request} {os : Os} (h : os.Reliable) :
    (dispatch sessions request os).2.2.Reliable := by
  cases request with
  | create name =>
    simp only [dispatch]
    split
    · exact h
    · split
      · exact h
      · obtain ⟨removed, panes, os', hr, h'⟩ := reconcile_reliable h PaneRegistry.new (Session.new name) (.new 24 80)
        simp only [HostedSession.create, hr]
        exact h'
  | list | attach | detach | ping | input | resize | command | snapshot => exact h

namespace Service

/-- The requests that have been served for a session. -/
def requestsFor (u : Service) (name : SessionName) : List Request :=
  (u.calls.filter fun call => call.standing = .attached name).map Call.request

/-- What a call can do. -/
inductive Attended (sessions : Sessions) (os : Os) : Standing → Request → Standing → Sessions → Os → Prop where
  | dispatched (request : Request) : Attended sessions os .fresh request .closed (dispatch sessions request os).2.1
      (dispatch sessions request os).2.2
  | refused (request : Request) : Attended sessions os .fresh request .closed sessions os
  | attached {name : SessionName} {hosted : HostedSession} (hs : sessions[name.asStr]? = some hosted) :
      Attended sessions os .fresh (.attach name) (.attached name)
        (sessions.insert name.asStr { hosted with attached := true }) os
  | disappeared {name : SessionName} (request : Request) (hs : sessions[name.asStr]? = none) :
      Attended sessions os (.attached name) request (.leaving name) sessions os
  | detached (name : SessionName) :
      Attended sessions os (.attached name) (.detach name) (.leaving name) sessions os
  | answered {name : SessionName} {request : Request} {hosted hosted' : HostedSession}
      {reply : Except ServiceError Response} {standing : Standing} {os' : Os} (hs : sessions[name.asStr]? = some hosted)
      (hr : hosted.respond request os = some (reply, hosted', os'))
      (hstanding : standing = .attached name ∨ standing = .leaving name) :
      Attended sessions os (.attached name) request standing (sessions.insert name.asStr hosted') os'

theorem attend_inv {sessions sessions' : Sessions} {os os' : Os} {standing standing' : Standing} {request : Request}
    {answer : Option Response} (h : attend sessions os standing request = some (answer, standing', sessions', os')) :
    Attended sessions os standing request standing' sessions' os' := by
  cases standing with
  | fresh =>
    cases request with
    | attach name =>
      simp only [attend] at h
      split at h
      · cases h
        exact .refused _
      · next hosted hs =>
        split at h
        · cases h
          exact .refused _
        · cases h
          exact .attached hs
    | list | create | detach | ping | input | resize | command | snapshot =>
      cases h
      exact .dispatched _
  | attached name =>
    simp only [attend] at h
    split at h
    · next hs =>
      cases h
      exact .disappeared request hs
    · next hosted hs =>
      split at h
      · next hd =>
        cases h
        rw [hd]
        exact .detached name
      · obtain ⟨⟨reply, hosted', os₁⟩, hr, h⟩ := Option.bind_eq_some_iff.mp h
        cases reply with
        | ok response =>
          cases h
          exact .answered hs hr (Or.inl rfl)
        | error error =>
          cases h
          exact .answered hs hr (Or.inr rfl)
  | leaving | closed => cases h

/-- What there is of a session is what its requests have made of a new one; without the session there are none. -/
def Known (u : Service) (name : SessionName) : Option HostedSession → Prop
  | none => u.requestsFor name = [] ∧ ∀ c, u.standing c ≠ .attached name
  | some hosted => ∃ m, Machine.run Mux.serve .created (u.requestsFor name) = some m ∧ HostedSession.Tracks (hosted, u.os) m

structure Apart (u : Service) : Prop where
  reliable : u.os.Reliable
  known : ∀ name : SessionName, u.Known name u.sessions[name.asStr]?

variable {u u' : Service} {name : SessionName} {entry : Option HostedSession} {c : ConnId}

theorem Known.carry (h : u.Known name entry) (hrequests : u'.requestsFor name = u.requestsFor name)
    (hos : u'.os.Reliable)
    (hattached : ∀ c, u'.standing c = .attached name → u.standing c = .attached name ∨ entry.isSome) :
    u'.Known name entry := by
  cases entry with
  | none =>
    refine ⟨hrequests.trans h.1, fun c hc => ?_⟩
    rcases hattached c hc with hin | hsome
    · exact h.2 c hin
    · cases hsome
  | some hosted =>
    obtain ⟨m, hm, htracks⟩ := h
    exact ⟨m, hrequests ▸ hm, htracks.reliable_os hos⟩

/-- The reservation of a session changes. -/
theorem Known.reserve {hosted : HostedSession} (h : u.Known name (some hosted))
    (hrequests : u'.requestsFor name = u.requestsFor name) (hos : u'.os.Reliable) (attached : Bool) :
    u'.Known name (some { hosted with attached }) := by
  obtain ⟨m, hm, htracks⟩ := h
  exact ⟨m, hrequests ▸ hm, (htracks.reserved attached).reliable_os hos⟩

theorem setStanding_attached {standing : Standing} (hstanding : standing ≠ .attached name)
    {d : ConnId} (h : (u.setStanding c standing).standing d = .attached name) : u.standing d = .attached name := by
  by_cases hd : d = c
  · simp [setStanding, hd, hstanding] at h
  · simpa [setStanding, hd] using h

theorem Apart.setStanding {standing : Standing} (h : u.Apart) (hstanding : ∀ name, standing ≠ .attached name) :
    (u.setStanding c standing).Apart :=
  ⟨h.reliable, fun name => (h.known name).carry rfl h.reliable fun _ hd => Or.inl (setStanding_attached (hstanding name) hd)⟩

theorem Apart.hangup (h : u.Apart) (hs : u.step (.hangup c) = some u') : u'.Apart := by
  simp only [step] at hs
  split at hs
  · cases hs
    exact h.setStanding (by simp)
  · cases hs
    exact h.setStanding (by simp)
  · cases hs
  · cases hs

theorem Apart.forget (h : u.Apart) (hs : u.step (.forget c) = some u') : u'.Apart := by
  simp only [step] at hs
  split at hs
  · cases hs
    exact h.setStanding (by simp)
  · cases hs
  · cases hs
  · cases hs

theorem Apart.release (h : u.Apart) (hs : u.step (.release c) = some u') : u'.Apart := by
  simp only [step] at hs
  split at hs
  · next name _ =>
    have hgone : (u.setStanding c .closed).Apart := h.setStanding (by simp)
    cases hsession : u.sessions[name.asStr]? with
    | none =>
      rw [hsession] at hs
      cases hs
      exact hgone
    | some hosted =>
      rw [hsession] at hs
      cases hs
      refine ⟨h.reliable, fun other => ?_⟩
      have hother := hgone.known other
      show Known _ other (u.sessions.insert name.asStr { hosted with attached := false })[other.asStr]?
      rw [Sessions.get_insert]
      by_cases he : other = name
      · subst he
        have hknown : Known (u.setStanding c .closed) other (some hosted) := hsession ▸ hother
        rw [if_pos rfl]
        exact hknown.reserve rfl h.reliable false
      · rw [if_neg he]
        exact hother.carry rfl h.reliable fun _ => Or.inl
  · cases hs
  · cases hs
  · cases hs

theorem requestsFor_snoc (u : Service) (name : SessionName) (call : Call) :
    { u with calls := u.calls ++ [call] }.requestsFor name =
      u.requestsFor name ++ if call.standing = .attached name then [call.request] else [] := by
  by_cases h : call.standing = .attached name <;> simp [requestsFor, h]

theorem known_created {name : SessionName} {hosted : HostedSession} {os os' : Os}
    (hc : HostedSession.create name os = (.ok hosted, os')) (hu : u.os.Reliable) (hnone : u.requestsFor name = []) :
    u.Known name (some hosted) := by
  obtain ⟨-, panes, -, rfl⟩ := HostedSession.create_inv hc
  have hcreated := HostedSession.Tracks.create hc hu App.localSession rfl
  refine ⟨.created, by rw [hnone]; rfl, ?_⟩
  exact hcreated.reserved false

/-- A served request takes a session on. -/
theorem Known.serve {hosted hosted' : HostedSession} {request : Request} (h : u.Known name (some hosted))
    (hrequests : u'.requestsFor name = u.requestsFor name ++ [request])
    (hserve : ∀ m, HostedSession.Tracks (hosted, u.os) m →
      ∃ m', m.serve request = some m' ∧ HostedSession.Tracks (hosted', u'.os) m') :
    u'.Known name (some hosted') := by
  obtain ⟨m, hm, htracks⟩ := h
  obtain ⟨m', hm', htracks'⟩ := hserve m htracks
  exact ⟨m', hrequests ▸ Machine.run_append_eq_some.mpr ⟨m, hm, Machine.run_singleton.trans hm'⟩, htracks'⟩

theorem Apart.attend_reliable {request : Request} {answer : Option Response} {before standing : Standing}
    {sessions : Sessions} {os : Os} (h : u.Apart)
    (ha : attend u.sessions u.os before request = some (answer, standing, sessions, os)) : os.Reliable := by
  cases attend_inv ha with
  | dispatched => exact dispatch_reliable h.reliable
  | refused | attached | disappeared | detached => exact h.reliable
  | @answered name _ hosted _ _ _ _ hsession hr _ =>
    have hknown : u.Known name (some hosted) := hsession ▸ h.known name
    obtain ⟨m, -, htracks⟩ := hknown
    obtain ⟨m', -, htracks'⟩ := htracks.respond hr
    exact htracks'.reliable

theorem Apart.call {request : Request} (h : u.Apart) (hs : u.step (.call c request) = some u') : u'.Apart := by
  obtain ⟨⟨answer, standing, sessions, os⟩, hattend, hs⟩ := Option.bind_eq_some_iff.mp hs
  have hreliable := h.attend_reliable hattend
  obtain ⟨before, hbefore⟩ : ∃ before, u.standing c = before := ⟨_, rfl⟩
  have hsessions : u'.sessions = sessions := by cases hs; rfl
  have hos : u'.os = os := by cases hs; rfl
  -- Only the session to which the connection is attached is served one more request.
  have hrequests : ∀ name, u'.requestsFor name =
      u.requestsFor name ++ if before = .attached name then [request] else [] := fun name => by
    cases hs
    rw [← hbefore]
    exact requestsFor_snoc u name _
  have hstandings : u'.standing = (u.setStanding c standing).standing := by cases hs; rfl
  have hattached : ∀ {name : SessionName}, standing ≠ .attached name → ∀ d, u'.standing d = .attached name →
      u.standing d = .attached name := fun hne d hd => setStanding_attached hne (hstandings ▸ hd)
  have hfresh : before = .fresh → ∀ name, u'.requestsFor name = u.requestsFor name := fun he name => by
    rw [hrequests, he]
    exact List.append_nil _
  have hother : ∀ {name other : SessionName}, before = .attached name → other ≠ name →
      u'.requestsFor other = u.requestsFor other := fun {name other} he hne => by
    rw [hrequests, if_neg, List.append_nil]
    rw [he]
    exact fun hsame => hne (Standing.attached.inj hsame).symm
  rw [hbefore] at hattend
  rw [← hos] at hreliable
  refine ⟨hreliable, fun other => ?_⟩
  rw [hsessions]
  -- The other sessions are carried over; each case says what becomes of the one concerned.
  cases attend_inv hattend with
  | dispatched request =>
    have hkept : ∀ {entry}, u.Known other entry → u'.Known other entry := fun hentry =>
      hentry.carry (hfresh rfl other) hreliable fun d hd => Or.inl (hattached nofun d hd)
    rcases dispatch_sessions u.sessions request u.os with hsame | ⟨name, hosted, os', hnone, hcreate, hinsert⟩
    · rw [hsame]
      exact hkept (h.known other)
    · rw [hinsert, Sessions.get_insert]
      by_cases he : other = name
      · subst he
        have hunserved : u.Known other none := hnone ▸ h.known other
        rw [if_pos rfl]
        exact known_created hcreate hreliable ((hfresh rfl other).trans hunserved.1)
      · rw [if_neg he]
        exact hkept (h.known other)
  | refused request =>
    exact (h.known other).carry (hfresh rfl other) hreliable fun d hd => Or.inl (hattached nofun d hd)
  | @attached name hosted hsession =>
    rw [Sessions.get_insert]
    by_cases he : other = name
    · subst he
      have hknown : u.Known other (some hosted) := hsession ▸ h.known other
      rw [if_pos rfl]
      exact hknown.reserve (hfresh rfl other) hreliable true
    · rw [if_neg he]
      refine (h.known other).carry (hfresh rfl other) hreliable fun d hd => Or.inl (hattached (fun hsame => ?_) d hd)
      exact he (Standing.attached.inj hsame).symm
  | @disappeared name request hsession =>
    have hunserved : u.Known name none := hsession ▸ h.known name
    -- An attached session does not disappear.
    exact absurd hbefore (hunserved.2 c)
  | detached name =>
    by_cases he : other = name
    · subst he
      cases hsession : u.sessions[other.asStr]? with
      | none =>
        have hunserved : u.Known other none := hsession ▸ h.known other
        exact absurd hbefore (hunserved.2 c)
      | some hosted =>
        have hknown : u.Known other (some hosted) := hsession ▸ h.known other
        have hgrown := hrequests other
        rw [if_pos rfl] at hgrown
        exact hknown.serve hgrown fun m htracks => ⟨m, rfl, htracks.reliable_os hreliable⟩
    · exact (h.known other).carry (hother rfl he) hreliable fun d hd => Or.inl (hattached nofun d hd)
  | @answered name _ hosted hosted' _ _ _ hsession hr hstanding =>
    rw [Sessions.get_insert]
    by_cases he : other = name
    · subst he
      have hknown : u.Known other (some hosted) := hsession ▸ h.known other
      have hgrown := hrequests other
      rw [if_pos rfl] at hgrown
      rw [if_pos rfl]
      exact hknown.serve hgrown fun m htracks => hos ▸ htracks.respond hr
    · rw [if_neg he]
      refine (h.known other).carry (hother rfl he) hreliable fun d hd => Or.inl (hattached (fun hsame => ?_) d hd)
      rcases hstanding with rfl | rfl
      · exact he (Standing.attached.inj hsame).symm
      · cases hsame

theorem Apart.step {op : Op} (h : u.Apart) (hs : u.step op = some u') : u'.Apart := by
  cases op with
  | call c request => exact h.call hs
  | hangup c => exact h.hangup hs
  | forget c => exact h.forget hs
  | release c => exact h.release hs

theorem apart_start {os : Os} (h : os.Reliable) : (start os).Apart :=
  ⟨h, fun name => (ExtTreeMap.getElem?_empty : (∅ : Sessions)[name.asStr]? = none) ▸ ⟨rfl, nofun⟩⟩

end Service

namespace Daemon

/-- On a system that works, in every run of the daemon, each session is what the requests of its own attachments make of
    a new one, in the order in which they were served: its panes and their layout, its viewport and the bytes that each
    of its panes has been sent. -/
theorem sessions_apart {os : Os} (h : os.Reliable) {as : List Action} {s : Daemon}
    (hr : Machine.run step (start os) as = some s) :
    ∃ u, Machine.run Service.step (.start os) (Machine.history step ops (start os) as) = some u ∧
      (∀ c conn, s.conns c = some conn → (u.callsOf c).map Call.request <+: sentBy c as) ∧
      ∀ (name : SessionName) hosted, s.sessions[name.asStr]? = some hosted →
        ∃ m, Machine.run Mux.serve .created (u.requestsFor name) = some m ∧
          hosted.session = m.session.renamed hosted.session.name ∧ hosted.viewport = m.size ∧
          hosted.panes.written = m.written := by
  obtain ⟨u, hu, hlinear⟩ := run_linearized hr
  have hapart : u.Apart :=
    Machine.run_invariant (fun _ _ _ hapart hs => Service.Apart.step hapart hs) (Service.apart_start h) hu
  refine ⟨u, hu, fun c conn hc => ?_, fun name hosted hs => ?_⟩
  · have hasked := (hlinear.served c conn hc).asked
    rw [List.append_assoc] at hasked
    exact ⟨_, hasked⟩
  · rw [← hlinear.sessions] at hs
    have hknown : u.Known name (some hosted) := hs ▸ hapart.known name
    obtain ⟨m, hm, htracks⟩ := hknown
    exact ⟨m, hm, htracks.session, htracks.viewport, htracks.written⟩

/-- A client creates a session, and another one attaches to it and splits its pane. -/
def splitting : List Action :=
  [.accept 0, .send 0 (.create .work), .read 0 true, .enter 0, .accept 1, .send 1 (.attach .work), .read 1 true,
    .write 0 true, .enter 1, .write 1 true, .send 1 (.command 1), .read 1 true, .enter 1]

theorem sessions_apart_splitting : ∃ s u hosted m, Machine.run step (start ⟨0, [], []⟩) splitting = some s ∧
    s.sessions[SessionName.work.asStr]? = some hosted ∧
    Machine.run Mux.serve .created (Service.requestsFor u .work) = some m ∧ hosted.viewport = m.size ∧
    hosted.panes.written = m.written := by
  obtain ⟨s, hs, hpresent⟩ : ∃ s, Machine.run step (start ⟨0, [], []⟩) splitting = some s ∧
      s.sessions[SessionName.work.asStr]?.isSome := ⟨_, rfl, by decide +kernel⟩
  obtain ⟨hosted, hosted_eq⟩ := Option.isSome_iff_exists.mp hpresent
  obtain ⟨u, -, -, hsessions⟩ := sessions_apart (fun _ h => absurd h List.not_mem_nil) hs
  obtain ⟨m, hm, -, hviewport, hwritten⟩ := hsessions .work hosted hosted_eq
  exact ⟨s, u, hosted, m, hs, hosted_eq, hm, hviewport, hwritten⟩

end Daemon

end NovaMux

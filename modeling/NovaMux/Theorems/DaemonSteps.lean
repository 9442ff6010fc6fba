import NovaMux.Runtime.Daemon

/-! What each action of the daemon and its clients needs and does. -/

namespace NovaMux

open Std

/-- A dispatched request leaves the sessions alone or adds one that is new. -/
theorem dispatch_sessions (sessions : Sessions) (request : Request) (os : Os) :
    (dispatch sessions request os).2.1 = sessions ∨
      ∃ name hosted os', sessions[name.asStr]? = none ∧ HostedSession.create name os = (.ok hosted, os') ∧
        (dispatch sessions request os).2.1 = sessions.insert name.asStr hosted := by
  cases request with
  | create name =>
    simp only [dispatch]
    split
    · exact Or.inl rfl
    · next hnew =>
      split
      · exact Or.inl rfl
      · split
        · next hosted os' hc =>
          refine Or.inr ⟨name, hosted, os', ?_, hc, rfl⟩
          exact ExtTreeMap.getElem?_eq_none_of_contains_eq_false (Bool.eq_false_iff.mpr hnew)
        · exact Or.inl rfl
  | list | attach | detach | ping | input | resize | command | snapshot => exact Or.inl rfl

namespace Daemon

def phaseOf (s : Daemon) (c : ConnId) : Option Phase := (s.conns c).map (·.phase)

variable {s t : Daemon} {a : Action} {c : ConnId} {conn : Conn} {request : Request}

theorem phaseOf_eq (h : s.conns c = some conn) : s.phaseOf c = some conn.phase := by simp [phaseOf, h]

@[simp] theorem conns_setConn (s : Daemon) (c d : ConnId) (conn : Conn) :
    (s.setConn c conn).conns d = if d = c then some conn else s.conns d := rfl

@[simp] theorem sessions_setConn (s : Daemon) (c : ConnId) (conn : Conn) :
    (s.setConn c conn).sessions = s.sessions := rfl

theorem accept_inv (h : s.step (.accept c) = some t) :
    s.conns c = none ∧ t = s.setConn c { phase := .reading, inbox := [], outbox := [] } := by
  simp only [step] at h
  split at h
  · next hc => exact ⟨hc, (Option.some.inj h).symm⟩
  · cases h

theorem send_inv (h : s.step (.send c request) = some t) :
    ∃ conn, s.conns c = some conn ∧ t = s.setConn c { conn with inbox := conn.inbox ++ [request] } := by
  obtain ⟨conn, hc, h⟩ := Option.bind_eq_some_iff.mp h
  exact ⟨conn, hc, (Option.some.inj h).symm⟩

theorem read_inv (h : s.step (.read c true) = some t) :
    ∃ conn request inbox phase, s.conns c = some conn ∧ conn.inbox = request :: inbox ∧
      conn.phase.afterRead request = some phase ∧ t = s.setConn c { conn with phase, inbox } := by
  obtain ⟨conn, hc, h⟩ := Option.bind_eq_some_iff.mp h
  split at h
  · cases h
  · next request inbox hi =>
    obtain ⟨phase, hp, h⟩ := Option.bind_eq_some_iff.mp h
    exact ⟨conn, request, inbox, phase, hc, hi, hp, (Option.some.inj h).symm⟩

theorem failedRead_inv (h : s.step (.read c false) = some t) :
    ∃ conn phase, s.conns c = some conn ∧ conn.phase.afterFailedRead = some phase ∧
      t = s.setConn c { conn with phase } := by
  obtain ⟨conn, hc, h⟩ := Option.bind_eq_some_iff.mp h
  obtain ⟨phase, hp, h⟩ := Option.bind_eq_some_iff.mp h
  exact ⟨conn, phase, hc, hp, (Option.some.inj h).symm⟩

theorem enter_inv (h : s.step (.enter c) = some t) :
    ∃ conn phase sessions os, s.conns c = some conn ∧ s.lock = none ∧
      s.critical conn.phase = some (phase, sessions, os) ∧
      t = { s with sessions, os, lock := if phase.inLock then some c else none }.setConn c { conn with phase } := by
  obtain ⟨conn, hc, h⟩ := Option.bind_eq_some_iff.mp h
  split at h
  · next hl =>
    obtain ⟨⟨phase, sessions, os⟩, hcr, h⟩ := Option.bind_eq_some_iff.mp h
    exact ⟨conn, phase, sessions, os, hc, hl, hcr, (Option.some.inj h).symm⟩
  · cases h

theorem write_inv (h : s.step (.write c true) = some t) :
    ∃ conn response bytes, s.conns c = some conn ∧ conn.phase.reply = some response ∧
      encodeResponse response = .ok bytes ∧
      t = { s with lock := if conn.phase.inLock then none else s.lock }.setConn c
        { conn with phase := conn.phase.afterWrite, outbox := conn.outbox ++ [response] } := by
  obtain ⟨conn, hc, h⟩ := Option.bind_eq_some_iff.mp h
  obtain ⟨response, hr, h⟩ := Option.bind_eq_some_iff.mp h
  split at h
  · next bytes he => exact ⟨conn, response, bytes, hc, hr, he, (Option.some.inj h).symm⟩
  · cases h

theorem failedWrite_inv (h : s.step (.write c false) = some t) :
    ∃ conn response, s.conns c = some conn ∧ conn.phase.reply = some response ∧
      t = { s with lock := if conn.phase.inLock then none else s.lock }.setConn c
        { conn with phase := conn.phase.afterFailedWrite } := by
  obtain ⟨conn, hc, h⟩ := Option.bind_eq_some_iff.mp h
  obtain ⟨response, hr, h⟩ := Option.bind_eq_some_iff.mp h
  exact ⟨conn, response, hc, hr, (Option.some.inj h).symm⟩

/-- What a thread can do with the sessions locked. -/
inductive Entered (s : Daemon) : Phase → Phase → Sessions → Os → Prop where
  | dispatched (request : Request) :
    Entered s (.dispatching request) (.replying (dispatch s.sessions request s.os).1)
      (dispatch s.sessions request s.os).2.1 (dispatch s.sessions request s.os).2.2
  | unknown {name : SessionName} (hs : s.sessions[name.asStr]? = none) :
    Entered s (.attaching name) (.replying (serviceError .notFound "session not found")) s.sessions s.os
  | refused {name : SessionName} {hosted : HostedSession} (hs : s.sessions[name.asStr]? = some hosted)
      (ha : hosted.attached = true) :
    Entered s (.attaching name) (.replying (serviceError .conflict "session already has an attached client"))
      s.sessions s.os
  | attached {name : SessionName} {hosted : HostedSession} (hs : s.sessions[name.asStr]? = some hosted)
      (ha : ¬hosted.attached = true) :
    Entered s (.attaching name) (.greeting name)
      (s.sessions.insert name.asStr { hosted with attached := true }) s.os
  | disappeared {name : SessionName} (request : Request) (hs : s.sessions[name.asStr]? = none) :
    Entered s (.serving name request) (.leaving name) s.sessions s.os
  | detached {name : SessionName} {hosted : HostedSession} (hs : s.sessions[name.asStr]? = some hosted) :
    Entered s (.serving name (.detach name)) (.detaching name) s.sessions s.os
  | answered {name : SessionName} {request : Request} {hosted hosted' : HostedSession}
      {reply : Except ServiceError Response} {phase : Phase} {os : Os}
      (hs : s.sessions[name.asStr]? = some hosted) (hd : request ≠ .detach name)
      (hr : hosted.respond request s.os = some (reply, hosted', os))
      (hp : (∃ response, reply = .ok response ∧ phase = .responding name response) ∨
        ∃ error, reply = .error error ∧ phase = .leaving name) :
    Entered s (.serving name request) phase (s.sessions.insert name.asStr hosted') os
  | gone {name : SessionName} (hs : s.sessions[name.asStr]? = none) :
    Entered s (.leaving name) .done s.sessions s.os
  | released {name : SessionName} {hosted : HostedSession} (hs : s.sessions[name.asStr]? = some hosted) :
    Entered s (.leaving name) .done (s.sessions.insert name.asStr { hosted with attached := false }) s.os

theorem critical_inv {phase phase' : Phase} {sessions : Sessions} {os : Os}
    (h : s.critical phase = some (phase', sessions, os)) : Entered s phase phase' sessions os := by
  cases phase with
  | dispatching request =>
    cases h
    exact .dispatched request
  | attaching name =>
    simp only [critical] at h
    split at h
    · next hs =>
      cases h
      exact .unknown hs
    · next hosted hs =>
      split at h
      · next ha =>
        cases h
        exact .refused hs ha
      · next ha =>
        cases h
        exact .attached hs ha
  | serving name request =>
    simp only [critical] at h
    split at h
    · next hs =>
      cases h
      exact .disappeared request hs
    · next hosted hs =>
      split at h
      · next hd =>
        cases h
        rw [hd]
        exact .detached hs
      · next hd =>
        obtain ⟨⟨reply, hosted', os'⟩, hr, h⟩ := Option.bind_eq_some_iff.mp h
        cases reply with
        | ok response =>
          cases h
          exact .answered hs hd hr (Or.inl ⟨response, rfl, rfl⟩)
        | error error =>
          cases h
          exact .answered hs hd hr (Or.inr ⟨error, rfl, rfl⟩)
  | leaving name =>
    simp only [critical] at h
    split at h
    · next hs =>
      cases h
      exact .gone hs
    · next hosted hs =>
      cases h
      exact .released hs
  | reading | replying | greeting | looping | responding | detaching | done => cases h

/-- Only a thread that locks the sessions changes them. -/
theorem step_sessions (h : s.step a = some t) :
    t.sessions = s.sessions ∨ ∃ c phase phase' os, a = .enter c ∧ s.phaseOf c = some phase ∧
      s.critical phase = some (phase', t.sessions, os) := by
  cases a with
  | accept c =>
    obtain ⟨-, rfl⟩ := accept_inv h
    exact Or.inl rfl
  | send c request =>
    obtain ⟨conn, -, rfl⟩ := send_inv h
    exact Or.inl rfl
  | read c ok =>
    cases ok with
    | true =>
      obtain ⟨conn, request, inbox, phase, -, -, -, rfl⟩ := read_inv h
      exact Or.inl rfl
    | false =>
      obtain ⟨conn, phase, -, -, rfl⟩ := failedRead_inv h
      exact Or.inl rfl
  | enter c =>
    obtain ⟨conn, phase, sessions, os, hc, -, hcr, rfl⟩ := enter_inv h
    exact Or.inr ⟨c, conn.phase, phase, os, rfl, phaseOf_eq hc, hcr⟩
  | write c ok =>
    cases ok with
    | true =>
      obtain ⟨conn, response, bytes, -, -, -, rfl⟩ := write_inv h
      exact Or.inl rfl
    | false =>
      obtain ⟨conn, response, -, -, rfl⟩ := failedWrite_inv h
      exact Or.inl rfl

end Daemon

end NovaMux

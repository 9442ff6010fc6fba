import NovaMux.Lib.Machine
import NovaMux.Runtime.Link
import NovaMux.Theorems.DaemonSteps

/-! The daemon against a service that serves one request at a time. The service has no threads, no lock and no messages
    under way: a call changes the sessions and is answered in one step. Every run of the daemon, with all of its
    connections interleaved and reads and writes failing at any point, is a history of the service. -/

namespace NovaMux

/-! ### The service -/

/-- What a connection is to the service. -/
inductive Standing where
  | fresh
  | attached (name : SessionName)
  /-- Its attachment has ended and is to be released. -/
  | leaving (name : SessionName)
  | closed
deriving DecidableEq

structure Call where
  conn : ConnId
  /-- What the connection was before. -/
  standing : Standing
  request : Request
  /-- There is no answer when the call ends the connection. -/
  answer : Option Response

structure Service where
  sessions : Sessions
  os : Os
  standing : ConnId → Standing
  /-- What has been served so far. -/
  calls : List Call

namespace Service

def start (os : Os) : Service := { sessions := ∅, os, standing := fun _ => .fresh, calls := [] }

inductive Op where
  | call (c : ConnId) (request : Request)
  /-- The connection ends. -/
  | hangup (c : ConnId)
  /-- The connection ends before its attachment is confirmed, which is never released then. -/
  | forget (c : ConnId)
  | release (c : ConnId)
deriving DecidableEq

/-- What becomes of a connection when a request is served: the answer, its standing, the sessions and the shells. -/
def attend (sessions : Sessions) (os : Os) (standing : Standing) (request : Request) :
    Option (Option Response × Standing × Sessions × Os) :=
  match standing with
  | .fresh =>
    match request with
    | .attach name =>
      match sessions[name.asStr]? with
      | none => some (some (serviceError .notFound "session not found"), .closed, sessions, os)
      | some hosted =>
        if hosted.attached then
          some (some (serviceError .conflict "session already has an attached client"), .closed, sessions, os)
        else
          some (some (.attached name), .attached name, sessions.insert name.asStr { hosted with attached := true }, os)
    | request =>
      let (response, sessions, os) := dispatch sessions request os
      some (some response, .closed, sessions, os)
  | .attached name =>
    match sessions[name.asStr]? with
    | none => some (none, .leaving name, sessions, os)
    | some hosted =>
      if request = .detach name then some (some (.detached name), .leaving name, sessions, os)
      else do
        let (reply, hosted, os) ← hosted.respond request os
        let sessions := sessions.insert name.asStr hosted
        match reply with
        | .ok response => some (some response, .attached name, sessions, os)
        | .error _ => some (none, .leaving name, sessions, os)
  | .leaving _ | .closed => none

def setStanding (u : Service) (c : ConnId) (standing : Standing) : Service :=
  { u with standing := fun d => if d = c then standing else u.standing d }

def step (u : Service) : Op → Option Service
  | .call c request => do
    let (answer, standing, sessions, os) ← attend u.sessions u.os (u.standing c) request
    some { u.setStanding c standing with sessions, os, calls := u.calls ++ [⟨c, u.standing c, request, answer⟩] }
  | .hangup c =>
    match u.standing c with
    | .fresh => some (u.setStanding c .closed)
    | .attached name => some (u.setStanding c (.leaving name))
    | .leaving _ | .closed => none
  | .forget c =>
    match u.standing c with
    | .attached _ => some (u.setStanding c .closed)
    | .fresh | .leaving _ | .closed => none
  | .release c =>
    match u.standing c with
    | .leaving name =>
      let sessions := match u.sessions[name.asStr]? with
        | none => u.sessions
        | some hosted => u.sessions.insert name.asStr { hosted with attached := false }
      some { u.setStanding c .closed with sessions }
    | .fresh | .attached _ | .closed => none

/-- The calls of a connection, in order. -/
def callsOf (u : Service) (c : ConnId) : List Call := u.calls.filter fun call => call.conn = c

end Service

/-! ### What the daemon is to it -/

namespace Phase

def standing : Phase → Standing
  | .reading | .dispatching _ | .attaching _ => .fresh
  | .greeting name | .looping name | .serving name _ | .responding name _ => .attached name
  | .detaching name | .leaving name => .leaving name
  | .replying _ | .done => .closed

/-- Whether the thread reads no more requests. -/
def ended : Phase → Bool
  | .leaving _ | .done => true
  | _ => false

/-- The answers that a thread has come to and not written. -/
def Unwritten (phase : Phase) (answers : List (Option Response)) : Prop :=
  match phase.reply with
  | some response => answers = [some response]
  | none => if phase.ended then answers.length ≤ 1 else answers = []

end Phase

namespace Daemon

/-- What a step is to the service. -/
def ops (s : Daemon) : Action → List Service.Op
  | .enter c => match (s.phaseOf c).bind Phase.request with
    | some request => [.call c request]
    | none => [.release c]
  | .read c false => [.hangup c]
  | .write c false => match s.phaseOf c with
    | some (.greeting _) => [.forget c]
    | some (.responding _ _) => [.hangup c]
    | _ => []
  | _ => []

/-- The requests that the client of a connection has sent. -/
def sentBy (c : ConnId) (as : List Action) : List Request :=
  as.filterMap fun
    | .send d request => if d = c then some request else none
    | _ => none

/-- What the service knows of a connection. -/
structure Attuned (as : List Action) (c : ConnId) (conn : Conn) (u : Service) : Prop where
  standing : u.standing c = conn.phase.standing
  /-- An attachment is not dispatched. -/
  proper : ∀ name, conn.phase ≠ .dispatching (.attach name)
  asked : (u.callsOf c).map Call.request ++ conn.phase.request.toList ++ conn.inbox = sentBy c as
  answered : ∃ unwritten, (u.callsOf c).map Call.answer = conn.outbox.map some ++ unwritten ∧ conn.phase.Unwritten unwritten

/-- The service behind a run of the daemon. -/
structure Linearized (as : List Action) (s : Daemon) (u : Service) : Prop where
  sessions : u.sessions = s.sessions
  os : u.os = s.os
  served : ∀ c conn, s.conns c = some conn → Attuned as c conn u
  fresh : ∀ c, s.conns c = none → u.standing c = .fresh ∧ u.callsOf c = [] ∧ sentBy c as = []

variable {s t : Daemon} {u u' : Service} {as : List Action} {a : Action} {c d : ConnId} {conn : Conn}

/-! ### Connections apart -/

theorem sentBy_append (c : ConnId) (as : List Action) (a : Action) : sentBy c (as ++ [a]) = sentBy c as ++ sentBy c [a] :=
  List.filterMap_append

theorem sentBy_of_ne (h : a.conn ≠ c) : sentBy c (as ++ [a]) = sentBy c as := by
  rw [sentBy_append]
  cases a with
  | send d request =>
    have hne : d ≠ c := h
    simp [sentBy, hne]
  | accept | read | enter | write => exact List.append_nil _

theorem Linearized.update (h : Linearized as s u) (ha : a.conn = c)
    (hconns : t.conns = fun d => if d = c then some conn else s.conns d) (hsessions : u'.sessions = t.sessions)
    (hos : u'.os = t.os) (hother : ∀ d, d ≠ c → u'.standing d = u.standing d ∧ u'.callsOf d = u.callsOf d)
    (hserved : Attuned (as ++ [a]) c conn u') : Linearized (as ++ [a]) t u' := by
  have hsent : ∀ d, d ≠ c → sentBy d (as ++ [a]) = sentBy d as := fun d hd => sentBy_of_ne (ha ▸ hd.symm)
  refine ⟨hsessions, hos, fun d other hd => ?_, fun d hd => ?_⟩
  · by_cases hdc : d = c
    · subst hdc
      simp only [hconns, if_true, Option.some.injEq] at hd
      exact hd ▸ hserved
    · simp only [hconns, if_neg hdc] at hd
      obtain ⟨hstanding, hcalls⟩ := hother d hdc
      obtain ⟨hs, hproper, hasked, hanswered⟩ := h.served d other hd
      refine ⟨hstanding.trans hs, hproper, ?_, ?_⟩
      · rw [hcalls, hsent d hdc]
        exact hasked
      · rw [hcalls]
        exact hanswered
  · by_cases hdc : d = c
    · simp [hconns, hdc] at hd
    · simp only [hconns, if_neg hdc] at hd
      obtain ⟨hstanding, hcalls⟩ := hother d hdc
      rw [hstanding, hcalls, hsent d hdc]
      exact h.fresh d hd

/-! ### Steps -/

/-- What a thread does with the sessions locked is what the service does with its request. -/
theorem attend_of_critical {phase phase' : Phase} {sessions : Sessions} {os : Os} {request : Request}
    (hr : phase.request = some request) (hproper : ∀ name, phase ≠ .dispatching (.attach name))
    (h : s.critical phase = some (phase', sessions, os)) :
    Service.attend s.sessions s.os phase.standing request = some (phase'.reply, phase'.standing, sessions, os) := by
  cases critical_inv h with
  | dispatched request' =>
    cases hr
    cases request with
    | attach name => exact absurd rfl (hproper name)
    | list | create | detach | ping | input | resize | command | snapshot => rfl
  | unknown hs | refused hs ha | attached hs ha =>
    cases hr
    simp [Service.attend, Phase.standing, Phase.reply, *]
  | disappeared request' hs =>
    cases hr
    simp [Service.attend, Phase.standing, Phase.reply, hs]
  | detached hs =>
    cases hr
    simp [Service.attend, Phase.standing, Phase.reply, hs]
  | answered hs hd hrespond hp =>
    cases hr
    rcases hp with ⟨response, rfl, rfl⟩ | ⟨error, rfl, rfl⟩
    · simp [Service.attend, Phase.standing, Phase.reply, hs, hd, hrespond]
    · simp [Service.attend, Phase.standing, Phase.reply, hs, hd, hrespond]
  | gone hs | released hs => cases hr

theorem Linearized.accept (h : Linearized as s u) (hs : s.step (.accept c) = some t) :
    Linearized (as ++ [.accept c]) t u := by
  obtain ⟨hnone, rfl⟩ := accept_inv hs
  obtain ⟨hstanding, hcalls, hsent⟩ := h.fresh c hnone
  refine h.update (c := c) rfl rfl h.sessions h.os (fun _ _ => ⟨rfl, rfl⟩) ⟨hstanding, nofun, ?_, [], ?_, rfl⟩
  · rw [hcalls, sentBy_append, hsent]
    rfl
  · rw [hcalls]
    rfl

theorem Linearized.send {request : Request} (h : Linearized as s u) (hs : s.step (.send c request) = some t) :
    Linearized (as ++ [.send c request]) t u := by
  obtain ⟨conn, hc, rfl⟩ := send_inv hs
  obtain ⟨hstanding, hproper, hasked, hanswered⟩ := h.served c conn hc
  refine h.update (c := c) rfl rfl h.sessions h.os (fun _ _ => ⟨rfl, rfl⟩) ⟨hstanding, hproper, ?_, hanswered⟩
  have hthis : sentBy c [.send c request] = [request] := by simp [sentBy]
  rw [sentBy_append, ← hasked, hthis, List.append_assoc _ conn.inbox]

theorem afterRead_inv {phase phase' : Phase} {request : Request} (h : phase.afterRead request = some phase') :
    phase'.standing = phase.standing ∧ (∀ name, phase' ≠ .dispatching (.attach name)) ∧ phase.request = none ∧
      phase'.request = some request ∧ phase.reply = none ∧ phase.ended = false ∧ phase'.reply = none ∧
      phase'.ended = false := by
  cases phase with
  | reading =>
    cases request <;> cases h <;> exact ⟨rfl, nofun, rfl, rfl, rfl, rfl, rfl, rfl⟩
  | looping name =>
    cases h
    exact ⟨rfl, nofun, rfl, rfl, rfl, rfl, rfl, rfl⟩
  | dispatching | attaching | replying | greeting | serving | responding | detaching | leaving | done => cases h

theorem Linearized.read (h : Linearized as s u) (hs : s.step (.read c true) = some t) :
    Linearized (as ++ [.read c true]) t u := by
  obtain ⟨conn, request, inbox, phase, hc, hinbox, hphase, rfl⟩ := read_inv hs
  obtain ⟨hstanding, hproper, hasked, unwritten, hanswered, hunwritten⟩ := h.served c conn hc
  obtain ⟨hsame, hproper', hnone, hsome, hreply, hended, hreply', hended'⟩ := afterRead_inv hphase
  refine h.update (c := c) rfl rfl h.sessions h.os (fun _ _ => ⟨rfl, rfl⟩)
    ⟨hstanding.trans hsame.symm, hproper', ?_, unwritten, hanswered, ?_⟩
  · rw [sentBy_append, ← hasked, hnone, hsome, hinbox]
    simp [sentBy]
  · simp only [Phase.Unwritten, hreply, hended, hreply', hended'] at hunwritten ⊢
    exact hunwritten

theorem afterWrite_inv {phase : Phase} {response : Response} (h : phase.reply = some response) :
    phase.afterWrite.standing = phase.standing ∧ phase.request = none ∧ phase.afterWrite.request = none ∧
      phase.afterWrite.Unwritten [] ∧ ∀ name, phase.afterWrite ≠ .dispatching (.attach name) := by
  cases phase with
  | replying => exact ⟨rfl, rfl, rfl, Nat.zero_le 1, nofun⟩
  | greeting | responding => exact ⟨rfl, rfl, rfl, rfl, nofun⟩
  | detaching => exact ⟨rfl, rfl, rfl, Nat.zero_le 1, nofun⟩
  | reading | dispatching | attaching | looping | serving | leaving | done => cases h

theorem Linearized.written (h : Linearized as s u) (hs : s.step (.write c true) = some t) :
    Linearized (as ++ [.write c true]) t u := by
  obtain ⟨conn, response, bytes, hc, hreply, -, rfl⟩ := write_inv hs
  obtain ⟨hstanding, hproper, hasked, unwritten, hanswered, hunwritten⟩ := h.served c conn hc
  obtain ⟨hsame, hnone, hnone', hnil, hproper'⟩ := afterWrite_inv hreply
  have hsent : sentBy c (as ++ [.write c true]) = sentBy c as := (sentBy_append c as _).trans (List.append_nil _)
  simp only [Phase.Unwritten, hreply] at hunwritten
  subst hunwritten
  refine h.update (c := c) rfl rfl h.sessions h.os (fun _ _ => ⟨rfl, rfl⟩)
    ⟨hstanding.trans hsame.symm, hproper', ?_, [], ?_, hnil⟩
  · rw [hsent, ← hasked, hnone, hnone']
  · rw [hanswered, List.map_append, List.append_nil]
    rfl

/-- The standing of a connection changes and nothing else. -/
theorem setStanding_other (u : Service) (c : ConnId) (standing : Standing) {d : ConnId} (hd : d ≠ c) :
    (u.setStanding c standing).standing d = u.standing d ∧ (u.setStanding c standing).callsOf d = u.callsOf d :=
  ⟨if_neg hd, rfl⟩

theorem setStanding_same (u : Service) (c : ConnId) (standing : Standing) :
    (u.setStanding c standing).standing c = standing := if_pos rfl

theorem Linearized.failedRead (h : Linearized as s u) (hs : s.step (.read c false) = some t) :
    ∃ u', Machine.run Service.step u (s.ops (.read c false)) = some u' ∧ Linearized (as ++ [.read c false]) t u' := by
  obtain ⟨conn, phase, hc, hphase, rfl⟩ := failedRead_inv hs
  obtain ⟨hstanding, hproper, hasked, unwritten, hanswered, hunwritten⟩ := h.served c conn hc
  have hsent : sentBy c (as ++ [.read c false]) = sentBy c as := (sentBy_append c as _).trans (List.append_nil _)
  have hended : u.step (.hangup c) = some (u.setStanding c phase.standing) ∧ conn.phase.request = none ∧
      phase.request = none ∧ conn.phase.reply = none ∧ conn.phase.ended = false ∧ phase.reply = none ∧
      phase.ended = true ∧ ∀ name, phase ≠ .dispatching (.attach name) := by
    cases hbefore : conn.phase with
    | reading | looping =>
      rw [hbefore] at hphase hstanding
      cases hphase
      exact ⟨by simp only [Service.step, hstanding, Phase.standing], rfl, rfl, rfl, rfl, rfl, rfl, nofun⟩
    | dispatching | attaching | replying | greeting | serving | responding | detaching | leaving | done =>
      rw [hbefore] at hphase
      cases hphase
  obtain ⟨hstep, hnone, hnone', hreply, hgoing, hreply', hgone, hproper'⟩ := hended
  refine ⟨_, Machine.run_singleton.trans hstep, h.update (c := c) rfl rfl h.sessions h.os
    (fun d hd => setStanding_other u c _ hd) ⟨setStanding_same u c _, hproper', ?_, unwritten, hanswered, ?_⟩⟩
  · rw [hsent, ← hasked, hnone, hnone']
    rfl
  · simp only [Phase.Unwritten, hreply, hgoing, Bool.false_eq_true, if_false] at hunwritten
    simp [Phase.Unwritten, hreply', hgone, hunwritten]

theorem Linearized.failedWrite (h : Linearized as s u) (hs : s.step (.write c false) = some t) :
    ∃ u', Machine.run Service.step u (s.ops (.write c false)) = some u' ∧ Linearized (as ++ [.write c false]) t u' := by
  obtain ⟨conn, response, hc, hreply, rfl⟩ := failedWrite_inv hs
  obtain ⟨hstanding, hproper, hasked, unwritten, hanswered, hunwritten⟩ := h.served c conn hc
  have hsent : sentBy c (as ++ [.write c false]) = sentBy c as := (sentBy_append c as _).trans (List.append_nil _)
  have hphase := phaseOf_eq hc
  simp only [Phase.Unwritten, hreply] at hunwritten
  subst hunwritten
  have hended : conn.phase.request = none ∧ conn.phase.afterFailedWrite.request = none ∧
      conn.phase.afterFailedWrite.Unwritten [some response] ∧
      (∀ name, conn.phase.afterFailedWrite ≠ .dispatching (.attach name)) ∧
      ∃ u' : Service, Machine.run Service.step u (s.ops (.write c false)) = some u' ∧ u'.sessions = u.sessions ∧
        u'.os = u.os ∧ (∀ d, d ≠ c → u'.standing d = u.standing d ∧ u'.callsOf d = u.callsOf d) ∧
        u'.standing c = conn.phase.afterFailedWrite.standing ∧ u'.callsOf c = u.callsOf c := by
    simp only [ops, hphase]
    cases hbefore : conn.phase with
    -- Nothing is left of this connection but an answer that nobody receives.
    | replying | detaching =>
      rw [hbefore] at hstanding
      exact ⟨rfl, rfl, Nat.le_refl 1, nofun, u, rfl, rfl, rfl, fun _ _ => ⟨rfl, rfl⟩, hstanding, rfl⟩
    -- The client is gone, but the reservation is still to be given back.
    | greeting | responding =>
      rw [hbefore] at hstanding
      refine ⟨rfl, rfl, Nat.le_refl 1, nofun, u.setStanding c _, ?_, rfl, rfl, fun d hd => setStanding_other u c _ hd,
        setStanding_same u c _, rfl⟩
      simp [Service.step, hstanding, Phase.standing, Phase.afterFailedWrite]
    | reading | dispatching | attaching | looping | serving | leaving | done =>
      rw [hbefore] at hreply
      cases hreply
  obtain ⟨hnone, hnone', hlost, hproper', u', hrun, hsessions, hos, hother, hsame, hcalls⟩ := hended
  refine ⟨u', hrun, h.update (c := c) rfl rfl (hsessions.trans h.sessions) (hos.trans h.os) hother
    ⟨hsame, hproper', ?_, [some response], hcalls ▸ hanswered, hlost⟩⟩
  rw [hsent, ← hasked, hcalls, hnone, hnone']

theorem unwritten_request {phase : Phase} {request : Request} {answers : List (Option Response)}
    (hr : phase.request = some request) (h : phase.Unwritten answers) : answers = [] := by
  cases phase with
  | dispatching | attaching | serving => exact h
  | reading | replying | greeting | looping | responding | detaching | leaving | done => cases hr

/-- A thread that has served a request holds its answer, or its connection has ended. -/
theorem critical_request {phase phase' : Phase} {sessions : Sessions} {os : Os} {request : Request}
    (hr : phase.request = some request) (h : s.critical phase = some (phase', sessions, os)) :
    phase'.request = none ∧ phase'.Unwritten [phase'.reply] ∧ ∀ name, phase' ≠ .dispatching (.attach name) := by
  cases critical_inv h with
  | dispatched | unknown | refused | attached | detached => exact ⟨rfl, rfl, nofun⟩
  | disappeared => exact ⟨rfl, Nat.le_refl 1, nofun⟩
  | answered _ _ _ hp =>
    rcases hp with ⟨response, -, rfl⟩ | ⟨error, -, rfl⟩
    · exact ⟨rfl, rfl, nofun⟩
    · exact ⟨rfl, Nat.le_refl 1, nofun⟩
  | gone | released => cases hr

/-- Without a request, a thread that locks the sessions releases its attachment. -/
theorem critical_release {phase phase' : Phase} {sessions : Sessions} {os : Os} (hr : phase.request = none)
    (h : s.critical phase = some (phase', sessions, os)) : ∃ name, phase = .leaving name ∧ phase' = .done ∧ os = s.os ∧
      sessions = match s.sessions[name.asStr]? with
        | none => s.sessions
        | some hosted => s.sessions.insert name.asStr { hosted with attached := false } := by
  cases critical_inv h with
  | gone hs | released hs => exact ⟨_, rfl, rfl, rfl, by rw [hs]⟩
  | dispatched | unknown | refused | attached | detached | disappeared | answered => cases hr

theorem Linearized.enter (h : Linearized as s u) (hs : s.step (.enter c) = some t) :
    ∃ u', Machine.run Service.step u (s.ops (.enter c)) = some u' ∧ Linearized (as ++ [.enter c]) t u' := by
  obtain ⟨conn, phase, sessions, os, hc, -, hcr, rfl⟩ := enter_inv hs
  obtain ⟨hstanding, hproper, hasked, unwritten, hanswered, hunwritten⟩ := h.served c conn hc
  have hsent : sentBy c (as ++ [.enter c]) = sentBy c as := (sentBy_append c as _).trans (List.append_nil _)
  cases hr : conn.phase.request with
  | some request =>
    have hops : s.ops (.enter c) = [.call c request] := by simp [ops, phaseOf_eq hc, hr]
    have hattend := attend_of_critical hr hproper hcr
    obtain rfl := unwritten_request hr hunwritten
    obtain ⟨hnone, hthis, hproper'⟩ := critical_request hr hcr
    -- The call takes effect where its thread has the sessions locked.
    let u' : Service := { u.setStanding c phase.standing with
      sessions, os, calls := u.calls ++ [⟨c, conn.phase.standing, request, phase.reply⟩] }
    have hstep : u.step (.call c request) = some u' := by
      simp only [Service.step, h.sessions, h.os, hstanding, hattend]
      rfl
    have hcalls : u'.callsOf c = u.callsOf c ++ [⟨c, conn.phase.standing, request, phase.reply⟩] := by simp [u', Service.callsOf]
    have hother : ∀ d, d ≠ c → u'.standing d = u.standing d ∧ u'.callsOf d = u.callsOf d :=
      fun d hd => ⟨if_neg hd, by simp [u', Service.callsOf, hd.symm]⟩
    refine ⟨u', by rw [hops, Machine.run_singleton, hstep], h.update (c := c) rfl rfl rfl rfl hother
      ⟨setStanding_same u c _, hproper', ?_, [phase.reply], ?_, hthis⟩⟩
    · rw [hsent, ← hasked, hcalls, hr, hnone]
      simp
    · rw [hcalls, List.map_append, hanswered, List.append_nil]
      rfl
  | none =>
    -- A thread without a request has only its reservation to give back.
    obtain ⟨name, hleaving, rfl, rfl, hsessions⟩ := critical_release hr hcr
    have hops : s.ops (.enter c) = [.release c] := by simp [ops, phaseOf_eq hc, hr]
    rw [hleaving] at hstanding hunwritten
    let u' : Service := { u.setStanding c .closed with sessions }
    have hstep : u.step (.release c) = some u' := by
      simp only [u', Service.step, hstanding, Phase.standing, h.sessions, hsessions]
    refine ⟨u', by rw [hops, Machine.run_singleton, hstep], h.update (c := c) rfl rfl rfl h.os
      (fun d hd => setStanding_other u c _ hd) ⟨setStanding_same u c _, nofun, ?_, unwritten, hanswered, hunwritten⟩⟩
    rw [hsent, ← hasked, hleaving]
    rfl

theorem Linearized.step (h : Linearized as s u) (hs : s.step a = some t) :
    ∃ u', Machine.run Service.step u (s.ops a) = some u' ∧ Linearized (as ++ [a]) t u' := by
  cases a with
  | accept c => exact ⟨u, rfl, h.accept hs⟩
  | send c request => exact ⟨u, rfl, h.send hs⟩
  | read c ok =>
    cases ok with
    | true => exact ⟨u, rfl, h.read hs⟩
    | false => exact h.failedRead hs
  | enter c => exact h.enter hs
  | write c ok =>
    cases ok with
    | true => exact ⟨u, rfl, h.written hs⟩
    | false => exact h.failedWrite hs

/-! ### Runs -/

theorem linearized_start (os : Os) : Linearized [] (start os) (Service.start os) :=
  ⟨rfl, rfl, nofun, fun _ _ => ⟨rfl, rfl, rfl⟩⟩

theorem run_linearized {os : Os} (hr : Machine.run step (start os) as = some s) :
    ∃ u, Machine.run Service.step (.start os) (Machine.history step ops (start os) as) = some u ∧ Linearized as s u :=
  Machine.run_history (R := fun as s u => Linearized as s u) (fun _ _ _ _ _ h hs => h.step hs) (linearized_start os) hr

/-- Every run of the daemon is a history of the service, with the same sessions and shells behind it. The calls of a
    connection are the requests that its client has sent, in order, up to the one under way and those not yet read, and
    the responses that the client has got are their answers, all but the last of which it has got. A longer run adds to
    the history at its end, so that a call comes behind those that were answered before its request was sent. -/
theorem linearizable {os : Os} (hr : Machine.run step (start os) as = some s) :
    ∃ u, Machine.run Service.step (.start os) (Machine.history step ops (start os) as) = some u ∧
      u.sessions = s.sessions ∧ u.os = s.os ∧
      (∀ c conn, s.conns c = some conn →
        (u.callsOf c).map Call.request ++ conn.phase.request.toList ++ conn.inbox = sentBy c as ∧
        ∃ unwritten, (u.callsOf c).map Call.answer = conn.outbox.map some ++ unwritten ∧ unwritten.length ≤ 1) ∧
      ∀ bs t, Machine.run step s bs = some t → Machine.history step ops (start os) (as ++ bs) =
        Machine.history step ops (start os) as ++ Machine.history step ops s bs := by
  obtain ⟨u, hu, h⟩ := run_linearized hr
  refine ⟨u, hu, h.sessions, h.os, fun c conn hc => ?_, fun bs t _ => Machine.history_append hr⟩
  obtain ⟨-, -, hasked, unwritten, hanswered, hunwritten⟩ := h.served c conn hc
  refine ⟨hasked, unwritten, hanswered, ?_⟩
  unfold Phase.Unwritten at hunwritten
  split at hunwritten
  · rw [hunwritten]
    exact Nat.le_refl 1
  · split at hunwritten
    · exact hunwritten
    · rw [hunwritten]
      exact Nat.zero_le 1

/-- A client attaches to the session that another one creates in the meantime, and types. -/
def visit : List Action :=
  [.accept 0, .accept 1, .send 1 (.attach .work), .send 0 (.create .work), .read 1 true, .read 0 true, .enter 0,
    .send 1 (.input ['h'.toUInt8]), .write 0 true, .enter 1, .write 1 true, .read 1 true, .enter 1, .write 1 true]

theorem linearizable_visit : ∃ s u conn, Machine.run step (start ⟨0, [], []⟩) visit = some s ∧
    Machine.run Service.step (.start ⟨0, [], []⟩)
      [.call 0 (.create .work), .call 1 (.attach .work), .call 1 (.input ['h'.toUInt8])] = some u ∧
    u.sessions = s.sessions ∧ u.os = s.os ∧ s.conns 1 = some conn ∧ conn.phase = .looping .work ∧ conn.inbox = [] ∧
    conn.outbox.length = 2 ∧ (u.callsOf 1).map Call.answer = conn.outbox.map some := by
  obtain ⟨s, hs, hconn⟩ : ∃ s, Machine.run step (start ⟨0, [], []⟩) visit = some s ∧
      (s.conns 1).map (fun conn => (conn.phase, conn.inbox, conn.outbox.length)) = some (.looping .work, [], 2) :=
    ⟨_, rfl, by decide +kernel⟩
  obtain ⟨conn, hconn, hphase⟩ := Option.map_eq_some_iff.mp hconn
  obtain ⟨hlooping, hinbox, hlength⟩ : conn.phase = .looping .work ∧ conn.inbox = [] ∧ conn.outbox.length = 2 := by
    simpa only [Prod.mk.injEq] using hphase
  obtain ⟨u, hu, hsessions, hos, hserved, -⟩ := linearizable hs
  obtain ⟨hasked, unwritten, hanswered, -⟩ := hserved 1 conn hconn
  rw [hlooping, hinbox] at hasked
  have hcalls := congrArg List.length hasked
  have hanswers := congrArg List.length hanswered
  have hsent : (sentBy 1 visit).length = 2 := rfl
  simp only [Phase.request, Option.toList, List.append_nil, List.length_map, List.length_append] at hcalls hanswers
  have hnone : unwritten = [] := List.length_eq_zero_iff.mp (by omega)
  rw [hnone, List.append_nil] at hanswered
  exact ⟨s, u, conn, hs, hu, hsessions, hos, hconn, hlooping, hinbox, hlength, hanswered⟩

end Daemon

end NovaMux

import Mathlib.Algebra.Order.BigOperators.Group.Finset
import NovaMux.Theorems.Isolation
import NovaMux.Theorems.Resources
import NovaMux.Theorems.Edits

/-! Progress of the daemon. The threads come to rest in every schedule, after a number of steps that what their clients
    have sent bounds, and none of them is then left behind at the lock: each waits for its client, with all requests
    answered, or has ended. -/

namespace NovaMux

open Std

/-! ### Sessions -/

namespace HostedSession

variable {hosted : HostedSession} {os : Os} {request : Request}

/-- A request makes the daemon panic only when it splits a session that has no pane identifier left. -/
def Exhausts (hosted : HostedSession) (request : Request) : Prop :=
  (request = .command 1 ∨ request = .command 2) ∧ hosted.session.nextId.toNat + 1 = 2 ^ 64

theorem split_exhausts {direction : SplitDirection} (h : hosted.split direction os = none) :
    hosted.session.nextId.toNat + 1 = 2 ^ 64 := by
  suffices hnone : hosted.session.splitFocused direction = none from Session.splitFocused_eq_none.mp hnone
  cases hs : hosted.session.splitFocused direction with
  | none => rfl
  | some split =>
    simp only [HostedSession.split, hs, Option.bind_eq_bind, Option.bind_some] at h
    split at h <;> cases h

theorem Tended.close_isSome (h : hosted.Tended) (os : Os) : (hosted.close os).isSome := by
  obtain ⟨removed, session, hs⟩ := Session.closeFocused_isSome h.wf.nodup h.wf.focused
  simp only [HostedSession.close, hs, Option.bind_eq_bind, Option.bind_some]
  split
  · split
    · rfl
    · split <;> rfl
  · rfl

theorem Tended.exhausts (h : hosted.Tended) (hr : hosted.respond request os = none) : hosted.Exhausts request := by
  cases request with
  | command code =>
    have hc : hosted.command code os = none := Option.map_eq_none_iff.mp hr
    simp only [HostedSession.command] at hc
    split at hc
    · exact ⟨Or.inl rfl, split_exhausts hc⟩
    · exact ⟨Or.inr rfl, split_exhausts hc⟩
    · obtain ⟨session, hs⟩ := Session.focusNext_isSome h.wf.focused
      simp [hs] at hc
    · have hsome := h.close_isSome os
      simp [hc] at hsome
    · cases hc
  | create | list | attach | detach | ping | input | resize | snapshot => cases hr

end HostedSession

/-! ### The work of a thread -/

namespace Phase

/-- The most steps that a thread takes before it waits for its client, a hang-up included. -/
def work : Phase → Nat
  | .serving _ _ | .attaching _ => 4
  | .responding _ _ | .greeting _ => 3
  | .reading | .looping _ | .dispatching _ | .detaching _ => 2
  | .replying _ | .leaving _ => 1
  | .done => 0

theorem work_afterRead {phase phase' : Phase} {request : Request} (h : phase.afterRead request = some phase') :
    phase'.work < phase.work + 3 := by
  cases phase with
  | reading => cases request <;> cases h <;> simp [work]
  | looping name =>
    cases h
    exact Nat.lt_succ_self 4
  | dispatching | attaching | replying | greeting | serving | responding | detaching | leaving | done => cases h

theorem work_afterFailedRead {phase phase' : Phase} (h : phase.afterFailedRead = some phase') :
    phase'.work < phase.work := by
  cases phase with
  | reading =>
    cases h
    exact Nat.zero_lt_two
  | looping name =>
    cases h
    exact Nat.one_lt_two
  | dispatching | attaching | replying | greeting | serving | responding | detaching | leaving | done => cases h

theorem work_reply {phase : Phase} {response : Response} (h : phase.reply = some response) :
    phase.afterWrite.work < phase.work ∧ phase.afterFailedWrite.work < phase.work := by
  cases phase with
  | replying | greeting | responding | detaching => simp [work, afterWrite, afterFailedWrite]
  | reading | dispatching | attaching | looping | serving | leaving | done => cases h

theorem inLock_afterRead {phase phase' : Phase} {request : Request} (h : phase.afterRead request = some phase') :
    phase.inLock = false ∧ phase'.inLock = false := by
  cases phase with
  | reading => cases request <;> cases h <;> exact ⟨rfl, rfl⟩
  | looping name =>
    cases h
    exact ⟨rfl, rfl⟩
  | dispatching | attaching | replying | greeting | serving | responding | detaching | leaving | done => cases h

theorem inLock_afterFailedRead {phase phase' : Phase} (h : phase.afterFailedRead = some phase') :
    phase.inLock = false ∧ phase'.inLock = false := by
  cases phase with
  | reading | looping =>
    cases h
    exact ⟨rfl, rfl⟩
  | dispatching | attaching | replying | greeting | serving | responding | detaching | leaving | done => cases h

theorem inLock_reply {phase : Phase} {response : Response} (h : phase.reply = some response) :
    phase.afterWrite.inLock = false ∧ phase.afterFailedWrite.inLock = false := by
  cases phase with
  | replying | greeting | responding | detaching => exact ⟨rfl, rfl⟩
  | reading | dispatching | attaching | looping | serving | leaving | done => cases h

end Phase

/-! ### The daemon -/

namespace Daemon

variable {s t : Daemon} {a : Action} {as bs : List Action} {c d : ConnId} {conn : Conn}

/-- Every session satisfies `P` under its key. -/
def Every (P : String → HostedSession → Prop) (s : Daemon) : Prop :=
  ∀ (key : String) hosted, s.sessions[key]? = some hosted → P key hosted

variable {P : String → HostedSession → Prop}

theorem Every.insert {key : String} {hosted : HostedSession} (h : s.Every P)
    (ht : t.sessions = s.sessions.insert key hosted) (hnew : P key hosted) : t.Every P := by
  intro other found hf
  rw [ht, ExtTreeMap.getElem?_insert] at hf
  split at hf
  · next he =>
    rw [← Std.compare_eq_iff_eq.mp he, ← Option.some.inj hf]
    exact hnew
  · exact h other found hf

/-- What new sessions satisfy, and reservations and requests keep, all sessions satisfy. -/
theorem Every.step (hcreate : ∀ name os hosted os', HostedSession.create name os = (.ok hosted, os') → P name.asStr hosted)
    (hreserve : ∀ key hosted attached, P key hosted → P key { hosted with attached })
    (hrespond : ∀ key hosted request os reply hosted' os', P key hosted →
      hosted.respond request os = some (reply, hosted', os') → P key hosted')
    (h : s.Every P) (hs : s.step a = some t) : t.Every P := by
  rcases step_sessions hs with hsame | ⟨c, phase, phase', os, -, -, hcr⟩
  · unfold Every
    rw [hsame]
    exact h
  · obtain ⟨sessions, hsessions⟩ : ∃ sessions, t.sessions = sessions := ⟨_, rfl⟩
    rw [hsessions] at hcr
    cases critical_inv hcr with
    | dispatched request =>
      rcases dispatch_sessions s.sessions request s.os with hsame | ⟨name, hosted, os', -, hnew, hinserted⟩
      · unfold Every
        rw [hsessions, hsame]
        exact h
      · exact h.insert (hsessions.trans hinserted) (hcreate _ _ _ _ hnew)
    | unknown | refused | disappeared | detached | gone =>
      unfold Every
      rw [hsessions]
      exact h
    | attached hfound => exact h.insert hsessions (hreserve _ _ true (h _ _ hfound))
    | released hfound => exact h.insert hsessions (hreserve _ _ false (h _ _ hfound))
    | answered hfound _ hanswer => exact h.insert hsessions (hrespond _ _ _ _ _ _ _ (h _ _ hfound) hanswer)

/-- Every session has a runtime for each of its panes. -/
def Tended (s : Daemon) : Prop := s.Every fun _ hosted => hosted.Tended

theorem Tended.step (h : s.Tended) (hs : s.step a = some t) : t.Tended :=
  Every.step (fun _ _ _ _ hc => .create hc) (fun _ _ _ h => h) (fun _ _ _ _ _ _ _ h hr => h.respond hr) h hs

/-- The thread that takes a step. -/
def Action.thread : Action → Option ConnId
  | .read c _ | .enter c | .write c _ => some c
  | .accept _ | .send _ _ => none

/-- The steps that a thread takes with what it has; a read fails when something happens to its connection. -/
def Action.Own : Action → Prop
  | .read _ ok => ok = true
  | .enter _ | .write _ _ => True
  | .accept _ | .send _ _ => False

theorem Action.Own.thread (h : a.Own) : a.thread ≠ none := by
  intro hnone
  cases a with
  | accept | send => exact h
  | read | enter | write => cases hnone

/-- Every request that is still to be read takes three steps. -/
def work (s : Daemon) (c : ConnId) : Nat :=
  match s.conns c with
  | none => 2
  | some conn => conn.phase.work + 3 * conn.inbox.length

/-- What an action brings a thread to do. -/
def brings (c : ConnId) : Action → Nat
  | .send d _ => if d = c then 3 else 0
  | _ => 0

/-- What an action takes of a thread. -/
def takes (c : ConnId) (a : Action) : Nat := if a.thread = some c then 1 else 0

theorem work_eq (hc : s.conns c = some conn) : s.work c = conn.phase.work + 3 * conn.inbox.length := by
  simp only [work, hc]

theorem work_setConn (s : Daemon) (c : ConnId) (conn : Conn) :
    (s.setConn c conn).work c = conn.phase.work + 3 * conn.inbox.length :=
  work_eq (by simp)

theorem work_other (h : t.conns d = s.conns d) : t.work d = s.work d := by
  simp only [work, h]

theorem conns_of_thread (hs : s.step a = some t) (ha : a.thread = some c) : ∃ conn, s.conns c = some conn := by
  cases a with
  | accept | send => cases ha
  | read d ok | write d ok =>
    cases ha
    cases ok
    all_goals
      obtain ⟨conn, hc, -⟩ := Option.bind_eq_some_iff.mp hs
      exact ⟨conn, hc⟩
  | enter d =>
    cases ha
    obtain ⟨conn, hc, -⟩ := Option.bind_eq_some_iff.mp hs
    exact ⟨conn, hc⟩

theorem conns_of_ne (hs : s.step a = some t) (hd : a.conn ≠ d) : t.conns d = s.conns d := by
  cases a with
  | accept c =>
    obtain ⟨-, rfl⟩ := accept_inv hs
    exact if_neg hd.symm
  | send c request =>
    obtain ⟨conn, -, rfl⟩ := send_inv hs
    exact if_neg hd.symm
  | read c ok =>
    cases ok with
    | true =>
      obtain ⟨conn, request, inbox, phase, -, -, -, rfl⟩ := read_inv hs
      exact if_neg hd.symm
    | false =>
      obtain ⟨conn, phase, -, -, rfl⟩ := failedRead_inv hs
      exact if_neg hd.symm
  | enter c =>
    obtain ⟨conn, phase, sessions, os, -, -, -, rfl⟩ := enter_inv hs
    exact if_neg hd.symm
  | write c ok =>
    cases ok with
    | true =>
      obtain ⟨conn, response, bytes, -, -, -, rfl⟩ := write_inv hs
      exact if_neg hd.symm
    | false =>
      obtain ⟨conn, response, -, -, rfl⟩ := failedWrite_inv hs
      exact if_neg hd.symm

theorem run_conns_of_ne (hr : Machine.run step s as = some t) (hd : ∀ a ∈ as, a.conn ≠ d) : t.conns d = s.conns d := by
  induction as generalizing s with
  | nil =>
    cases hr
    rfl
  | cons a as ih =>
    obtain ⟨u, hs, hr⟩ := Machine.run_cons_eq_some.mp hr
    obtain ⟨ha, has⟩ := List.forall_mem_cons.mp hd
    exact (ih hr has).trans (conns_of_ne hs ha)

theorem work_critical {phase phase' : Phase} {sessions : Sessions} {os : Os}
    (h : s.critical phase = some (phase', sessions, os)) : phase'.work < phase.work := by
  cases critical_inv h with
  | answered _ _ _ hp => rcases hp with ⟨response, -, rfl⟩ | ⟨error, -, rfl⟩ <;> simp [Phase.work]
  | dispatched | unknown | refused | attached | disappeared | detached | gone | released => simp [Phase.work]

/-- A step of a thread is one of those it has to do. -/
theorem step_work (hs : s.step a = some t) (c : ConnId) : takes c a + t.work c ≤ s.work c + brings c a := by
  by_cases hc : a.conn = c
  · subst hc
    cases a with
    | accept c =>
      obtain ⟨hnew, rfl⟩ := accept_inv hs
      simp [takes, Action.thread, Action.conn, brings, work, hnew, Phase.work]
    | send c request =>
      obtain ⟨conn, hc, rfl⟩ := send_inv hs
      -- A request in the inbox is worth three steps; it brings them with it.
      simp only [takes, Action.thread, Action.conn, brings, work_setConn, work_eq hc, List.length_append, List.length_singleton,
        reduceCtorEq, if_false, if_true]
      omega
    | read c ok =>
      cases ok with
      | true =>
        obtain ⟨conn, request, inbox, phase, hc, hi, hp, rfl⟩ := read_inv hs
        have hlow := Phase.work_afterRead hp
        simp only [takes, Action.thread, Action.conn, brings, work_setConn, work_eq hc, hi, List.length_cons, if_true]
        omega
      | false =>
        obtain ⟨conn, phase, hc, hp, rfl⟩ := failedRead_inv hs
        have hlow := Phase.work_afterFailedRead hp
        simp only [takes, Action.thread, Action.conn, brings, work_setConn, work_eq hc, if_true]
        omega
    | enter c =>
      obtain ⟨conn, phase, sessions, os, hc, -, hcr, rfl⟩ := enter_inv hs
      have hlow := work_critical hcr
      simp only [takes, Action.thread, Action.conn, brings, work_setConn, work_eq hc, if_true]
      omega
    | write c ok =>
      cases ok with
      | true =>
        obtain ⟨conn, response, bytes, hc, hr, -, rfl⟩ := write_inv hs
        have hlow := (Phase.work_reply hr).1
        simp only [takes, Action.thread, Action.conn, brings, work_setConn, work_eq hc, if_true]
        omega
      | false =>
        obtain ⟨conn, response, hc, hr, rfl⟩ := failedWrite_inv hs
        have hlow := (Phase.work_reply hr).2
        simp only [takes, Action.thread, Action.conn, brings, work_setConn, work_eq hc, if_true]
        omega
  · have htakes : takes c a = 0 := by
      refine if_neg fun ht => hc ?_
      cases a with
      | accept | send => cases ht
      | read | enter | write => exact Option.some.inj ht
    -- Another connection neither works here nor changes what there is to do.
    rw [htakes, work_other (conns_of_ne hs hc)]
    omega

/-! ### The lock -/

/-- The sessions are locked by a thread that is at a response with the sessions locked, and there is at most one. -/
def Locked (s : Daemon) : Prop := ∀ c, s.lock = some c ↔ ∃ conn, s.conns c = some conn ∧ conn.phase.inLock = true

theorem Locked.update (h : s.Locked) (hconns : t.conns = fun d => if d = c then some conn else s.conns d)
    (hother : ∀ d, d ≠ c → (t.lock = some d ↔ s.lock = some d)) (hsame : t.lock = some c ↔ conn.phase.inLock = true) :
    t.Locked := by
  intro d
  by_cases hd : d = c
  · subst hd
    simp [hconns, hsame]
  · rw [hother d hd, h d]
    simp [hconns, hd]

theorem Locked.free (h : s.Locked) (hc : s.conns c = some conn) (hfree : conn.phase.inLock = false) : s.lock ≠ some c := by
  intro hl
  obtain ⟨conn', hc', hin⟩ := (h c).mp hl
  rw [hc, Option.some.injEq] at hc'
  rw [← hc', hfree] at hin
  cases hin

/-- A thread outside of the lock goes on outside of it. -/
theorem Locked.pass {conn' : Conn} (h : s.Locked) (hc : s.conns c = some conn) (hfree : conn.phase.inLock = false)
    (hfree' : conn'.phase.inLock = false) : (s.setConn c conn').Locked := by
  refine h.update rfl (fun _ _ => Iff.rfl) ?_
  rw [hfree']
  exact iff_of_false (h.free hc hfree) Bool.false_ne_true

/-- A thread at a response leaves the lock if it had it. -/
theorem Locked.leave {conn' : Conn} (h : s.Locked) (hc : s.conns c = some conn) (hfree' : conn'.phase.inLock = false) :
    ({ s with lock := if conn.phase.inLock then none else s.lock }.setConn c conn').Locked := by
  cases hin : conn.phase.inLock with
  | true =>
    have hl : s.lock = some c := (h c).mpr ⟨conn, hc, hin⟩
    refine h.update (c := c) rfl (fun d hd => ?_) ?_
    · rw [hl]
      simpa [setConn] using hd.symm
    · simp [setConn, hfree']
  | false => exact h.pass hc hin hfree'

theorem Locked.step (h : s.Locked) (hs : s.step a = some t) : t.Locked := by
  cases a with
  | accept c =>
    obtain ⟨hnew, rfl⟩ := accept_inv hs
    refine h.update (c := c) rfl (fun _ _ => Iff.rfl) (iff_of_false (fun hl => ?_) Bool.false_ne_true)
    obtain ⟨conn, hc, -⟩ := (h c).mp hl
    cases hnew.symm.trans hc
  | send c request =>
    obtain ⟨conn, hc, rfl⟩ := send_inv hs
    refine h.update (c := c) rfl (fun _ _ => Iff.rfl) ?_
    refine (h c).trans ⟨fun ⟨conn', hc', hin⟩ => ?_, fun hin => ⟨conn, hc, hin⟩⟩
    cases hc.symm.trans hc'
    exact hin
  | read c ok =>
    cases ok with
    | true =>
      obtain ⟨conn, request, inbox, phase, hc, hi, hp, rfl⟩ := read_inv hs
      obtain ⟨hfree, hfree'⟩ := Phase.inLock_afterRead hp
      exact h.pass hc hfree hfree'
    | false =>
      obtain ⟨conn, phase, hc, hp, rfl⟩ := failedRead_inv hs
      obtain ⟨hfree, hfree'⟩ := Phase.inLock_afterFailedRead hp
      exact h.pass hc hfree hfree'
  | enter c =>
    obtain ⟨conn, phase, sessions, os, hc, hl, hcr, rfl⟩ := enter_inv hs
    -- The lock was free, so nobody else is inside.
    refine h.update (c := c) rfl (fun d hd => ?_) ?_
    · rw [hl]
      cases phase.inLock <;> simp [setConn, hd.symm]
    · cases phase.inLock <;> simp [setConn]
  | write c ok =>
    cases ok with
    | true =>
      obtain ⟨conn, response, bytes, hc, hr, -, rfl⟩ := write_inv hs
      exact h.leave hc (Phase.inLock_reply hr).1
    | false =>
      obtain ⟨conn, response, hc, hr, rfl⟩ := failedWrite_inv hs
      exact h.leave hc (Phase.inLock_reply hr).2

/-! ### At rest -/

/-- A thread that waits for its client or has ended, or that panics when it goes on. -/
inductive Rests (s : Daemon) (conn : Conn) : Prop where
  | unasked (hp : conn.phase = .reading) (hi : conn.inbox = [])
  | attached {name : SessionName} (hp : conn.phase = .looping name) (hi : conn.inbox = [])
  | ended (hp : conn.phase = .done)
  | exhausted {name : SessionName} {request : Request} {hosted : HostedSession} (hp : conn.phase = .serving name request)
      (hs : s.sessions[name.asStr]? = some hosted) (he : hosted.Exhausts request)

/-- No thread can go on with what it has. -/
def Stuck (s : Daemon) : Prop := ∀ a : Action, a.Own → s.step a = none

theorem Stuck.reply (h : s.Stuck) (hc : s.conns c = some conn) : conn.phase.reply = none := by
  cases hr : conn.phase.reply with
  | none => rfl
  | some response =>
    have hs := h (.write c false) trivial
    simp [step, hc, hr] at hs

theorem Stuck.lock (h : s.Stuck) (hl : s.Locked) : s.lock = none := by
  cases hlock : s.lock with
  | none => rfl
  | some c =>
    obtain ⟨conn, hc, hin⟩ := (hl c).mp hlock
    have hr := h.reply hc
    cases hp : conn.phase with
    | replying | responding | detaching =>
      rw [hp] at hr
      cases hr
    | reading | dispatching | attaching | greeting | looping | serving | leaving | done =>
      rw [hp] at hin
      cases hin

theorem Stuck.critical (h : s.Stuck) (hl : s.Locked) (hc : s.conns c = some conn) : s.critical conn.phase = none := by
  cases hcr : s.critical conn.phase with
  | none => rfl
  | some after =>
    have hs := h (.enter c) trivial
    simp [step, hc, h.lock hl, hcr] at hs

theorem Stuck.inbox (h : s.Stuck) (hc : s.conns c = some conn)
    (hp : ∀ request, (conn.phase.afterRead request).isSome) : conn.inbox = [] := by
  cases hi : conn.inbox with
  | nil => rfl
  | cons request inbox =>
    obtain ⟨phase, ha⟩ := Option.isSome_iff_exists.mp (hp request)
    have hs := h (.read c true) rfl
    simp [step, hc, hi, ha] at hs

/-- Threads that can take no step are not waiting for the lock or for each other. -/
theorem Stuck.rests (h : s.Stuck) (hl : s.Locked) (ht : s.Tended) (hc : s.conns c = some conn) : s.Rests conn := by
  have hreply := h.reply hc
  have hcritical := h.critical hl hc
  have hinbox := h.inbox hc
  cases hp : conn.phase with
  | reading =>
    refine .unasked hp (hinbox fun request => ?_)
    rw [hp]
    cases request <;> rfl
  | looping name =>
    refine .attached hp (hinbox fun request => ?_)
    rw [hp]
    rfl
  | done => exact .ended hp
  | serving name request =>
    rw [hp] at hcritical
    simp only [Daemon.critical] at hcritical
    split at hcritical
    · cases hcritical
    · next hosted hs =>
      split at hcritical
      · cases hcritical
      · cases hr : hosted.respond request s.os with
        -- Serving panics only where a split finds no identifier for its pane.
        | none => exact .exhausted hp hs ((ht _ _ hs).exhausts hr)
        | some served =>
          obtain ⟨reply, hosted', os⟩ := served
          rw [hr] at hcritical
          cases reply <;> cases hcritical
  | dispatching request =>
    rw [hp] at hcritical
    cases hcritical
  | attaching name =>
    rw [hp] at hcritical
    simp only [Daemon.critical] at hcritical
    split at hcritical
    · cases hcritical
    · split at hcritical <;> cases hcritical
  | leaving name =>
    rw [hp] at hcritical
    simp only [Daemon.critical] at hcritical
    split at hcritical <;> cases hcritical
  -- A thread with a response could write it, or fail to.
  | replying | greeting | responding | detaching =>
    rw [hp] at hreply
    cases hreply

/-! ### Runs -/

theorem sum_takes (c : ConnId) (as : List Action) : (as.map (takes c)).sum = (as.filter (·.thread = some c)).length := by
  induction as with
  | nil => rfl
  | cons a as ih =>
    by_cases ha : a.thread = some c
    · simp [takes, ha, ih, Nat.add_comm]
    · simp [takes, ha, ih]

theorem sum_brings (c : ConnId) (as : List Action) : (as.map (brings c)).sum = 3 * (sentBy c as).length := by
  induction as with
  | nil => rfl
  | cons a as ih =>
    rw [List.map_cons, List.sum_cons, ih]
    cases a with
    | send d request =>
      by_cases hd : d = c
      · simp [brings, sentBy, hd]
        omega
      · simp [brings, sentBy, hd]
    | accept | read | enter | write => simp [brings, sentBy]

theorem run_work {os : Os} (hr : Machine.run step (start os) as = some s) (c : ConnId) :
    (as.filter (·.thread = some c)).length + s.work c ≤ 3 * (sentBy c as).length + 2 := by
  have hpaid := Machine.run_potential (fun s a t hs => step_work (s := s) (t := t) (a := a) hs c) hr
  rw [sum_takes, sum_brings] at hpaid
  have hstart : (start os).work c = 2 := rfl
  omega

/-- Only finitely many connections have been accepted. -/
def Within (cs : Finset ConnId) (s : Daemon) : Prop := ∀ c ∉ cs, s.conns c = none

theorem exists_within {os : Os} (hr : Machine.run step (start os) as = some s) : ∃ cs, Within cs s := by
  refine Machine.run_invariant (I := fun s => ∃ cs, Within cs s) ?_ ⟨∅, fun _ _ => rfl⟩ hr
  rintro s a t ⟨cs, hcs⟩ hs
  refine ⟨insert a.conn cs, fun c hc => ?_⟩
  rw [Finset.mem_insert, not_or] at hc
  rw [conns_of_ne hs (Ne.symm hc.1)]
  exact hcs c hc.2

/-- A step of a thread lowers the work that all threads have to do. -/
theorem Within.lower {cs : Finset ConnId} (h : Within cs s) (ha : a.thread ≠ none) (hs : s.step a = some t) :
    Within cs t ∧ ∑ c ∈ cs, t.work c < ∑ c ∈ cs, s.work c := by
  obtain ⟨c, hc⟩ := Option.ne_none_iff_exists'.mp ha
  have hconn : a.conn = c := by
    cases a with
    | accept | send => cases hc
    | read | enter | write => exact Option.some.inj hc
  have hbrings : ∀ d, brings d a = 0 := by
    cases a with
    | accept | send => cases hc
    | read | enter | write => exact fun _ => rfl
  have hmem : c ∈ cs := by
    by_contra hout
    obtain ⟨conn, hlive⟩ := conns_of_thread hs hc
    cases (h c hout).symm.trans hlive
  refine ⟨fun d hd => ?_, Finset.sum_lt_sum (fun d _ => ?_) ⟨c, hmem, ?_⟩⟩
  · rw [conns_of_ne hs (hconn ▸ fun he => hd (he ▸ hmem))]
    exact h d hd
  · have hstep := step_work hs d
    rw [hbrings] at hstep
    omega
  · have hstep := step_work hs c
    rw [hbrings, takes, if_pos hc] at hstep
    omega

/-- However the threads are scheduled, each takes at most three steps for a request that its client sends, and two more,
    so that all of them come to rest, without a client hanging up; and when none can go on, the sessions are free, each
    thread waits for its client or has ended, unless it is about to panic for want of a pane identifier, and the clients
    that wait at an attachment have got an answer to every request they have sent. -/
theorem comes_to_rest {os : Os} (hr : Machine.run step (start os) as = some s) :
    (∀ c, (as.filter (·.thread = some c)).length ≤ 3 * (sentBy c as).length + 2) ∧
    (∃ bs t, (∀ b ∈ bs, b.Own) ∧ Machine.run step s bs = some t ∧ t.Stuck) ∧
    (s.Stuck → s.lock = none ∧ ∀ c conn, s.conns c = some conn → s.Rests conn ∧
      ∀ name, conn.phase = .looping name → conn.outbox.length = (sentBy c as).length) := by
  refine ⟨fun c => ?_, ?_, fun hstuck => ?_⟩
  · have hwork := run_work hr c
    omega
  · obtain ⟨cs, hcs⟩ := exists_within hr
    exact Machine.exists_run_stuck (I := Within cs) (Φ := fun s => ∑ c ∈ cs, s.work c) (fun _ _ _ h ha hs => h.lower ha.thread hs) hcs
  · have hlocked : s.Locked := Machine.run_invariant (fun _ _ _ h hs => h.step hs) (fun c => by simp [start]) hr
    have htended : s.Tended := Machine.run_invariant (fun _ _ _ h hs => h.step hs) (fun name hosted hf => by simp [start] at hf) hr
    obtain ⟨u, -, hlin⟩ := run_linearized hr
    refine ⟨hstuck.lock hlocked, fun c conn hc => ⟨hstuck.rests hlocked htended hc, fun name hp => ?_⟩⟩
    obtain ⟨-, -, hasked, unwritten, hanswered, hunwritten⟩ := hlin.served c conn hc
    rw [hp] at hasked hunwritten
    have hempty : conn.inbox = [] := hstuck.inbox hc fun request => by
      rw [hp]
      rfl
    have hall : unwritten = [] := hunwritten
    rw [hempty, List.append_nil] at hasked
    have hcalls := congrArg List.length hasked
    have hanswers := congrArg List.length hanswered
    simp only [hall, List.append_nil, List.length_map] at hanswers
    simp only [Phase.request, Option.toList, List.append_nil, List.length_map] at hcalls
    omega

/-- Threads that wait for their clients, or have ended, can take no step. -/
theorem stuck_of_waiting (h : ∀ c conn, s.conns c = some conn →
    conn.inbox = [] ∧ (conn.phase = .reading ∨ (∃ name, conn.phase = .looping name) ∨ conn.phase = .done)) : s.Stuck := by
  intro a ha
  cases hconn : s.conns a.conn with
  | none =>
    cases a with
    | accept | send => cases ha
    | read c ok =>
      cases ha
      simp only [step, show s.conns c = none from hconn, Option.bind_eq_bind, Option.bind_none]
    | enter c => simp only [step, show s.conns c = none from hconn, Option.bind_eq_bind, Option.bind_none]
    | write c ok =>
      cases ok <;> simp only [step, show s.conns c = none from hconn, Option.bind_eq_bind, Option.bind_none]
  | some conn =>
    obtain ⟨hinbox, hwaits⟩ := h _ _ hconn
    have hreply : conn.phase.reply = none := by
      rcases hwaits with hp | ⟨name, hp⟩ | hp <;> rw [hp] <;> rfl
    have hcritical : s.critical conn.phase = none := by
      rcases hwaits with hp | ⟨name, hp⟩ | hp <;> rw [hp] <;> rfl
    cases a with
    | accept | send => cases ha
    | read c ok =>
      cases ha
      simp only [step, show s.conns c = some conn from hconn, Option.bind_eq_bind, Option.bind_some, hinbox]
    | enter c =>
      simp only [step, show s.conns c = some conn from hconn, Option.bind_eq_bind, Option.bind_some, hcritical,
        Option.bind_none, ite_self]
    | write c ok =>
      cases ok <;> simp only [step, show s.conns c = some conn from hconn, Option.bind_eq_bind, Option.bind_some, hreply,
        Option.bind_none]

/-- A client that has attached and typed is waited for, and has got both answers. -/
theorem comes_to_rest_visit : ∃ s conn, Machine.run step (start ⟨0, [], []⟩) visit = some s ∧ s.Stuck ∧ s.lock = none ∧
    s.conns 1 = some conn ∧ conn.phase = .looping .work ∧ conn.outbox.length = 2 := by
  obtain ⟨s, hs, hconn⟩ : ∃ s, Machine.run step (start ⟨0, [], []⟩) visit = some s ∧
      (s.conns 0).map (fun conn => (conn.phase, conn.inbox)) = some (.done, []) ∧
      (s.conns 1).map (fun conn => (conn.phase, conn.inbox)) = some (.looping .work, []) :=
    ⟨_, rfl, by decide +kernel⟩
  obtain ⟨hfirst, hsecond⟩ := hconn
  obtain ⟨conn₀, hconn₀, hdone⟩ := Option.map_eq_some_iff.mp hfirst
  obtain ⟨conn₁, hconn₁, hlooping⟩ := Option.map_eq_some_iff.mp hsecond
  obtain ⟨hphase₀, hinbox₀⟩ := Prod.mk.inj hdone
  obtain ⟨hphase₁, hinbox₁⟩ := Prod.mk.inj hlooping
  have hstuck : s.Stuck := stuck_of_waiting fun c conn hc => by
    by_cases hzero : c = 0
    · obtain rfl : conn = conn₀ := Option.some.inj ((hzero ▸ hc).symm.trans hconn₀)
      exact ⟨hinbox₀, Or.inr (Or.inr hphase₀)⟩
    · by_cases hone : c = 1
      · obtain rfl : conn = conn₁ := Option.some.inj ((hone ▸ hc).symm.trans hconn₁)
        exact ⟨hinbox₁, Or.inr (Or.inl ⟨_, hphase₁⟩)⟩
      · have hothers : ∀ a ∈ visit, a.conn = 0 ∨ a.conn = 1 := by decide
        have hnone : s.conns c = none := run_conns_of_ne hs fun a ha he => by
          rcases hothers a ha with h | h
          · exact hzero (he ▸ h)
          · exact hone (he ▸ h)
        cases hc.symm.trans hnone
  obtain ⟨-, -, hrest⟩ := comes_to_rest hs
  obtain ⟨hlock, hrests⟩ := hrest hstuck
  exact ⟨s, conn₁, hs, hstuck, hlock, hconn₁, hphase₁, (hrests 1 conn₁ hconn₁).2 _ hphase₁⟩

end Daemon

end NovaMux

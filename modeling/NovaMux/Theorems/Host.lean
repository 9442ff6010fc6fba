import NovaMux.Runtime.Host
import NovaMux.Theorems.DaemonSteps
import NovaMux.Theorems.Endpoints
import NovaMux.Theorems.Progress

/-! One service for all clients. As long as no recovery of a stale socket is overtaken, a daemon that holds the endpoint
    gets every connection that is made, and it keeps its sessions: a client that connects later finds what earlier ones
    have created. -/

namespace NovaMux

open Std Machine

/-! ### A session and its name -/

namespace HostedSession

variable {hosted hosted' : HostedSession} {os os' : Os} {result : Except ServiceError Unit}

theorem resize_name {cols rows : UInt16} (h : hosted.resize cols rows os = (result, hosted', os')) :
    hosted'.session.name = hosted.session.name := by
  obtain ⟨outcome, panes, rfl, -, -⟩ := resize_inv h
  rfl

theorem command_name {code : UInt8} (h : hosted.command code os = some (result, hosted', os')) :
    hosted'.session.name = hosted.session.name := by
  have split : ∀ {direction : SplitDirection}, hosted.split direction os = some (result, hosted', os') →
      hosted'.session.name = hosted.session.name := fun h => by
    obtain ⟨id, candidate, hs, ⟨error, -, -, rfl⟩ | ⟨removed, panes, os₁, -, hr⟩⟩ := split_inv h
    · rfl
    · rw [resize_name hr]
      simp only [Session.splitFocused, Option.bind_eq_bind, Option.bind_eq_some_iff, Option.some.injEq, Prod.mk.injEq] at hs
      obtain ⟨nextId, -, -, rfl⟩ := hs
      rfl
  unfold HostedSession.command at h
  split at h
  · exact split h
  · exact split h
  · obtain ⟨session, hf, h⟩ := Option.bind_eq_some_iff.mp h
    obtain ⟨focused, -, rfl⟩ := Session.focusNext_inv hf
    cases h
    rfl
  · rcases close_inv h with ⟨-, -, rfl, -⟩ | ⟨session, outcome, panes, os₁, hs, -, rfl, -⟩
    · rfl
    · rcases Session.closeFocused_inv hs with ⟨hf, -⟩ | ⟨-, -, -, -, -, -, -, -, rfl⟩
      · cases hf
      · rfl
  · cases h
    rfl

/-- No request gives a session another name. -/
theorem respond_name {request : Request} {reply : Except ServiceError Response}
    (hr : hosted.respond request os = some (reply, hosted', os')) : hosted'.session.name = hosted.session.name := by
  cases request with
  | input bytes =>
    have he : (hosted.input bytes os).2.1 = hosted' := by rw [← thenSnapshot_hosted, Option.some.inj hr]
    rw [← he]
    unfold HostedSession.input
    split
    · rfl
    · split <;> rfl
  | resize cols rows =>
    have he : (hosted.resize cols rows os).2.1 = hosted' := by rw [← thenSnapshot_hosted, Option.some.inj hr]
    rw [← he]
    exact resize_name rfl
  | command code =>
    obtain ⟨⟨result, hosted₁, os₁⟩, hc, he⟩ := Option.map_eq_some_iff.mp hr
    have he : hosted₁ = hosted' := (thenSnapshot_hosted _).symm.trans (congrArg (·.2.1) he)
    rw [← he]
    exact command_name hc
  | create | list | attach | detach | ping | snapshot =>
    cases hr
    rfl

/-- The responses of an attachment, once it is confirmed. -/
def Streamed : Response → Prop
  | .screen _ | .error _ _ => True
  | _ => False

theorem snapshot_streamed {response : Response} (hosted : HostedSession) (os : Os)
    (h : (hosted.snapshot os).1 = .ok response) : Streamed response := by
  simp only [snapshot] at h
  split at h
  · cases h
  · cases h
    trivial

theorem respond_streamed {request : Request} {response : Response}
    (hr : hosted.respond request os = some (.ok response, hosted', os')) : Streamed response := by
  have after : ∀ r : Except ServiceError Unit × HostedSession × Os, (thenSnapshot r).1 = .ok response → Streamed response := by
    rintro ⟨error | ⟨⟩, hosted, os⟩ h
    · cases h
    · exact snapshot_streamed hosted os h
  cases request with
  | snapshot => exact snapshot_streamed hosted os (congrArg Prod.fst (Option.some.inj hr))
  | input bytes => exact after (hosted.input bytes os) (congrArg Prod.fst (Option.some.inj hr))
  | resize cols rows => exact after (hosted.resize cols rows os) (congrArg Prod.fst (Option.some.inj hr))
  | command code =>
    obtain ⟨r, -, he⟩ := Option.map_eq_some_iff.mp hr
    exact after r (congrArg Prod.fst he)
  | create | list | attach | detach | ping =>
    cases hr
    trivial

end HostedSession

namespace Daemon

variable {s t : Daemon} {a : Action}

theorem get_insert_isSome {sessions : Sessions} {key key' : String} {hosted : HostedSession} (h : sessions[key]?.isSome) :
    (sessions.insert key' hosted)[key]?.isSome := by
  rw [ExtTreeMap.getElem?_insert]
  split
  · rfl
  · exact h

/-- A daemon never drops a session. -/
theorem step_keeps {key : String} (hs : s.step a = some t) (h : s.sessions[key]?.isSome) : t.sessions[key]?.isSome := by
  rcases step_sessions hs with hsame | ⟨c, phase, phase', os, -, -, hcr⟩
  · exact hsame ▸ h
  · obtain ⟨sessions, hsessions⟩ : ∃ sessions, t.sessions = sessions := ⟨_, rfl⟩
    rw [hsessions] at hcr ⊢
    cases critical_inv hcr with
    | dispatched request =>
      rcases dispatch_sessions s.sessions request s.os with hsame | ⟨name, hosted, os', -, -, hnew⟩
      · rw [hsame]
        exact h
      · rw [hnew]
        exact get_insert_isSome h
    | unknown | refused | disappeared | detached | gone => exact h
    | attached | released | answered => exact get_insert_isSome h

/-- Every session is kept under its name. -/
def Keyed (s : Daemon) : Prop := s.Every fun key hosted => hosted.session.name.asStr = key

theorem Keyed.step (h : s.Keyed) (hs : s.step a = some t) : t.Keyed :=
  Every.step (fun _ _ _ _ hc => congrArg SessionName.asStr (create_name hc)) (fun _ _ _ h => h)
    (fun _ _ _ _ _ _ _ h hr => (congrArg SessionName.asStr (HostedSession.respond_name hr)).trans h) h hs

/-- Every response to a connection, written or about to be, satisfies `R`. -/
def Tells (R : Response → Prop) (s : Daemon) (c : ConnId) : Prop := ∀ conn, s.conns c = some conn →
  (∀ response ∈ conn.outbox, R response) ∧ ∀ response, conn.phase.reply = some response → R response

variable {R : Response → Prop} {c : ConnId} {conn : Conn}

theorem Tells.goes (h : Tells R s c) (hc : s.conns c = some conn) {conn' : Conn} {d : Daemon}
    (hout : ∀ response ∈ conn'.outbox, response ∈ conn.outbox ∨ conn.phase.reply = some response)
    (hreply : ∀ response, conn'.phase.reply = some response → R response) : Tells R (d.setConn c conn') c := by
  intro conn'' hc''
  rw [conns_setConn, if_pos rfl, Option.some.injEq] at hc''
  subst hc''
  obtain ⟨hold, hcurrent⟩ := h conn hc
  exact ⟨fun response hr => (hout response hr).elim (hold response) (hcurrent response), hreply⟩

theorem reply_afterRead {phase phase' : Phase} {request : Request} (h : phase.afterRead request = some phase') :
    phase'.reply = none := by
  cases phase with
  | reading => cases request <;> cases h <;> rfl
  | looping name =>
    cases h
    rfl
  | dispatching | attaching | replying | greeting | serving | responding | detaching | leaving | done => cases h

theorem reply_afterFailedRead {phase phase' : Phase} (h : phase.afterFailedRead = some phase') : phase'.reply = none := by
  cases phase with
  | reading | looping =>
    cases h
    rfl
  | dispatching | attaching | replying | greeting | serving | responding | detaching | leaving | done => cases h

theorem reply_afterWrite (phase : Phase) : phase.afterWrite.reply = none ∧ phase.afterFailedWrite.reply = none := by
  cases phase <;> exact ⟨rfl, rfl⟩

/-- It is enough that what a thread comes to with the sessions locked satisfies `R`. -/
theorem Tells.step (h : Tells R s c) (hs : s.step a = some t)
    (henter : ∀ (conn : Conn) phase sessions os, a = .enter c → s.critical conn.phase = some (phase, sessions, os) →
      ∀ response, phase.reply = some response → R response) : Tells R t c := by
  by_cases hac : a.conn = c
  · subst hac
    cases a with
    | accept c =>
      obtain ⟨-, rfl⟩ := accept_inv hs
      intro conn hc
      simp only [Action.conn, conns_setConn, if_true, Option.some.injEq] at hc
      subst hc
      exact ⟨by simp, by simp [Phase.reply]⟩
    | send c request =>
      obtain ⟨conn, hc, rfl⟩ := send_inv hs
      exact h.goes hc (fun _ => Or.inl) (h conn hc).2
    | read c ok =>
      cases ok with
      | true =>
        obtain ⟨conn, request, inbox, phase, hc, -, hp, rfl⟩ := read_inv hs
        exact h.goes hc (fun _ => Or.inl) fun response hr => by simp [reply_afterRead hp] at hr
      | false =>
        obtain ⟨conn, phase, hc, hp, rfl⟩ := failedRead_inv hs
        exact h.goes hc (fun _ => Or.inl) fun response hr => by simp [reply_afterFailedRead hp] at hr
    -- Only here does a thread come to a response.
    | enter c =>
      obtain ⟨conn, phase, sessions, os, hc, -, hcr, rfl⟩ := enter_inv hs
      exact h.goes hc (fun _ => Or.inl) (henter conn phase sessions os rfl hcr)
    | write c ok =>
      cases ok with
      | true =>
        obtain ⟨conn, response, bytes, hc, hr, -, rfl⟩ := write_inv hs
        refine h.goes hc (fun other ho => ?_) fun other ho => by simp [(reply_afterWrite _).1] at ho
        rcases List.mem_append.mp ho with hin | hlast
        · exact Or.inl hin
        · exact Or.inr (by rw [hr, List.mem_singleton.mp hlast])
      | false =>
        obtain ⟨conn, response, hc, hr, rfl⟩ := failedWrite_inv hs
        exact h.goes hc (fun _ => Or.inl) fun other ho => by simp [(reply_afterWrite _).2] at ho
  -- Other connections do not write here.
  · unfold Tells
    rw [conns_of_ne hs hac]
    exact h

/-- A list that includes the name of a session. -/
def Includes (name : SessionName) (response : Response) : Prop :=
  ∀ infos, response = .sessions infos → name ∈ infos.map SessionInfo.name

/-- A list has the name of every session there is. -/
theorem critical_includes {name : SessionName} (hk : s.Keyed) (h : s.sessions[name.asStr]?.isSome) {phase phase' : Phase}
    {sessions : Sessions} {os : Os} (hcr : s.critical phase = some (phase', sessions, os)) {response : Response}
    (hr : phase'.reply = some response) : Includes name response := by
  rintro infos rfl
  cases critical_inv hcr with
  | dispatched request =>
    have hdispatch : (dispatch s.sessions request s.os).1 = .sessions infos := Option.some.inj hr
    cases request with
    | list =>
      obtain ⟨hosted, hosted_eq⟩ := Option.isSome_iff_exists.mp h
      cases hdispatch
      rw [List.map_map, List.mem_map]
      exact ⟨hosted, mem_values.mpr ⟨_, hosted_eq⟩, SessionName.eq_of_asStr (hk _ _ hosted_eq)⟩
    | create name =>
      simp only [dispatch] at hdispatch
      split at hdispatch
      · cases hdispatch
      · split at hdispatch
        · cases hdispatch
        · split at hdispatch <;> cases hdispatch
    | attach | detach | ping | input | resize | command | snapshot => cases hdispatch
  | answered _ _ hrespond hp =>
    rcases hp with ⟨response, rfl, rfl⟩ | ⟨error, -, rfl⟩
    · cases hr
      exact absurd (HostedSession.respond_streamed hrespond) id
    · cases hr
  | unknown | refused | attached | disappeared | detached | gone | released => cases hr

end Daemon

namespace RuntimeDir

variable {n : Nat} {s t : RuntimeDir n} {a : Action n} {i : Fin n} {ino identity : Nat}

/-- The process that takes an action. -/
def Action.process : Action n → Fin n
  | .bind i | .secure i _ | .connect i | .lstat i | .unlink i _ | .stop i | .exit i => i

/-- Whether a process is made to give up its endpoint. -/
def Ends (i : Fin n) (a : Action n) : Prop := a = .stop i ∨ a = .exit i

/-- An action moves on one process. -/
theorem step_starter (hs : s.step a = some t) (hi : i ≠ a.process) : t.starter i = s.starter i := by
  have hmoved : ∃ p, t.starter = (s.move a.process p).starter := by
    cases a with
    | exit j =>
      cases hs
      exact ⟨_, rfl⟩
    | secure j ok | unlink j ok =>
      cases ok
      all_goals
        simp only [step] at hs
        split at hs <;> cases hs <;> exact ⟨_, rfl⟩
    | connect j =>
      simp only [step] at hs
      split at hs
      · split at hs <;> cases hs <;> exact ⟨_, rfl⟩
      · cases hs
    | lstat j =>
      simp only [step] at hs
      split at hs
      case h_1 | h_5 => split at hs <;> cases hs <;> exact ⟨_, rfl⟩
      all_goals cases hs <;> exact ⟨_, rfl⟩
    | bind j | stop j =>
      simp only [step] at hs
      split at hs <;> cases hs <;> exact ⟨_, rfl⟩
  obtain ⟨p, hp⟩ := hmoved
  rw [hp, starter_move, if_neg hi]

/-- A daemon serves until it ends. -/
theorem serving_step (hi : s.starter i = .serving ino identity) (hs : s.step a = some t) (ha : ¬Ends i a) :
    t.starter i = .serving ino identity := by
  by_cases hp : i = a.process
  · subst hp
    cases a with
    | stop j => exact absurd (Or.inl rfl) ha
    | exit j => exact absurd (Or.inr rfl) ha
    | secure j ok | unlink j ok => cases ok <;> simp [step, show s.starter j = _ from hi] at hs
    | bind j | connect j | lstat j => simp [step, show s.starter j = _ from hi] at hs
  · rw [step_starter hs hp, hi]

end RuntimeDir

namespace Host

variable {n euid : Nat} {control : Option Metadata} {os : Fin n → Os} {s t u : Host n} {a : Action n} {i j : Fin n}
  {c : ConnId} {as bs : List (Action n)} {ino identity : Nat}

/-! ### What an action does -/

theorem endpoint_inv {b : RuntimeDir.Action n} (hs : s.step (.endpoint b) = some t) :
    ∃ dir, s.dir.step b = some dir ∧ t = { s with dir } := by
  obtain ⟨dir, hb, hs⟩ := Option.bind_eq_some_iff.mp hs
  exact ⟨dir, hb, (Option.some.inj hs).symm⟩

theorem connect_inv (hs : s.step (.connect c) = some t) :
    ∃ i, s.reached = some i ∧ s.peer c = none ∧ t = { s with peer := fun d => if d = c then some i else s.peer d } := by
  obtain ⟨i, hi, hs⟩ := Option.bind_eq_some_iff.mp hs
  split at hs
  · next hnew => exact ⟨i, hi, hnew, (Option.some.inj hs).symm⟩
  · cases hs

theorem serve_inv {d : Daemon.Action} (hs : s.step (.serve i d) = some t) :
    ∃ daemon, s.lets i d = true ∧ s.peer d.conn = some i ∧ (s.daemon i).step d = some daemon ∧
      t = { s with daemon := fun j => if j = i then daemon else s.daemon j } := by
  simp only [step] at hs
  split at hs
  · next h =>
    obtain ⟨daemon, hd, hs⟩ := Option.bind_eq_some_iff.mp hs
    exact ⟨daemon, h.1, h.2, hd, (Option.some.inj hs).symm⟩
  · cases hs

/-! ### One endpoint -/

/-- A process recovers the path only while nobody holds a socket bound after its failed connection. -/
def Unraced (s : Host n) (a : Action n) : Prop := ∀ b, a = .endpoint b → s.dir.Unraced b

theorem single_step (h : s.dir.Single) (hs : s.step a = some t) (hu : s.Unraced a) : t.dir.Single := by
  cases a with
  | endpoint b =>
    obtain ⟨dir, hb, rfl⟩ := endpoint_inv hs
    exact h.step ((h.keepsLive_iff hb).mpr (hu b rfl)) hb
  | connect c =>
    obtain ⟨i, -, -, rfl⟩ := connect_inv hs
    exact h
  | serve i d =>
    obtain ⟨daemon, -, -, -, rfl⟩ := serve_inv hs
    exact h

/-- Who connects while a daemon serves has reached it. -/
theorem reached_of_serving (h : s.dir.Single) (hi : s.dir.starter i = .serving ino identity) : s.reached = some i := by
  have hcontrol := h.named i ino (by rw [hi]; rfl)
  have hlistens : (s.dir.starter i).listener = some ino := by
    rw [hi]
    rfl
  rw [reached, hcontrol, Option.bind_eq_bind, Option.bind_some]
  cases hfound : (List.finRange n).find? fun j => (s.dir.starter j).listener = some ino with
  | none =>
    have hnone := List.find?_eq_none.mp hfound i (List.mem_finRange i)
    simp [hlistens] at hnone
  | some j =>
    have hj := List.find?_some hfound
    rw [h.distinct j i ino (of_decide_eq_true hj) hlistens]

theorem accepts_of_serving (h : s.dir.Single) (hi : s.dir.starter i = .serving ino identity) (hj : s.accepts j = true) :
    j = i := by
  have hholds : (s.dir.starter j).holds := by
    unfold accepts at hj
    split at hj
    · next hp =>
      rw [hp]
      rfl
    · cases hj
  exact h.atMostOne j i hholds (by rw [hi]; rfl)

/-! ### One daemon -/

/-- What holds in every state: sessions have their names, and a daemon only knows connections that have reached it. -/
structure Regular (s : Host n) : Prop where
  keyed : ∀ i, (s.daemon i).Keyed
  unknown : ∀ i c, s.peer c = none → (s.daemon i).conns c = none

theorem regular_start : (start n euid control os).Regular where
  keyed _ key hosted hf := by simp [start, Daemon.start] at hf
  unknown _ _ _ := rfl

theorem Regular.step (h : s.Regular) (hs : s.step a = some t) : t.Regular := by
  cases a with
  | endpoint b =>
    obtain ⟨dir, -, rfl⟩ := endpoint_inv hs
    exact ⟨h.keyed, h.unknown⟩
  | connect c =>
    obtain ⟨i, -, hnew, rfl⟩ := connect_inv hs
    refine ⟨h.keyed, fun j d hd => ?_⟩
    by_cases hdc : d = c
    · simp [hdc] at hd
    · exact h.unknown j d (by simpa [hdc] using hd)
  | serve i d =>
    obtain ⟨daemon, -, hpeer, hd, rfl⟩ := serve_inv hs
    refine ⟨fun j => ?_, fun j c hc => ?_⟩
    · by_cases hji : j = i
      · simpa [hji] using (h.keyed i).step hd
      · simpa [hji] using h.keyed j
    · by_cases hji : j = i
      · have hne : d.conn ≠ c := fun he => by
          rw [he] at hpeer
          cases hc.symm.trans hpeer
        simpa [hji, Daemon.conns_of_ne hd hne] using h.unknown i c hc
      · simpa [hji] using h.unknown j c hc

/-- What is the case from a state on in which a daemon serves. -/
structure Prevails (s : Host n) (i : Fin n) (ino identity : Nat) (u : Host n) : Prop where
  single : u.dir.Single
  regular : u.Regular
  serving : u.dir.starter i = .serving ino identity
  /-- New connections have reached it. -/
  peers : ∀ c, s.peer c = none → u.peer c = none ∨ u.peer c = some i
  sessions : ∀ key : String, (s.daemon i).sessions[key]?.isSome → (u.daemon i).sessions[key]?.isSome
  /-- New connections are told of the sessions there were. -/
  tells : ∀ c, s.peer c = none → ∀ name : SessionName, (s.daemon i).sessions[name.asStr]?.isSome →
    (u.daemon i).Tells (Daemon.Includes name) c

theorem Prevails.step (h : Prevails s i ino identity u) (hs : u.step a = some t) (hu : u.Unraced a)
    (ha : ∀ b, a = .endpoint b → ¬RuntimeDir.Ends i b) : Prevails s i ino identity t := by
  have hsingle := single_step h.single hs hu
  have hregular := h.regular.step hs
  cases a with
  | endpoint b =>
    obtain ⟨dir, hb, rfl⟩ := endpoint_inv hs
    exact ⟨hsingle, hregular, RuntimeDir.serving_step h.serving hb (ha b rfl), h.peers, h.sessions, h.tells⟩
  | connect c =>
    obtain ⟨j, hj, hnew, rfl⟩ := connect_inv hs
    rw [reached_of_serving h.single h.serving, Option.some.injEq] at hj
    subst hj
    refine ⟨hsingle, hregular, h.serving, fun d hd => ?_, h.sessions, h.tells⟩
    by_cases hdc : d = c
    · exact Or.inr (if_pos hdc)
    · simpa [hdc] using h.peers d hd
  | serve j d =>
    obtain ⟨daemon, -, -, hd, rfl⟩ := serve_inv hs
    by_cases hji : i = j
    · subst hji
      refine ⟨hsingle, hregular, h.serving, h.peers, fun key hkey => ?_, fun c hc name hname => ?_⟩
      · simpa using Daemon.step_keeps hd (h.sessions key hkey)
      · have htells : daemon.Tells (Daemon.Includes name) c :=
          (h.tells c hc name hname).step hd fun conn phase sessions os _ hcr response hr =>
            Daemon.critical_includes (h.regular.keyed i) (h.sessions _ hname) hcr hr
        simpa using htells
    · refine ⟨hsingle, hregular, h.serving, h.peers, fun key hkey => ?_, fun c hc name hname => ?_⟩
      · simpa [hji] using h.sessions key hkey
      · simpa [hji] using h.tells c hc name hname

/-- Only the daemon that serves accepts connections, and only it answers those made since. -/
def Exclusive (s : Host n) (i : Fin n) (a : Action n) : Prop := ∀ j d, a = .serve j d →
  ((∃ c, d = .accept c) → j = i) ∧ (s.peer d.conn = none → j = i)

theorem Prevails.exclusive (h : Prevails s i ino identity u) (hs : u.step a = some t) : Exclusive s i a := by
  rintro j d rfl
  obtain ⟨daemon, hlets, hpeer, -, -⟩ := serve_inv hs
  refine ⟨?_, fun hnew => ?_⟩
  · rintro ⟨c, rfl⟩
    exact accepts_of_serving h.single h.serving hlets
  · rcases h.peers _ hnew with hnone | hsome
    · cases hnone.symm.trans hpeer
    · exact (Option.some.inj (hsome.symm.trans hpeer)).symm

/-- As long as no recovery is overtaken and the process of a daemon that serves does not end, every connection that is made
    reaches this daemon, no other one accepts a connection or answers a new one, it keeps its sessions, and a client that
    connects now and asks for the list of sessions is told of all of them. -/
theorem one_service (hr : run step (start n euid control os) as = some s) (hi : s.dir.starter i = .serving ino identity)
    (ht : run step s bs = some t) (hunraced : Along step Unraced (start n euid control os) (as ++ bs))
    (hstays : ∀ b, .endpoint b ∈ bs → ¬RuntimeDir.Ends i b) :
    (∀ c, s.peer c = none → t.peer c = none ∨ t.peer c = some i) ∧
    Along step (fun _ a => Exclusive s i a) s bs ∧
    (∀ key : String, (s.daemon i).sessions[key]?.isSome → (t.daemon i).sessions[key]?.isSome) ∧
    ∀ c conn infos, s.peer c = none → (t.daemon i).conns c = some conn → .sessions infos ∈ conn.outbox →
      ∀ name : SessionName, (s.daemon i).sessions[name.asStr]?.isSome → name ∈ infos.map SessionInfo.name := by
  obtain ⟨hbefore, hafter⟩ := hunraced.append hr
  have hsingle : s.dir.Single := (hbefore.throughout (P := fun s => s.dir.Single) (I := fun _ => True)
    (fun _ _ _ _ _ => trivial) (fun _ _ _ _ h hs hu => single_step h hs hu) trivial RuntimeDir.single_start).last hr
  have hregular : s.Regular := run_invariant (fun _ _ _ h hs => h.step hs) regular_start hr
  have hstart : Prevails s i ino identity s := ⟨hsingle, hregular, hi, fun _ => Or.inl, fun _ => id, fun c hc name _ conn hconn => by
    cases (hregular.unknown i c hc).symm.trans hconn⟩
  have hkinds : Along step (fun u a => u.Unraced a ∧ ∀ b, a = .endpoint b → ¬RuntimeDir.Ends i b) s bs :=
    fun pre a post u he hu => ⟨hafter pre a post u he hu, fun b hb => hstays b (by simp [he, hb])⟩
  have hprevails : Throughout step (Prevails s i ino identity) s bs := hkinds.throughout (I := fun _ => True)
    (fun _ _ _ _ _ => trivial) (fun _ _ _ _ h hs hk => h.step hs hk.1 hk.2) trivial hstart
  have hlast := hprevails.last ht
  refine ⟨hlast.peers, hprevails.along ht fun _ _ _ h hs => h.exclusive hs, hlast.sessions, ?_⟩
  exact fun c conn infos hc hconn hin name hname => (hlast.tells c hc name hname conn hconn).1 _ hin infos rfl

/-- A daemon comes up. -/
def arrival (i : Fin n) : List (Action n) := [.endpoint (.bind i), .endpoint (.secure i true), .endpoint (.lstat i)]

/-- Another one finds it, and a client asks for its sessions. -/
def visit (i j : Fin n) (c : ConnId) : List (Action n) :=
  [.endpoint (.bind j), .endpoint (.connect j), .connect c, .serve i (.accept c), .serve i (.send c .list),
    .serve i (.read c true), .serve i (.enter c), .serve i (.write c true)]

theorem one_service_visit : ∃ s t : Host 2,
    run step (start 2 1000 none fun _ => ⟨0, [], []⟩) (arrival 0) = some s ∧ run step s (visit 0 1 6) = some t ∧
      t.peer 6 = some 0 ∧ Along step (fun _ a => Exclusive s 0 a) s (visit 0 1 6) := by
  obtain ⟨s, hs⟩ : ∃ s, run step (start 2 1000 none fun _ => ⟨0, [], []⟩) (arrival 0) = some s := ⟨_, rfl⟩
  obtain ⟨t, ht⟩ : ∃ t, run step s (visit 0 1 6) = some t := by
    cases hs
    exact ⟨_, rfl⟩
  have hi : s.dir.starter 0 = .serving 0 0 := by
    cases hs
    rfl
  have hunraced : Along step Unraced (start 2 1000 none fun _ => ⟨0, [], []⟩) (arrival 0 ++ visit 0 1 6) :=
    Along.of_forall fun s a ha b hb => by
      subst hb
      simp only [arrival, visit, List.cons_append, List.nil_append, List.mem_cons, List.not_mem_nil, or_false, reduceCtorEq,
        Action.endpoint.injEq] at ha
      intro i since he
      rcases ha with rfl | rfl | rfl | rfl | rfl <;> cases he
  have hstays : ∀ b, .endpoint b ∈ visit (0 : Fin 2) 1 6 → ¬RuntimeDir.Ends 0 b := fun b hb => by
    simp only [visit, List.mem_cons, List.not_mem_nil, or_false, reduceCtorEq, Action.endpoint.injEq] at hb
    rcases hb with rfl | rfl <;> rintro (h | h) <;> cases h
  obtain ⟨hpeers, hexclusive, -⟩ := one_service hs hi ht hunraced hstays
  refine ⟨s, t, hs, ht, (hpeers 6 ?_).resolve_left fun hnone => ?_, hexclusive⟩
  · cases hs
    rfl
  · cases hs
    cases ht
    cases hnone

end Host

end NovaMux

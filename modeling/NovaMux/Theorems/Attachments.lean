import NovaMux.Theorems.Reservations

/-! Attachments over whole runs of the daemon, in every interleaving of its threads and clients: who may act
    on a session, who clears a reservation, and when a reservation is cleared at all. -/

namespace NovaMux.Daemon

open Std Machine Reservation

variable {s t : Daemon} {a : Action} {c : ConnId}

/-- Connection `c` is between setting the flag of the session and clearing it. -/
def Holds (s : Daemon) (c : ConnId) (name : SessionName) : Prop :=
  ∃ phase, s.phaseOf c = some phase ∧ phase.holds = some name

theorem holder_eq_some {k : String} : s.view.holder c = some k ↔ ∃ name, s.Holds c name ∧ name.asStr = k := by
  simp only [view, Holds, phaseOf]
  cases s.conns c <;> simp

theorem inv_start (os : Os) : Reservation.Inv (start os).view where
  flagged := by
    intro c k h
    simp [view, Daemon.start] at h
  unique := by
    intro c d k h
    simp [view, Daemon.start] at h

theorem inv_run {os : Os} {as : List Action} (hr : run step (start os) as = some s) : Reservation.Inv s.view :=
  run_invariant (I := fun s => Reservation.Inv s.view) (fun _ _ _ h hs => h.moves (step_moves hs)) (inv_start os) hr

/-! ### Whether a reservation is cleared -/

/-- A session is reserved only while some running connection holds it. -/
def Released (s : Daemon) : Prop := ∀ k ∈ flags s.sessions, ∃ c name, s.Holds c name ∧ name.asStr = k

theorem released_iff : s.Released ↔ Served s.view := by
  simp only [Released, Served, holder_eq_some]
  rfl

/-- The write of the response to an attachment does not fail. -/
def GreetingWritten (s : Daemon) (a : Action) : Prop :=
  ∀ c name, a = .write c false → s.phaseOf c ≠ some (.greeting name)

theorem greetingWritten_iff : GreetingWritten s a ↔ ∀ c k, s.move a ≠ .abandon c k := by
  refine ⟨fun h c k => ?_, fun h c name he hp => ?_⟩
  · unfold move
    split
    · split
      · split
        · split <;> nofun
        · nofun
      · nofun
      · nofun
    · next d =>
      split
      · next name hp => exact absurd hp (h d name rfl)
      · nofun
    · nofun
  · subst he
    refine h c name.asStr ?_
    simp only [move, hp]

/-- In every state of a run a reserved session has a running holder exactly when no write of the response to
    an attachment fails in the run. -/
theorem released_throughout {os : Os} {as : List Action} (hr : run step (start os) as = some s) :
    Throughout step Released (start os) as ↔ Along step GreetingWritten (start os) as := by
  refine throughout_iff_along (I := fun s => Reservation.Inv s.view) (fun _ _ _ h hs => h.moves (step_moves hs))
    (fun s a t h hserved hs => ?_) (inv_start os) ?_ hr
  · rw [released_iff, greetingWritten_iff]
    exact h.served_iff (released_iff.mp hserved) (step_moves hs)
  · intro k h
    obtain ⟨hosted, hk, -⟩ := h
    simp [Daemon.start] at hk

/-- Connection 0 creates a session, and connection 1 is about to learn that it is attached to it. -/
def attachWork : List Action :=
  [.accept 0, .send 0 (.create .work), .read 0 true, .enter 0, .write 0 true,
    .accept 1, .send 1 (.attach .work), .read 1 true, .enter 1]

theorem released_throughout_attachment :
    Throughout step Released (start ⟨0, [], []⟩) (attachWork ++ [.write 1 true, .read 1 false, .enter 1]) := by
  have hsome : (run step (start ⟨0, [], []⟩) (attachWork ++ [.write 1 true, .read 1 false, .enter 1])).isSome := by
    decide +kernel
  obtain ⟨s, hr⟩ := Option.isSome_iff_exists.mp hsome
  refine (released_throughout hr).mpr (Along.of_forall fun t a ha c name he => ?_)
  rw [he] at ha
  simp [attachWork] at ha

/-- The session that a failed response to an attachment leaves behind is reserved by nobody. -/
theorem not_released_of_failed_greeting {os : Os} {as : List Action} {name : SessionName}
    (hr : run step (start os) as = some s) (hp : s.phaseOf c = some (.greeting name))
    (hs : s.step (.write c false) = some t) : ¬Released t := by
  rw [released_iff]
  refine (inv_run hr).not_served (c := c) (k := name.asStr) ?_
  have hmove : s.move (.write c false) = .abandon c name.asStr := by simp only [move, hp]
  rw [← hmove]
  exact step_moves hs

theorem released_fails :
    ∃ s, run step (start ⟨0, [], []⟩) (attachWork ++ [.write 1 false]) = some s ∧ ¬Released s := by
  have hphase : (run step (start ⟨0, [], []⟩) attachWork).bind
      (fun s => (s.step (.write 1 false)).bind fun _ => s.phaseOf 1) = some (.greeting .work) := by decide +kernel
  obtain ⟨s, hr, hs⟩ := Option.bind_eq_some_iff.mp hphase
  obtain ⟨t, hs, hp⟩ := Option.bind_eq_some_iff.mp hs
  exact ⟨t, run_append_eq_some.mpr ⟨s, hr, by rw [run_singleton, hs]⟩, not_released_of_failed_greeting hr hp hs⟩

/-! ### Who acts on a session -/

theorem dispatch_get {sessions : Sessions} {request : Request} {os : Os} {k : String} {hosted : HostedSession}
    (h : sessions[k]? = some hosted) : (dispatch sessions request os).2.1[k]? = some hosted := by
  rcases dispatch_sessions sessions request os with hsame | ⟨name, created, os', hnew, -, hinsert⟩
  · rwa [hsame]
  · rw [hinsert, ExtTreeMap.getElem?_insert, if_neg, h]
    intro he
    rw [Std.compare_eq_iff_eq.mp he, h] at hnew
    cases hnew

/-- A thread with the sessions locked sets or clears one flag, or answers a request of the session it has
    reserved; it leaves every other session as it is. -/
theorem critical_get {phase phase' : Phase} {sessions : Sessions} {os : Os} {k : String} {hosted : HostedSession}
    (h : s.critical phase = some (phase', sessions, os)) (hk : s.sessions[k]? = some hosted) :
    (∃ attached, sessions[k]? = some { hosted with attached }) ∨
      ∃ name request, phase = .serving name request ∧ name.asStr = k := by
  have same : ∀ sessions' : Sessions, sessions'[k]? = some hosted →
      ∃ attached, sessions'[k]? = some { hosted with attached } := fun _ h => ⟨hosted.attached, h⟩
  have flag : ∀ (name : SessionName) (hosted' : HostedSession) (b : Bool), s.sessions[name.asStr]? = some hosted' →
      ∃ attached, (s.sessions.insert name.asStr { hosted' with attached := b })[k]? = some { hosted with attached } := by
    intro name hosted' b hs
    rw [ExtTreeMap.getElem?_insert]
    split
    · next he =>
      rw [← Std.compare_eq_iff_eq.mp he, hs] at hk
      exact ⟨b, by rw [Option.some.inj hk]⟩
    · exact same _ hk
  cases critical_inv h with
  | dispatched request => exact Or.inl (same _ (dispatch_get hk))
  | unknown hs => exact Or.inl (same _ hk)
  | refused hs ha => exact Or.inl (same _ hk)
  | @attached name hosted' hs ha => exact Or.inl (flag name hosted' true hs)
  | disappeared request hs => exact Or.inl (same _ hk)
  | detached hs => exact Or.inl (same _ hk)
  | @answered name request hosted' hosted'' reply phase' os hs hd hr hp =>
    by_cases he : name.asStr = k
    · exact Or.inr ⟨name, request, rfl, he⟩
    · refine Or.inl (same _ ?_)
      rw [ExtTreeMap.getElem?_insert, if_neg (mt Std.compare_eq_iff_eq.mp he), hk]
  | gone hs => exact Or.inl (same _ hk)
  | @released name hosted' hs => exact Or.inl (flag name hosted' false hs)

theorem step_get {k : String} {hosted : HostedSession} (h : s.step a = some t) (hk : s.sessions[k]? = some hosted) :
    (∃ attached, t.sessions[k]? = some { hosted with attached }) ∨
      ∃ c name request, a = .enter c ∧ s.phaseOf c = some (.serving name request) ∧ name.asStr = k := by
  rcases step_sessions h with ht | ⟨c, phase, phase', os, rfl, hp, hcr⟩
  · exact Or.inl ⟨hosted.attached, by rw [ht, hk]⟩
  · rcases critical_get hcr hk with hget | ⟨name, request, rfl, hname⟩
    · exact Or.inl hget
    · exact Or.inr ⟨c, name, request, rfl, hp, hname⟩

/-- A step that lowers a flag is the end of a call that holds the session. -/
theorem lowered {k : String} (h : s.step a = some t) (hk : k ∈ flags s.sessions) (hk' : k ∉ flags t.sessions) :
    ∃ c name, a = .enter c ∧ s.phaseOf c = some (.leaving name) ∧ name.asStr = k := by
  obtain ⟨c, hm, -⟩ := (step_moves h).lowered hk hk'
  unfold move at hm
  split at hm
  · next d =>
    split at hm
    · split at hm
      · split at hm <;> cases hm
      · cases hm
    · next name hp =>
      cases hm
      exact ⟨_, name, rfl, hp, rfl⟩
    · cases hm
  · split at hm <;> cases hm
  · cases hm

/-- An attachment to a session whose flag is set is refused. -/
theorem refused {name : SessionName} (h : s.step (.enter c) = some t) (hp : s.phaseOf c = some (.attaching name))
    (hk : name.asStr ∈ flags s.sessions) :
    t.sessions = s.sessions ∧
      t.phaseOf c = some (.replying (serviceError .conflict "session already has an attached client")) := by
  obtain ⟨conn, phase, sessions, os, hc, -, hcr, rfl⟩ := enter_inv h
  obtain ⟨hosted, hs, ha⟩ := hk
  rw [phaseOf_eq hc, Option.some.injEq] at hp
  simp only [critical, hp, hs, ha, if_true] at hcr
  cases hcr
  exact ⟨rfl, by simp [phaseOf]⟩

/-- A second attachment over an attached connection is refused as well. -/
theorem refused_attached {name other : SessionName} (h : s.step (.enter c) = some t)
    (hp : s.phaseOf c = some (.serving name (.attach other))) (hk : name.asStr ∈ flags s.sessions) :
    t.sessions = s.sessions ∧
      t.phaseOf c = some (.responding name (serviceError .conflict "invalid attached request")) := by
  obtain ⟨conn, phase, sessions, os, hc, -, hcr, rfl⟩ := enter_inv h
  obtain ⟨hosted, hs, ha⟩ := hk
  rw [phaseOf_eq hc, Option.some.injEq] at hp
  simp only [critical, hp, hs, reduceCtorEq, if_false, HostedSession.respond, Option.bind_eq_bind, Option.bind_some,
    Option.some.injEq, Prod.mk.injEq] at hcr
  obtain ⟨rfl, rfl, rfl⟩ := hcr
  refine ⟨ExtTreeMap.ext_getElem? fun k => ?_, by simp [phaseOf]⟩
  rw [sessions_setConn, ExtTreeMap.getElem?_insert]
  split
  · next he => rw [← Std.compare_eq_iff_eq.mp he, hs]
  · rfl

/-- What holds of the attachments in a state and of the steps from it. -/
structure Exclusive (s : Daemon) : Prop where
  /-- At most one connection has reserved a session, and the flag of the session is set. -/
  unique : ∀ c d name name', s.Holds c name → s.Holds d name' → name.asStr = name'.asStr → c = d
  flagged : ∀ c name, s.Holds c name → name.asStr ∈ flags s.sessions
  /-- A request is applied to a session by the connection that has reserved it. -/
  applied : ∀ c t name request, s.step (.enter c) = some t → s.phaseOf c = some (.serving name request) →
    s.Holds c name
  /-- No other step changes more of a session than its flag. -/
  changed : ∀ a t, s.step a = some t → ∀ k hosted, s.sessions[k]? = some hosted →
    (∃ attached, t.sessions[k]? = some { hosted with attached }) ∨
      ∃ c name request, a = .enter c ∧ s.phaseOf c = some (.serving name request) ∧ name.asStr = k
  /-- A flag is cleared by the connection that has reserved the session. -/
  cleared : ∀ a t, s.step a = some t → ∀ k ∈ flags s.sessions, k ∉ flags t.sessions →
    ∃ c name, a = .enter c ∧ s.Holds c name ∧ name.asStr = k
  /-- An attachment that finds the flag set is refused and changes nothing. -/
  refused : ∀ c t name, s.step (.enter c) = some t → s.phaseOf c = some (.attaching name) →
    name.asStr ∈ flags s.sessions → t.sessions = s.sessions ∧
      t.phaseOf c = some (.replying (serviceError .conflict "session already has an attached client"))
  refusedAttached : ∀ c t name other, s.step (.enter c) = some t → s.phaseOf c = some (.serving name (.attach other)) →
    t.sessions = s.sessions ∧
      t.phaseOf c = some (.responding name (serviceError .conflict "invalid attached request"))

/-- At any time a session has at most one attachment, and from the step in which connection `c` sets its flag
    until the flag is cleared nobody but `c` acts on the session or clears the flag. -/
theorem attachment_exclusive (os : Os) :
    (∀ as s, run step (start os) as = some s → Exclusive s) ∧
    (∀ pre s₁ a s₂ mid s₃ c k, run step (start os) pre = some s₁ → s₁.step a = some s₂ →
      k ∉ flags s₁.sessions → (∃ name, s₂.Holds c name ∧ name.asStr = k) → run step s₂ mid = some s₃ →
      Throughout step (fun s => k ∈ flags s.sessions) s₂ mid →
      (∀ d name, s₃.Holds d name → name.asStr = k → d = c) ∧
        ∀ b s₄, s₃.step b = some s₄ → k ∉ flags s₄.sessions → b = .enter c) := by
  refine ⟨fun as s hr => ?_, fun pre s₁ a s₂ mid s₃ c k hr₁ ha hk hc hr₂ hflag => ?_⟩
  · have inv := inv_run hr
    have holds : ∀ {c name}, s.Holds c name → s.view.holder c = some name.asStr := fun h => holder_eq_some.mpr ⟨_, h, rfl⟩
    refine ⟨fun c d name name' hc hd he => ?_, fun c name hc => inv.flagged c _ (holds hc), fun c t name request _ hp =>
      ⟨_, hp, rfl⟩, fun a t hs k hosted hk => step_get hs hk, fun a t hs k hk hk' => ?_, fun c t name hs hp hk =>
      refused hs hp hk, fun c t name other hs hp => ?_⟩
    · exact inv.unique c d _ (holds hc) (he ▸ holds hd)
    · obtain ⟨c, name, ha, hp, hname⟩ := lowered hs hk hk'
      exact ⟨c, name, ha, ⟨_, hp, rfl⟩, hname⟩
    · exact refused_attached hs hp (inv.flagged c _ (holds ⟨_, hp, rfl⟩))
  · have inv := (inv_run hr₁).moves (step_moves ha)
    have only : ∀ d, s₃.view.holder d = some k → d = c := by
      refine hflag.run_invariant (I := fun s => ∀ d, s.view.holder d = some k → d = c) (fun s a t hk h hs d hd => ?_)
        (fun d hd => inv.unique d c k hd (holder_eq_some.mpr hc)) hr₂
      -- Nobody acquires a flagged session.
      rcases (step_moves hs).obtained hd with hd | hm
      · exact h d hd
      · have hmoves := step_moves hs
        rw [hm] at hmoves
        exact absurd hk hmoves.1
    refine ⟨fun d name hd hname => only d (holder_eq_some.mpr ⟨name, hd, hname⟩), fun b s₄ hb hk' => ?_⟩
    obtain ⟨d, name, rfl, hp, hname⟩ := lowered hb (hflag.last hr₂) hk'
    rw [only d (holder_eq_some.mpr ⟨name, ⟨_, hp, rfl⟩, hname⟩)]

end NovaMux.Daemon

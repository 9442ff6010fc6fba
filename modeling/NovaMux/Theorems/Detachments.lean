import NovaMux.Theorems.Attachments

/-! Detaching and attaching again. A thread confirms a detachment before it locks the sessions once more to
    clear the reservation, so an attachment that gets the lock in between is still refused. -/

namespace NovaMux.Daemon

open Std Machine Reservation

variable {s t : Daemon} {a : Action} {c d : ConnId} {name : SessionName}

/-- A session is never removed. -/
theorem critical_mem {phase phase' : Phase} {sessions : Sessions} {os : Os} {k : String}
    (h : s.critical phase = some (phase', sessions, os)) (hk : k ∈ s.sessions) : k ∈ sessions := by
  have insert : ∀ (l : String) (hosted : HostedSession), k ∈ s.sessions.insert l hosted := fun l hosted =>
    ExtTreeMap.mem_insert.mpr (Or.inr hk)
  cases critical_inv h with
  | dispatched request =>
    rcases dispatch_sessions s.sessions request s.os with hsame | ⟨name, created, os', -, -, hinsert⟩
    · rwa [hsame]
    · rw [hinsert]
      exact insert _ _
  | unknown | refused | disappeared | detached | gone => exact hk
  | attached | answered | released => exact insert _ _

theorem step_mem {k : String} (h : s.step a = some t) (hk : k ∈ s.sessions) : k ∈ t.sessions := by
  rcases step_sessions h with ht | ⟨c, phase, phase', os, -, -, hcr⟩
  · rwa [ht]
  · exact critical_mem hcr hk

/-- A thread that is neither at a read nor at a write moves on only by locking the sessions. -/
theorem phaseOf_step {phase : Phase} (h : s.step a = some t) (hp : s.phaseOf c = some phase)
    (hread : ∀ request, phase.afterRead request = none) (hfail : phase.afterFailedRead = none)
    (hreply : phase.reply = none) : a = .enter c ∨ t.phaseOf c = some phase := by
  obtain ⟨conn, hc, rfl⟩ := Option.map_eq_some_iff.mp hp
  -- The connection of the step gets a new phase, all others keep theirs.
  have other : ∀ {u : Daemon} {d : ConnId} {conn' : Conn}, (∀ e, u.conns e = if e = d then some conn' else s.conns e) →
      (c = d → conn'.phase = conn.phase) → u.phaseOf c = some conn.phase := by
    intro u d conn' hu hsame
    rw [phaseOf, hu]
    split
    · next he => rw [Option.map_some, hsame he]
    · exact hp
  -- A step of the connection itself would have to be one that its phase does not take.
  have mine : ∀ {d : ConnId} {conn' : Conn}, s.conns d = some conn' → c = d → conn' = conn := by
    intro d conn' hd he
    subst he
    exact Option.some.inj (hd.symm.trans hc)
  cases a with
  | accept d =>
    obtain ⟨hd, rfl⟩ := accept_inv h
    refine Or.inr (other (d := d) (fun _ => rfl) ?_)
    intro he
    subst he
    rw [hc] at hd
    cases hd
  | send d request =>
    obtain ⟨conn', hd, rfl⟩ := send_inv h
    exact Or.inr (other (d := d) (fun _ => rfl) fun he => by rw [mine hd he])
  | read d ok =>
    cases ok with
    | true =>
      obtain ⟨conn', request, inbox, phase, hd, -, hp', rfl⟩ := read_inv h
      refine Or.inr (other (d := d) (fun _ => rfl) fun he => ?_)
      rw [mine hd he, hread] at hp'
      cases hp'
    | false =>
      obtain ⟨conn', phase, hd, hp', rfl⟩ := failedRead_inv h
      refine Or.inr (other (d := d) (fun _ => rfl) fun he => ?_)
      rw [mine hd he, hfail] at hp'
      cases hp'
  | enter d =>
    obtain ⟨conn', phase, sessions, os, hd, -, -, rfl⟩ := enter_inv h
    by_cases he : c = d
    · exact Or.inl (by rw [he])
    · exact Or.inr (other (d := d) (fun _ => rfl) fun he' => absurd he' he)
  | write d ok =>
    cases ok with
    | true =>
      obtain ⟨conn', response, bytes, hd, hr, -, rfl⟩ := write_inv h
      refine Or.inr (other (d := d) (fun _ => rfl) fun he => ?_)
      rw [mine hd he, hreply] at hr
      cases hr
    | false =>
      obtain ⟨conn', response, hd, hr, rfl⟩ := failedWrite_inv h
      refine Or.inr (other (d := d) (fun _ => rfl) fun he => ?_)
      rw [mine hd he, hreply] at hr
      cases hr

/-- The last locking of the sessions by a call that had a reservation. -/
theorem leave (h : s.step (.enter c) = some t) (hp : s.phaseOf c = some (.leaving name)) :
    t.phaseOf c = some .done ∧ name.asStr ∉ flags t.sessions := by
  have hmoves := step_moves h
  simp only [move, hp] at hmoves
  constructor
  · obtain ⟨conn, phase, sessions, os, hc, -, hcr, rfl⟩ := enter_inv h
    rw [phaseOf_eq hc, Option.some.injEq] at hp
    rw [hp] at hcr
    simp only [critical] at hcr
    split at hcr <;> cases hcr <;> simp [phaseOf]
  · have hflags : flags t.sessions = s.view.flagged \ {name.asStr} := congrArg State.flagged hmoves.2
    rw [hflags]
    exact fun hk => hk.2 rfl

def answer (s : Daemon) (c : ConnId) : Option Response := (s.phaseOf c).bind Phase.reply

/-- Nobody obtains the reservation of the session in this step. -/
def NotObtained (name : SessionName) (s : Daemon) (a : Action) : Prop := ∀ e, s.move a ≠ .acquire e name.asStr

/-- The thread of `c` has confirmed its detachment from a session; the flag of the session is set exactly as
    long as the thread has not locked the sessions again. -/
structure Confirmed (c : ConnId) (name : SessionName) (s : Daemon) : Prop where
  inv : Reservation.Inv s.view
  hosted : name.asStr ∈ s.sessions
  flag : (s.phaseOf c = some (.leaving name) ∧ name.asStr ∈ flags s.sessions) ∨
    (s.phaseOf c = some .done ∧ name.asStr ∉ flags s.sessions)

theorem Confirmed.start (hinv : Reservation.Inv s.view) (hp : s.phaseOf c = some (.detaching name))
    (hs : s.step (.write c true) = some t) : Confirmed c name t := by
  have hinv' := hinv.moves (step_moves hs)
  have hk : name.asStr ∈ flags s.sessions := hinv.flagged c _ (holder_eq_some.mpr ⟨name, ⟨_, hp, rfl⟩, rfl⟩)
  obtain ⟨conn, response, bytes, hc, -, -, rfl⟩ := write_inv hs
  obtain ⟨hosted, hget, -⟩ := id hk
  refine ⟨hinv', ?_, Or.inl ⟨?_, hk⟩⟩
  · exact ExtTreeMap.mem_iff_isSome_getElem?.mpr (by rw [sessions_setConn, hget]; rfl)
  · rw [phaseOf_eq hc, Option.some.injEq] at hp
    simp [phaseOf, hp, Phase.afterWrite]

theorem Confirmed.step (h : Confirmed c name s) (hs : s.step a = some t) (hn : NotObtained name s a) :
    Confirmed c name t := by
  have hmoves := step_moves hs
  have hinv := h.inv.moves hmoves
  refine ⟨hinv, step_mem hs h.hosted, ?_⟩
  rcases h.flag with ⟨hp, hk⟩ | ⟨hp, hk⟩
  · rcases phaseOf_step hs hp (fun _ => rfl) rfl rfl with rfl | hp'
    · exact Or.inr (leave hs hp)
    · exact Or.inl ⟨hp', hinv.flagged c _ (holder_eq_some.mpr ⟨name, ⟨_, hp', rfl⟩, rfl⟩)⟩
  · refine Or.inr ⟨?_, fun hk' => ?_⟩
    · rcases phaseOf_step hs hp (fun _ => rfl) rfl rfl with rfl | hp'
      · obtain ⟨conn, phase, sessions, os, hc, -, hcr, -⟩ := enter_inv hs
        rw [phaseOf_eq hc, Option.some.injEq] at hp
        rw [hp] at hcr
        cases hcr
      · exact hp'
    · obtain ⟨e, he⟩ := hmoves.raised hk hk'
      exact hn e he

theorem accepted (hs : s.step (.enter c) = some t) (hp : s.phaseOf c = some (.attaching name))
    (hm : name.asStr ∈ s.sessions) (hk : name.asStr ∉ flags s.sessions) : t.answer c = some (.attached name) := by
  obtain ⟨hosted, hget⟩ := Option.isSome_iff_exists.mp (ExtTreeMap.mem_iff_isSome_getElem?.mp hm)
  have ha : hosted.attached ≠ true := fun ha => hk ⟨hosted, hget, ha⟩
  obtain ⟨conn, phase, sessions, os, hc, -, hcr, rfl⟩ := enter_inv hs
  rw [phaseOf_eq hc, Option.some.injEq] at hp
  simp only [critical, hp, hget, if_neg ha] at hcr
  cases hcr
  simp [answer, phaseOf, Phase.reply]

/-- Once a client has received the confirmation of its detachment, an attachment that gets the lock, with no
    other reservation obtained in between, succeeds exactly when the detaching thread has had the lock again;
    otherwise it is answered with a conflict. -/
theorem reattach_after_detach {os : Os} {pre mid : List Action} {s₁ s₂ s₃ s₄ : Daemon} {c d : ConnId}
    {name : SessionName} (hr₁ : run step (start os) pre = some s₁) (hp : s₁.phaseOf c = some (.detaching name))
    (hw : s₁.step (.write c true) = some s₂) (hr₂ : run step s₂ mid = some s₃)
    (hmid : Along step (NotObtained name) s₂ mid) (hd : s₃.phaseOf d = some (.attaching name))
    (he : s₃.step (.enter d) = some s₄) :
    (s₄.answer d = some (.attached name) ↔ s₃.phaseOf c ≠ some (.leaving name)) ∧
      (s₃.phaseOf c = some (.leaving name) →
        s₄.answer d = some (serviceError .conflict "session already has an attached client")) := by
  have hstart : Confirmed c name s₂ := Confirmed.start (inv_run hr₁) hp hw
  have confirmed : Confirmed c name s₃ :=
    (hmid.throughout (I := fun _ => True) (fun _ _ _ _ _ => trivial) (fun _ _ _ _ h hs hn => h.step hs hn) trivial
      hstart).last hr₂
  have conflict : s₃.phaseOf c = some (.leaving name) →
      s₄.answer d = some (serviceError .conflict "session already has an attached client") := by
    intro hl
    rcases confirmed.flag with ⟨-, hk⟩ | ⟨hp', -⟩
    · rw [answer, (refused he hd hk).2]
      rfl
    · rw [hl] at hp'
      cases hp'
  refine ⟨⟨fun ha hl => ?_, fun hl => ?_⟩, conflict⟩
  · rw [conflict hl] at ha
    cases ha
  · rcases confirmed.flag with ⟨hl', -⟩ | ⟨-, hk⟩
    · exact absurd hl' hl
    · exact accepted he hd confirmed.hosted hk

/-- Behind `attachWork`, connection 1 is answered and asks to detach. -/
def detachWork : List Action := [.write 1 true, .send 1 (.detach .work), .read 1 true, .enter 1]

def reattachWork : List Action := [.accept 2, .send 2 (.attach .work), .read 2 true]

theorem reattach_after_leaving : ∃ s,
    run step (start ⟨0, [], []⟩)
      ((attachWork ++ detachWork) ++ .write 1 true :: (.enter 1 :: reattachWork ++ [.enter 2])) = some s ∧
      s.answer 2 = some (.attached .work) := by
  have hphases : (run step (start ⟨0, [], []⟩) (attachWork ++ detachWork)).bind (fun s₁ =>
      (s₁.step (.write 1 true)).bind fun s₂ => (run step s₂ (.enter 1 :: reattachWork)).bind fun s₃ =>
        (s₃.step (.enter 2)).map fun _ => (s₁.phaseOf 1, s₂.phaseOf 1, s₃.phaseOf 1, s₃.phaseOf 2)) =
      some (some (.detaching .work), some (.leaving .work), some .done, some (.attaching .work)) := by decide +kernel
  obtain ⟨s₁, hr₁, hphases⟩ := Option.bind_eq_some_iff.mp hphases
  obtain ⟨s₂, hw, hphases⟩ := Option.bind_eq_some_iff.mp hphases
  obtain ⟨s₃, hr₂, hphases⟩ := Option.bind_eq_some_iff.mp hphases
  obtain ⟨s₄, he, hphases⟩ := Option.map_eq_some_iff.mp hphases
  obtain ⟨hp, hl, hc, hd⟩ : s₁.phaseOf 1 = _ ∧ s₂.phaseOf 1 = _ ∧ s₃.phaseOf 1 = _ ∧ s₃.phaseOf 2 = _ := by
    simpa only [Prod.mk.injEq] using hphases
  refine ⟨s₄, run_append_eq_some.mpr ⟨s₁, hr₁, run_cons_eq_some.mpr ⟨s₂, hw, ?_⟩⟩, ?_⟩
  · exact run_append_eq_some.mpr ⟨s₃, hr₂, by rw [run_singleton, he]⟩
  · refine (reattach_after_detach hr₁ hp hw hr₂ (along_cons.mpr ⟨fun e => ?_, fun t _ => ?_⟩) hd he).1.mpr ?_
    · simp [move, hl]
    · refine Along.of_forall fun u a ha => ?_
      simp only [reattachWork, List.mem_cons, List.not_mem_nil, or_false] at ha
      rcases ha with rfl | rfl | rfl <;> simp [NotObtained, move]
    · simp [hc]

/-- The client of connection 1 has its confirmation, and connection 2 is refused. -/
theorem reattach_refused : ∃ s,
    run step (start ⟨0, [], []⟩)
      (attachWork ++ detachWork ++ [.write 1 true] ++ reattachWork ++ [.enter 2, .write 2 true]) = some s ∧
      (s.conns 1).map (·.outbox) = some [.attached .work, .detached .work] ∧
      (s.conns 2).map (·.outbox) = some [.error .conflict "session already has an attached client"] := by
  have hout : (run step (start ⟨0, [], []⟩)
      (attachWork ++ detachWork ++ [.write 1 true] ++ reattachWork ++ [.enter 2, .write 2 true])).map
        (fun s => ((s.conns 1).map (·.outbox), (s.conns 2).map (·.outbox))) =
      some (some [.attached .work, .detached .work],
        some [.error .conflict "session already has an attached client"]) := by decide +kernel
  obtain ⟨s, hr, hout⟩ := Option.map_eq_some_iff.mp hout
  exact ⟨s, hr, Prod.mk.inj hout⟩

end NovaMux.Daemon

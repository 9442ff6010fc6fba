import NovaMux.Theorems.DaemonSteps
import NovaMux.Theorems.Hosted
import NovaMux.Lib.Machine
import NovaMux.Lib.Reservation

/-! The daemon's attachments as reservations. A session is flagged while its `attached` field is set, and a
    connection holds it from raising the flag to lowering it. Every step of the daemon is a move of the
    reservation protocol; the only one that abandons a reservation is the failed write of the response to an
    attachment. -/

namespace NovaMux

open Std Machine Reservation

/-! ### What leaves the flags alone -/

namespace HostedSession

variable {hosted hosted' : HostedSession} {os os' : Os} {cols rows : UInt16} {result : Except ServiceError Unit}

theorem create_attached {name : SessionName} (h : create name os = (.ok hosted, os')) : hosted.attached = false := by
  obtain ⟨-, panes, -, rfl⟩ := create_inv h
  rfl

theorem resize_attached (h : hosted.resize cols rows os = (result, hosted', os')) :
    hosted'.attached = hosted.attached := by
  obtain ⟨-, panes, rfl, -⟩ := resize_inv h
  rfl

theorem split_attached {direction : SplitDirection} (h : hosted.split direction os = some (result, hosted', os')) :
    hosted'.attached = hosted.attached := by
  rcases split_inv h with ⟨_, _, -, ⟨_, -, -, rfl⟩ | ⟨_, _, _, -, hres⟩⟩
  · rfl
  · have started := resize_attached hres
    exact started

theorem command_attached {code : UInt8} (h : hosted.command code os = some (result, hosted', os')) :
    hosted'.attached = hosted.attached := by
  unfold command at h
  split at h
  · exact split_attached h
  · exact split_attached h
  · obtain ⟨session, -, h⟩ := Option.bind_eq_some_iff.mp h
    cases h
    rfl
  · rcases close_inv h with ⟨-, -, rfl, -⟩ | ⟨-, -, -, -, -, -, rfl, -⟩ <;> rfl
  · cases h
    rfl

theorem input_attached {bytes : List UInt8} (h : hosted.input bytes os = (result, hosted', os')) :
    hosted'.attached = hosted.attached := by
  unfold input at h
  split at h
  · cases h
    rfl
  · split at h <;>
    · cases h
      rfl

/-- A request leaves the reservation flag as it is. -/
theorem respond_attached {request : Request} {reply : Except ServiceError Response}
    (h : hosted.respond request os = some (reply, hosted', os')) : hosted'.attached = hosted.attached := by
  have follow : ∀ r : Except ServiceError Unit × HostedSession × Os, thenSnapshot r = (reply, hosted', os') →
      r.2.1.attached = hosted.attached → hosted'.attached = hosted.attached := fun r he hr => by
    rw [← hr, ← thenSnapshot_hosted r, he]
  cases request with
  | snapshot =>
    cases h
    rfl
  | input bytes => exact follow _ (Option.some.inj h) (input_attached rfl)
  | resize cols rows => exact follow _ (Option.some.inj h) (resize_attached rfl)
  | command code =>
    obtain ⟨⟨result, hosted₁, os₁⟩, hc, he⟩ := Option.map_eq_some_iff.mp h
    exact follow _ he (command_attached hc)
  | create | list | attach | detach | ping =>
    cases h
    rfl

end HostedSession

/-! ### Flags -/

def flags (sessions : Sessions) : Set String := {k | ∃ hosted, sessions[k]? = some hosted ∧ hosted.attached = true}

theorem mem_flags_insert {sessions : Sessions} {k l : String} {hosted : HostedSession} :
    l ∈ flags (sessions.insert k hosted) ↔ if l = k then hosted.attached = true else l ∈ flags sessions := by
  simp only [flags, Set.mem_ofPred_eq, ExtTreeMap.getElem?_insert, Std.compare_eq_iff_eq]
  by_cases he : k = l
  · simp [he]
  · simp [he, Ne.symm he]

/-- Setting the flag of a session to what it was changes no flag. -/
theorem flags_insert_same {sessions : Sessions} {k : String} {hosted hosted' : HostedSession}
    (h : sessions[k]? = some hosted) (ha : hosted'.attached = hosted.attached) :
    flags (sessions.insert k hosted') = flags sessions := by
  ext l
  rw [mem_flags_insert]
  split
  · next he => simp [flags, he, h, ha]
  · rfl

theorem dispatch_flags (sessions : Sessions) (request : Request) (os : Os) :
    flags (dispatch sessions request os).2.1 = flags sessions := by
  rcases dispatch_sessions sessions request os with hsame | ⟨name, hosted, os', hnew, hc, hinsert⟩
  · rw [hsame]
  · rw [hinsert]
    ext l
    rw [mem_flags_insert, HostedSession.create_attached hc]
    split
    · next he => simp [flags, he, hnew]
    · rfl

/-! ### Steps as moves -/

def Phase.holds : Phase → Option SessionName
  | .greeting name | .looping name | .serving name _ | .responding name _ | .detaching name | .leaving name => some name
  | _ => none

namespace Daemon

variable {s t : Daemon} {a : Action} {c : ConnId} {conn : Conn}

def view (s : Daemon) : Reservation.State ConnId String where
  flagged := flags s.sessions
  holder c := (s.conns c).bind fun conn => conn.phase.holds.map (·.asStr)

/-- The move of the reservation protocol that an action makes. -/
def move (s : Daemon) : Action → Move ConnId String
  | .enter c =>
    match s.phaseOf c with
    | some (.attaching name) =>
      match s.sessions[name.asStr]? with
      | some hosted => if hosted.attached then .stay else .acquire c name.asStr
      | none => .stay
    | some (.leaving name) => .release c name.asStr
    | _ => .stay
  | .write c false =>
    match s.phaseOf c with
    | some (.greeting name) => .abandon c name.asStr
    | _ => .stay
  | _ => .stay

theorem holder_of_conn (h : s.conns c = some conn) : s.view.holder c = conn.phase.holds.map (·.asStr) := by
  simp [view, h]

/-- The view when only connection `c` has moved. -/
theorem view_eq (hd : ∀ d, t.conns d = if d = c then some conn else s.conns d) :
    t.view = { flagged := flags t.sessions
               holder := Function.update s.view.holder c (conn.phase.holds.map (·.asStr)) } := by
  refine State.ext rfl (funext fun d => ?_)
  simp only [view, hd, Function.update_apply]
  split <;> rfl

/-- The view is the same when the flags are, and what connection `c` holds. -/
theorem view_eq_self (hd : ∀ d, t.conns d = if d = c then some conn else s.conns d)
    (hf : flags t.sessions = flags s.sessions) (hc : conn.phase.holds.map (·.asStr) = s.view.holder c) :
    t.view = s.view := by
  rw [view_eq hd, hf, hc, Function.update_eq_self]
  rfl

theorem holds_afterWrite {phase : Phase} {response : Response} (h : phase.reply = some response) :
    phase.afterWrite.holds = phase.holds := by
  cases phase <;> first | rfl | cases h

theorem holds_afterRead {phase phase' : Phase} {request : Request} (h : phase.afterRead request = some phase') :
    phase'.holds = phase.holds := by
  unfold Phase.afterRead at h
  split at h <;> cases h <;> rfl

theorem holds_afterFailedRead {phase phase' : Phase} (h : phase.afterFailedRead = some phase') :
    phase'.holds = phase.holds := by
  unfold Phase.afterFailedRead at h
  split at h <;> cases h <;> rfl

/-- A failed write ends a reservation only if it is that of the response to the attachment. -/
theorem holds_afterFailedWrite {phase : Phase} {response : Response} (h : phase.reply = some response)
    (hg : ∀ name, phase ≠ .greeting name) : phase.afterFailedWrite.holds = phase.holds := by
  cases phase <;> first | rfl | exact absurd rfl (hg _) | cases h

/-- What a thread does with the sessions locked is the move of its phase. -/
theorem critical_moves (hc : s.conns c = some conn) {phase : Phase} {sessions : Sessions} {os : Os}
    (h : s.critical conn.phase = some (phase, sessions, os)) :
    Moves s.view { flagged := flags sessions
                   holder := Function.update s.view.holder c (phase.holds.map (·.asStr)) } (s.move (.enter c)) := by
  have hholds := holder_of_conn hc
  -- Where neither a flag nor a holder changes, the step is none to the reservations.
  have stay : flags sessions = flags s.sessions → phase.holds = conn.phase.holds →
      ({ flagged := flags sessions
         holder := Function.update s.view.holder c (phase.holds.map (·.asStr)) } : State ConnId String) = s.view := by
    intro hf hp
    rw [hf, hp, ← hholds, Function.update_eq_self]
    rfl
  obtain ⟨p, inbox, outbox⟩ := conn
  simp only [move, phaseOf_eq hc]
  cases critical_inv h with
  | dispatched request => exact stay (dispatch_flags _ _ _) rfl
  | unknown hs =>
    simp only [hs]
    exact stay rfl rfl
  | refused hs ha =>
    simp only [hs, if_pos ha]
    exact stay rfl rfl
  | @attached name hosted hs ha =>
    simp only [hs, if_neg ha]
    refine ⟨?_, hholds, State.ext (Set.ext fun l => ?_) rfl⟩
    -- The flag is free, for a flagged session is refused.
    · intro h
      obtain ⟨hosted', hs', ha'⟩ := h
      rw [hs] at hs'
      exact ha (Option.some.inj hs' ▸ ha')
    · show _ ↔ l ∈ insert name.asStr (flags s.sessions)
      rw [mem_flags_insert, Set.mem_insert_iff]
      by_cases he : l = name.asStr <;> simp [he]
  | disappeared request hs => exact stay rfl rfl
  | detached hs => exact stay rfl rfl
  | answered hs hd hr hp =>
    have hf := flags_insert_same hs (HostedSession.respond_attached hr)
    rcases hp with ⟨response, -, rfl⟩ | ⟨error, -, rfl⟩
    · exact stay hf rfl
    · exact stay hf rfl
  | @gone name hs =>
    refine ⟨hholds, State.ext (Set.ext fun l => ?_) rfl⟩
    show _ ↔ l ∈ flags s.sessions \ {name.asStr}
    refine ⟨fun hl => ⟨hl, ?_⟩, And.left⟩
    intro he
    subst he
    obtain ⟨hosted, hs', -⟩ := hl
    rw [hs] at hs'
    cases hs'
  | @released name hosted hs =>
    refine ⟨hholds, State.ext (Set.ext fun l => ?_) rfl⟩
    show _ ↔ l ∈ flags s.sessions \ {name.asStr}
    rw [mem_flags_insert, Set.mem_sdiff, Set.mem_singleton_iff]
    by_cases he : l = name.asStr <;> simp [he]

/-- Every step is the move of its action. -/
theorem step_moves (h : s.step a = some t) : Moves s.view t.view (s.move a) := by
  cases a with
  | accept c =>
    obtain ⟨hc, rfl⟩ := accept_inv h
    refine view_eq_self (c := c) (fun _ => rfl) rfl ?_
    simp [view, hc, Phase.holds]
  | send c request =>
    obtain ⟨conn, hc, rfl⟩ := send_inv h
    exact view_eq_self (c := c) (fun _ => rfl) rfl (holder_of_conn hc).symm
  | read c ok =>
    cases ok with
    | true =>
      obtain ⟨conn, request, inbox, phase, hc, -, hp, rfl⟩ := read_inv h
      refine view_eq_self (c := c) (fun _ => rfl) rfl ?_
      rw [holder_of_conn hc, holds_afterRead hp]
    | false =>
      obtain ⟨conn, phase, hc, hp, rfl⟩ := failedRead_inv h
      refine view_eq_self (c := c) (fun _ => rfl) rfl ?_
      rw [holder_of_conn hc, holds_afterFailedRead hp]
  | enter c =>
    obtain ⟨conn, phase, sessions, os, hc, -, hcr, ht⟩ := enter_inv h
    have hview := view_eq (s := s) (t := t) (c := c) (fun _ => by rw [ht]; rfl)
    have hsessions : t.sessions = sessions := by rw [ht]; rfl
    rw [hview, hsessions]
    exact critical_moves hc hcr
  | write c ok =>
    cases ok with
    | true =>
      obtain ⟨conn, response, bytes, hc, hr, -, rfl⟩ := write_inv h
      refine view_eq_self (c := c) (fun _ => rfl) rfl ?_
      rw [holder_of_conn hc, holds_afterWrite hr]
    | false =>
      obtain ⟨conn, response, hc, hr, ht⟩ := failedWrite_inv h
      have hd : ∀ d, t.conns d = if d = c then some { conn with phase := conn.phase.afterFailedWrite } else s.conns d :=
        fun _ => by rw [ht]; rfl
      have hsessions : t.sessions = s.sessions := by rw [ht]; rfl
      by_cases hg : ∃ name, conn.phase = .greeting name
      · obtain ⟨name, hg⟩ := hg
        have hhold := holder_of_conn hc
        have hview := view_eq hd
        rw [hsessions, hg] at hview
        rw [hg] at hhold
        simp only [move, phaseOf_eq hc, hg]
        exact ⟨hhold, hview⟩
      · have hmove : s.move (.write c false) = .stay := by
          simp only [move, phaseOf_eq hc]
          split
          · next he => exact absurd ⟨_, Option.some.inj he⟩ hg
          · rfl
        rw [hmove]
        refine view_eq_self hd (by rw [hsessions]) ?_
        rw [holder_of_conn hc, holds_afterFailedWrite hr fun name he => hg ⟨name, he⟩]

end Daemon

end NovaMux

import NovaMux.Theorems.Resources
import NovaMux.Theorems.Snapshots
import NovaMux.Theorems.Attachments

/-! Splits that fail. A split starts the shell of the new pane on a copy of the session, so that a shell that does
    not start changes nothing; but it commits the copy before it resizes the panes, and a resize that fails leaves
    the new pane behind an error. -/

namespace NovaMux

open Machine

variable {session session' : Session} {panes panes' : PaneRegistry LivePty} {os os' : Os} {size : TerminalSize}

/-! ### The next operations -/

/-- The next `n` operations succeed. -/
def Os.Succeeds (n : Nat) (os : Os) : Prop := ∀ outcome ∈ os.faults.take n, outcome = none

@[simp] theorem Os.succeeds_zero (os : Os) : os.Succeeds 0 := by simp [Succeeds]

theorem Os.succeeds_succ {n : Nat} : os.Succeeds (n + 1) ↔ os.attempt.1 = none ∧ os.attempt.2.Succeeds n := by
  unfold Succeeds attempt
  cases hf : os.faults with
  | nil => simp [hf]
  | cons outcome faults => simp

theorem Os.succeeds_spawned {n spawned : Nat} : { os with spawned }.Succeeds n ↔ os.Succeeds n := Iff.rfl

/-- A resize is two operations, one on the PTY and one on the terminal. -/
theorem LivePty.resize_ok_iff (runtime : LivePty) (size : TerminalSize) (os : Os) :
    (runtime.resize size os).1 = .ok () ↔ os.Succeeds 2 := by
  rw [Os.succeeds_succ, Os.succeeds_succ]
  unfold LivePty.resize
  rcases ha : os.attempt with ⟨_ | fault, os₁⟩
  · rcases ha' : os₁.attempt with ⟨_ | fault, os₂⟩
    · simp [ha']
    · simp [ha']
  · simp

theorem LivePty.resize_os {runtime runtime' : LivePty} (h : runtime.resize size os = (.ok (), runtime', os')) :
    os' = os.attempt.2.attempt.2 := by
  unfold LivePty.resize at h
  split at h
  · cases h
  · next ha =>
    split at h
    · cases h
    · next ha' =>
      cases h
      rw [ha, ha']

/-- The resize of a layout succeeds exactly when both operations of each pane do. -/
theorem resizeRuntimes_ok_iff {layout : List (PaneId × Rect)} (hp : ∀ entry ∈ layout, (panes.get entry.1).isSome)
    (os : Os) :
    (resizeRuntimes layout panes os).1 = .ok () ↔ os.Succeeds (2 * layout.length) := by
  induction layout generalizing panes os with
  | nil => simp [resizeRuntimes]
  | cons entry layout ih =>
    obtain ⟨pane, rect⟩ := entry
    obtain ⟨hpane, hrest⟩ := List.forall_mem_cons.mp hp
    obtain ⟨runtime, hr⟩ := Option.isSome_iff_exists.mp hpane
    have hok := runtime.resize_ok_iff (contentSize rect) os
    simp only [Os.succeeds_succ, Os.succeeds_zero, and_true] at hok
    simp only [resizeRuntimes, hr, List.length_cons, Nat.mul_succ, Os.succeeds_succ, ← and_assoc]
    split
    · next hres =>
      rw [hres] at hok
      rw [← hok]
      simp
    · next runtime' os₁ hres =>
      have hos := LivePty.resize_os hres
      rw [hres] at hok
      rw [← hok, ← hos, ih fun entry he => ?_]
      · simp
      · rw [PaneRegistry.get_set]
        split
        · rfl
        · exact hrest entry he

/-- When the system starts the shell of a split, that is all it has done. -/
theorem Owned.reconcile_of_start (h : Owned session panes) (size : TerminalSize) {direction : SplitDirection}
    {id : PaneId} (hs : session.splitFocused direction = some (id, session')) (ha : os.attempt = (none, os')) :
    ∃ removed panes', panes.reconcile session' (fun _ => LivePty.spawn size) os =
      (.ok removed, panes', { os' with spawned := os'.spawned + 1 }) := by
  have hm := h.missing_split hs
  rw [PaneRegistry.missing] at hm
  simp only [PaneRegistry.reconcile, hm, PaneRegistry.createMissing, LivePty.spawn, ha]
  exact ⟨_, _, rfl⟩

namespace HostedSession

variable {hosted hosted' : HostedSession} {direction : SplitDirection} {result : Except ServiceError Unit}

/-! ### Sessions of the daemon -/

/-- The states that a session can be in: created, and then changed by requests and by the attachment flag only. -/
inductive Reached : HostedSession → Prop where
  | create {name : SessionName} {hosted : HostedSession} {os os' : Os}
      (h : HostedSession.create name os = (.ok hosted, os')) : Reached hosted
  | respond {hosted hosted' : HostedSession} {request : Request} {reply : Except ServiceError Response} {os os' : Os}
      (hr : Reached hosted) (h : hosted.respond request os = some (reply, hosted', os')) : Reached hosted'
  | attached {hosted : HostedSession} (hr : Reached hosted) (attached : Bool) : Reached { hosted with attached }

theorem Reached.tended (h : Reached hosted) : hosted.Tended := by
  induction h with
  | create h => exact Tended.create h
  | respond _ h ih => exact ih.respond h
  | attached _ _ ih => exact ih

end HostedSession

def Sessions.Reached (sessions : Sessions) : Prop :=
  ∀ (name : String) (hosted : HostedSession), sessions[name]? = some hosted → hosted.Reached

theorem Sessions.Reached.insert {sessions : Sessions} (h : Sessions.Reached sessions) (name : String)
    {hosted : HostedSession} (hh : hosted.Reached) : Sessions.Reached (sessions.insert name hosted) := by
  intro other hosted' hs
  rw [Std.ExtTreeMap.getElem?_insert] at hs
  split at hs
  · exact Option.some.inj hs ▸ hh
  · exact h other hosted' hs

theorem Sessions.Reached.dispatch {sessions : Sessions} (h : Sessions.Reached sessions) (request : Request) (os : Os) :
    Sessions.Reached (NovaMux.dispatch sessions request os).2.1 := by
  rcases dispatch_sessions sessions request os with hsame | ⟨name, hosted, os', -, hc, hinsert⟩
  · rwa [hsame]
  · rw [hinsert]
    exact h.insert _ (.create hc)

/-- Every session that the daemon holds, in any interleaving of its connections, is in such a state. -/
theorem Daemon.sessions_reached {as : List Action} {s : Daemon} (hr : run step (start os) as = some s) :
    s.sessions.Reached := by
  refine run_invariant (I := fun s => s.sessions.Reached) ?_ ?_ hr
  · intro s a t h hs
    rcases step_sessions hs with ht | ⟨c, phase, phase', os', -, -, hcr⟩
    · rwa [ht]
    · have he := critical_inv hcr
      generalize t.sessions = sessions at he
      cases he with
      | dispatched request => exact h.dispatch request _
      | unknown | refused | disappeared | detached | gone => exact h
      | attached hs => exact h.insert _ (.attached (h _ _ hs) _)
      | released hs => exact h.insert _ (.attached (h _ _ hs) _)
      | answered hs hd hr hp => exact h.insert _ (.respond (h _ _ hs) hr)
  · intro name hosted hs
    simp [start] at hs

namespace HostedSession

variable {hosted hosted' : HostedSession} {direction : SplitDirection} {result : Except ServiceError Unit}

/-! ### What a split leaves -/

/-- The same tree, focus and counter, and resources for the same panes. -/
structure Unchanged (before after : HostedSession) : Prop where
  root : after.session.root = before.session.root
  focused : after.session.focused = before.session.focused
  nextId : after.session.nextId = before.session.nextId
  registered : ∀ pane, (after.panes.get pane).isSome = (before.panes.get pane).isSome

theorem Unchanged.refl (hosted : HostedSession) : Unchanged hosted hosted := ⟨rfl, rfl, rfl, fun _ => rfl⟩

theorem Tended.not_unchanged (h : hosted.Tended) {id : PaneId}
    (hs : hosted.session.splitFocused direction = some (id, hosted'.session)) : ¬Unchanged hosted hosted' := by
  intro hu
  have hnext := (Session.splitFocused_inv h.wf.focused hs).2.2.1
  rw [hu.nextId] at hnext
  omega

theorem Tended.resize_ok_iff (h : hosted.Tended) {cols rows : UInt16}
    (hr : hosted.resize cols rows os = (result, hosted', os')) :
    result = .ok () ↔ os.Succeeds (2 * hosted.session.panes.length) := by
  obtain ⟨outcome, panes, rfl, hres, rfl⟩ := resize_inv hr
  have hruntimes : ∀ entry ∈ HostedSession.layout { hosted with viewport := (max cols 2, max rows 2), panes },
      (hosted.panes.get entry.1).isSome := fun entry he =>
    (h.owned entry.1).mpr ((Session.mem_panes_iff_layout _).mpr ⟨entry.2, he⟩)
  have hok := resizeRuntimes_ok_iff hruntimes os
  rw [hres, length_layout] at hok
  rw [Except.mapError_eq_ok, hok]

/-- Once the shell has started, the split is there, and fails exactly when a resize does. -/
theorem Tended.split_of_start (h : hosted.Tended) (ha : os.attempt.1 = none)
    (hs : hosted.split direction os = some (result, hosted', os')) :
    (∃ id, hosted.session.splitFocused direction = some (id, hosted'.session)) ∧
      (result = .ok () ↔ os.attempt.2.Succeeds (2 * (hosted.session.panes.length + 1))) := by
  obtain ⟨id, candidate, hsplit, hcases⟩ := split_inv hs
  obtain ⟨removed, panes, hstart⟩ := Owned.reconcile_of_start h (.new 2 2) hsplit (Prod.ext ha rfl)
  rcases hcases with ⟨error, hrec, -⟩ | ⟨removed', panes', os₁, hrec, hres⟩
  · rw [hstart] at hrec
    cases hrec
  · have started : Tended { hosted with panes := panes', session := candidate } :=
      Owned.reconcile_split h hsplit hrec
    have hok := started.resize_ok_iff hres
    rw [hstart] at hrec
    cases hrec
    obtain ⟨outcome, panes'', rfl, -⟩ := resize_inv hres
    refine ⟨⟨id, hsplit⟩, hok.trans ?_⟩
    rw [Os.succeeds_spawned, Session.length_panes_of_splitFocused h.wf.focused hsplit]

/-- A split that fails has changed nothing exactly when its shell does not start or, once it has started, none of
    the operations that resize the panes fails. -/
theorem split_failures (hr : hosted.Reached) {code : UInt8} (hcode : code = 1 ∨ code = 2)
    (hc : hosted.command code os = some (result, hosted', os')) :
    (∀ error, result = .error error → Unchanged hosted hosted') ↔
      os.attempt.1 ≠ none ∨ os.attempt.2.Succeeds (2 * (hosted.session.panes.length + 1)) := by
  obtain ⟨direction, hs⟩ : ∃ direction, hosted.split direction os = some (result, hosted', os') := by
    rcases hcode with rfl | rfl
    · exact ⟨.horizontal, hc⟩
    · exact ⟨.vertical, hc⟩
  rcases ha : os.attempt with ⟨fault | fault, os₁⟩
  · have hstart : os.attempt.1 = none := by rw [ha]
    obtain ⟨⟨id, hsplit⟩, hok⟩ := hr.tended.split_of_start hstart hs
    rw [ha] at hok
    rw [← hok]
    constructor
    · intro h
      cases result with
      | error error => exact absurd (h error rfl) (hr.tended.not_unchanged hsplit)
      | ok => exact Or.inr rfl
    · intro h error he
      rcases h with h | h
      · exact absurd rfl h
      · rw [h] at he
        cases he
  · obtain ⟨-, rfl, -⟩ := split_of_fault hr.tended ha hs
    exact ⟨fun _ => Or.inl nofun, fun _ _ _ => .refl _⟩

/-- A split of the only pane, whose shell starts and whose resizes succeed. -/
theorem split_failures_sound : ∃ hosted os result hosted' os',
    HostedSession.create .work ⟨0, [], []⟩ = (.ok hosted, os) ∧
      hosted.command 1 os = some (result, hosted', os') ∧
      ∀ error, result = .error error → Unchanged hosted hosted' := by
  obtain ⟨hosted, os, result, hosted', os', hc, hs, hos⟩ : ∃ hosted os result hosted' os',
      HostedSession.create .work ⟨0, [], []⟩ = (.ok hosted, os) ∧
        hosted.command 1 os = some (result, hosted', os') ∧ os = ⟨1, [], []⟩ := ⟨_, _, _, _, _, rfl, rfl, rfl⟩
  refine ⟨hosted, os, result, hosted', os', hc, hs, ?_⟩
  refine (split_failures (.create hc) (Or.inl rfl) hs).mpr (Or.inr fun outcome ho => ?_)
  rw [hos] at ho
  simp [Os.attempt] at ho

/-- The shell of the new pane starts, then the PTY of the first pane cannot be resized: the split is an error, and
    the session has a second pane. -/
theorem split_failures_partial : ∃ hosted os error hosted' os',
    HostedSession.create .work ⟨0, [none, none, some ⟨"resize failed", 0⟩], []⟩ = (.ok hosted, os) ∧
      hosted.command 1 os = some (.error error, hosted', os') ∧
      hosted.session.panes = [⟨1⟩] ∧ hosted'.session.panes = [⟨1⟩, ⟨2⟩] ∧ ¬Unchanged hosted hosted' := by
  refine ⟨_, _, _, _, _, rfl, rfl, rfl, rfl, fun h => ?_⟩
  exact absurd h.nextId (by decide)

end HostedSession

end NovaMux

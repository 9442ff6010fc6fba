import NovaMux.Theorems.Sizes

/-! Resources match panes: whatever fails, after every operation of a hosted session and of the local client
    the registry holds a shell for exactly the panes of the session, a pane that keeps its shell keeps the
    same one, and a split whose shell does not start changes nothing. Shells are numbered as they start, so
    the number of a shell tells it from all others. -/

namespace NovaMux

open Machine PaneRegistry

variable {session session' : Session} {panes panes' panes'' : PaneRegistry LivePty} {os os' : Os}
  {size : TerminalSize}

/-! ### Shells that start -/

@[simp] theorem Os.attempt_spawned (os : Os) : os.attempt.2.spawned = os.spawned := by
  unfold Os.attempt
  split <;> rfl

theorem spawn_ok {runtime : LivePty} (h : LivePty.spawn size os = (.ok runtime, os')) :
    runtime.child = os.spawned ∧ os'.spawned = os.spawned + 1 := by
  have hs := os.attempt_spawned
  unfold LivePty.spawn at h
  split at h
  · cases h
  · next ha =>
    rw [ha] at hs
    cases h
    exact ⟨hs, congrArg (· + 1) hs⟩

theorem spawn_error {message : String} (h : LivePty.spawn size os = (.error message, os')) :
    os'.spawned = os.spawned := by
  have hs := os.attempt_spawned
  unfold LivePty.spawn at h
  split at h
  · next ha =>
    rw [ha] at hs
    cases h
    exact hs
  · cases h

/-- Shells that start one after the other are new and have different numbers. -/
theorem creates_spawn {missing : List PaneId} {created : List (PaneId × LivePty)}
    (h : Creates (fun _ => LivePty.spawn size) missing os created os') :
    os.spawned ≤ os'.spawned ∧
      (∀ entry ∈ created, os.spawned ≤ entry.2.child ∧ entry.2.child < os'.spawned) ∧
      created.Pairwise fun a b => a.2.child < b.2.child := by
  induction h with
  | nil os => exact ⟨le_rfl, fun _ he => absurd he List.not_mem_nil, .nil⟩
  | @cons pane missing runtime created os os₁ os' hspawn _ ih =>
    obtain ⟨hchild, hnext⟩ := spawn_ok hspawn
    obtain ⟨hle, hrange, hsorted⟩ := ih
    have later : ∀ entry ∈ created, runtime.child < entry.2.child := fun entry he => by
      have := (hrange entry he).1
      omega
    refine ⟨by omega, List.forall_mem_cons.mpr ⟨⟨hchild.ge, ?_⟩, fun entry he => ?_⟩, ?_⟩
    · exact hchild ▸ (by omega : os.spawned < os'.spawned)
    · obtain ⟨hge, hlt⟩ := hrange entry he
      exact ⟨by omega, hlt⟩
    · exact List.pairwise_cons.mpr ⟨later, hsorted⟩

theorem createMissing_spawned (size : TerminalSize) (missing : List PaneId) (os : Os) :
    os.spawned ≤ (createMissing (fun _ => LivePty.spawn size) missing os).2.spawned := by
  rcases hc : createMissing (fun _ => LivePty.spawn size) missing os with ⟨error | created, os'⟩
  · obtain ⟨_, _, _, _, os₁, -, hcreates, he⟩ := createMissing_error hc
    rw [spawn_error he]
    exact (creates_spawn hcreates).1
  · exact (creates_spawn (createMissing_ok hc)).1

/-! ### Numbered shells -/

/-- The shells of a registry have been started, and no two panes share one. -/
structure Numbered (panes : PaneRegistry LivePty) (os : Os) : Prop where
  started : ∀ pane runtime, panes.get pane = some runtime → runtime.child < os.spawned
  distinct : ∀ pane other runtime runtime', panes.get pane = some runtime → panes.get other = some runtime' →
    runtime.child = runtime'.child → pane = other

structure Tracked (session : Session) (panes : PaneRegistry LivePty) (os : Os) : Prop where
  tended : Owned session panes
  numbered : Numbered panes os

/-- A pane that has a shell before and after has the same one. -/
def SameShells (before after : PaneRegistry LivePty) : Prop :=
  ∀ pane runtime runtime', before.get pane = some runtime → after.get pane = some runtime' →
    runtime'.child = runtime.child

theorem SameShells.refl (panes : PaneRegistry LivePty) : SameShells panes panes := by
  intro pane runtime runtime' h h'
  rw [h] at h'
  rw [Option.some.inj h']

/-- Later starts do not renumber the shells of a registry. -/
theorem Tracked.later (h : Tracked session panes os) (hle : os.spawned ≤ os'.spawned) : Tracked session panes os' :=
  ⟨h.tended, fun pane runtime hr => (h.numbered.started pane runtime hr).trans_le hle, h.numbered.distinct⟩

/-- Resizing a runtime changes neither the shell nor how many have been started. -/
theorem LivePty.resize_child (runtime : LivePty) (size : TerminalSize) (os : Os) :
    (runtime.resize size os).2.1.child = runtime.child ∧ (runtime.resize size os).2.2.spawned = os.spawned := by
  have h₁ := os.attempt_spawned
  have h₂ := os.attempt.2.attempt_spawned
  unfold LivePty.resize
  rcases ha : os.attempt with ⟨_ | _, os₁⟩
  · rcases ha' : os₁.attempt with ⟨_ | _, os₂⟩
    all_goals
      rw [ha] at h₁ h₂
      rw [ha'] at h₂
      exact ⟨by simp [ha'], by simpa [ha'] using h₂.trans h₁⟩
  · rw [ha] at h₁
    exact ⟨rfl, h₁⟩

theorem resizeRuntimes_child (layout : List (PaneId × Rect)) (panes : PaneRegistry LivePty) (os : Os) (pane : PaneId) :
    ((resizeRuntimes layout panes os).2.1.get pane).map LivePty.child = (panes.get pane).map LivePty.child :=
  resizeRuntimes_map (fun runtime size os => (runtime.resize_child size os).1) layout panes os pane

theorem resizeRuntimes_spawned (layout : List (PaneId × Rect)) (panes : PaneRegistry LivePty) (os : Os) :
    (resizeRuntimes layout panes os).2.2.spawned = os.spawned :=
  resizeRuntimes_keeps (f := Os.spawned) Os.attempt_spawned layout panes os

theorem terminateRuntimes_spawned (removed : List (PaneId × LivePty)) (os : Os) :
    (terminateRuntimes removed os).2.spawned = os.spawned :=
  terminateRuntimes_keeps (f := Os.spawned) Os.attempt_spawned removed os

/-! ### What the operations on runtimes keep -/

variable {layout : List (PaneId × Rect)}

theorem Tracked.resize (h : Tracked session panes os) {outcome : Except String Unit}
    (hr : resizeRuntimes layout panes os = (outcome, panes', os')) :
    Tracked session panes' os' ∧
      ∀ pane, (panes'.get pane).map LivePty.child = (panes.get pane).map LivePty.child := by
  have hchild := resizeRuntimes_child layout panes os
  have hspawned := resizeRuntimes_spawned layout panes os
  rw [hr] at hchild hspawned
  have before : ∀ pane runtime, panes'.get pane = some runtime →
      ∃ runtime₀, panes.get pane = some runtime₀ ∧ runtime₀.child = runtime.child := by
    intro pane runtime hget
    have hsome : (panes.get pane).map LivePty.child = some runtime.child := by rw [← hchild, hget]; rfl
    exact Option.map_eq_some_iff.mp hsome
  refine ⟨⟨h.tended.resize hr, fun pane runtime hget => ?_, fun pane other runtime runtime' hget hget' he => ?_⟩,
    hchild⟩
  · obtain ⟨runtime₀, hget₀, he₀⟩ := before pane runtime hget
    rw [← he₀, show os'.spawned = os.spawned from hspawned]
    exact h.numbered.started pane runtime₀ hget₀
  · obtain ⟨runtime₀, hget₀, he₀⟩ := before pane runtime hget
    obtain ⟨runtime₁, hget₁, he₁⟩ := before other runtime' hget'
    exact h.numbered.distinct pane other runtime₀ runtime₁ hget₀ hget₁ (by rw [he₀, he₁, he])

/-- A reconciliation keeps the shells of the panes that stay, and those it starts are new. -/
theorem Numbered.reconcile (h : Numbered panes os) {removed : List (PaneId × LivePty)}
    (hr : panes.reconcile session (fun _ => LivePty.spawn size) os = (.ok removed, panes', os')) :
    Numbered panes' os' ∧ SameShells panes panes' := by
  obtain ⟨missing, -, hmissing, hcases⟩ :=
    panes.reconcile_exact session (fun _ => LivePty.spawn size) os
  rcases hcases with ⟨created, os₁, removed₁, panes₁, hcreates, hrec, hexact⟩ |
      ⟨before, pane, after, created, os₁, error, os₂, -, -, -, hrec⟩
  · rw [hr] at hrec
    cases hrec
    obtain ⟨hle, hrange, hsorted⟩ := creates_spawn hcreates
    have hkeys : created.map Prod.fst = missing := hcreates.keys
    -- A shell of the new registry is an old one or one that has just been started.
    have origin : ∀ pane runtime, panes'.get pane = some runtime →
        panes.get pane = some runtime ∨ (panes.get pane = none ∧ (pane, runtime) ∈ created) := by
      intro pane runtime hget
      have hp := (hexact.keys pane).mp (by rw [hget]; rfl)
      cases hbefore : panes.get pane with
      | some runtime₀ =>
        rw [hexact.kept pane hp runtime₀ hbefore] at hget
        exact Or.inl hget
      | none =>
        have hin : pane ∈ created.map Prod.fst := hkeys ▸ (hmissing pane).mpr ⟨hp, hbefore⟩
        obtain ⟨entry, hentry, rfl⟩ := List.mem_map.mp hin
        rw [hexact.created entry hentry] at hget
        obtain rfl := Option.some.inj hget
        exact Or.inr ⟨rfl, hentry⟩
    refine ⟨⟨fun pane runtime hget => ?_, fun pane other runtime runtime' hget hget' he => ?_⟩,
      fun pane runtime runtime' hget hget' => ?_⟩
    · rcases origin pane runtime hget with hold | ⟨-, hnew⟩
      · exact (h.started pane runtime hold).trans_le hle
      · exact (hrange _ hnew).2
    · rcases origin pane runtime hget with hold | ⟨-, hnew⟩
      · rcases origin other runtime' hget' with hold' | ⟨-, hnew'⟩
        · exact h.distinct pane other runtime runtime' hold hold' he
        -- New shells have greater numbers than all old ones.
        · exact absurd (he ▸ h.started pane runtime hold) (Nat.not_lt.mpr (hrange _ hnew').1)
      · rcases origin other runtime' hget' with hold' | ⟨-, hnew'⟩
        · exact absurd (he ▸ h.started other runtime' hold') (Nat.not_lt.mpr (hrange _ hnew).1)
        · have hn : (created.map fun entry => entry.2.child).Nodup :=
            List.pairwise_map.mpr (hsorted.imp fun hlt => hlt.ne)
          exact (Prod.mk.inj (List.inj_on_of_nodup_map hn hnew hnew' he)).1
    · rcases origin pane runtime' hget' with hold | ⟨hnone, -⟩
      · rw [hget] at hold
        rw [Option.some.inj hold]
      · rw [hget] at hnone
        cases hnone
  · rw [hr] at hrec
    cases hrec

theorem Tracked.reconcile (h : Numbered panes os) (hw : session.Wf) {removed : List (PaneId × LivePty)}
    (hr : panes.reconcile session (fun _ => LivePty.spawn size) os = (.ok removed, panes', os')) :
    Tracked session panes' os' ∧ SameShells panes panes' := by
  obtain ⟨hnumbered, hsame⟩ := h.reconcile hr
  exact ⟨⟨Owned.of_reconciled hw (reconcile_ok hr), hnumbered⟩, hsame⟩

/-- The first shells of a session. -/
theorem Tracked.start (hw : session.Wf) {removed : List (PaneId × LivePty)}
    (hr : PaneRegistry.new.reconcile session (fun _ => LivePty.spawn size) os = (.ok removed, panes', os')) :
    Tracked session panes' os' := by
  have empty : ∀ pane, (PaneRegistry.new : PaneRegistry LivePty).get pane = none := fun pane => by
    simp [PaneRegistry.new, PaneRegistry.get]
  refine (Tracked.reconcile ⟨fun pane runtime h => ?_, fun pane other runtime runtime' h => ?_⟩ hw hr).1
  all_goals
    rw [empty] at h
    cases h

theorem reconcile_spawned {outcome : Except String (List (PaneId × LivePty))}
    (hr : panes.reconcile session (fun _ => LivePty.spawn size) os = (outcome, panes', os')) :
    os.spawned ≤ os'.spawned := by
  have hle := createMissing_spawned size (panes.missing session) os
  have he : (panes.reconcile session (fun _ => LivePty.spawn size) os).2.2 =
      (createMissing (fun _ => LivePty.spawn size) (panes.missing session) os).2 := by
    unfold PaneRegistry.reconcile
    simp only
    rw [← PaneRegistry.missing]
    split <;> (next hc => rw [hc])
  rw [← he, hr] at hle
  exact hle

theorem Tracked.trans_resize (h : Tracked session panes' os) (hsame : SameShells panes panes')
    {outcome : Except String Unit} (hr : resizeRuntimes layout panes' os = (outcome, panes'', os')) :
    Tracked session panes'' os' ∧ SameShells panes panes'' := by
  obtain ⟨hsized, hchild⟩ := h.resize hr
  refine ⟨hsized, fun pane runtime runtime'' hget hget'' => ?_⟩
  have hsome : (panes'.get pane).map LivePty.child = some runtime''.child := by
    rw [← hchild pane, hget'']
    rfl
  obtain ⟨runtime', hget', he⟩ := Option.map_eq_some_iff.mp hsome
  exact he.symm.trans (hsame pane runtime runtime' hget hget')

theorem Tracked.focusNext (h : Tracked session panes os) (hf : session.focusNext = some session') :
    Tracked session' panes os := ⟨h.tended.focusNext hf, h.numbered⟩

/-- A close starts no shell, and what happens to the removed ones does not matter. -/
theorem Tracked.close (h : Tracked session panes os) (hc : session.closeFocused = some (true, session'))
    {outcome : Except String (List (PaneId × LivePty))}
    (hr : panes.reconcile session' (fun _ => LivePty.spawn size) os = (outcome, panes', os')) :
    Tracked session' panes' os' ∧ SameShells panes panes' := by
  obtain ⟨⟨removed, rfl⟩, -⟩ := h.tended.reconcile_close hc hr
  exact Tracked.reconcile h.numbered (h.tended.wf.closeFocused hc) hr

/-- A split needs one new shell. -/
theorem Owned.missing_split (h : Owned session panes) {direction : SplitDirection} {id : PaneId}
    (hs : session.splitFocused direction = some (id, session')) : panes.missing session' = [id] := by
  have hmem : ∀ pane, pane ∈ panes.missing session' ↔ pane = id := by
    intro pane
    obtain ⟨rfl, -, -, -, before, after, hp, -, hp'⟩ := Session.splitFocused_inv h.wf.focused hs
    have hnone : panes.get pane = none ↔ pane ∉ session.panes := by
      rw [← h.owned pane, Option.not_isSome_iff_eq_none]
    rw [mem_missing, hnone]
    refine ⟨fun hm => ?_, fun he => ?_⟩
    · obtain ⟨hin, hnew⟩ := hm
      rw [hp'] at hin
      rw [hp] at hnew
      simp only [List.mem_append, List.mem_cons, not_or] at hin hnew
      obtain ⟨hbefore, hfocused, hafter⟩ := hnew
      rcases hin with hin | hin | hin | hin
      · exact absurd hin hbefore
      · exact absurd hin hfocused
      · exact hin
      · exact absurd hin hafter
    · subst he
      refine ⟨by simp [hp', -Session.panes_eq], fun hin => ?_⟩
      exact UInt64.lt_irrefl _ (h.wf.below _ hin)
  have hn := (ascending_missing panes session').nodup
  exact List.perm_singleton.mp ((List.perm_ext_iff_of_nodup hn (List.nodup_singleton id)).mpr fun pane => by
    rw [hmem, List.mem_singleton])

/-- When the system refuses the shell of a split, nothing has been created. -/
theorem Owned.reconcile_of_fault (h : Owned session panes) (size : TerminalSize) {direction : SplitDirection}
    {id : PaneId} {fault : Fault} (hs : session.splitFocused direction = some (id, session'))
    (ha : os.attempt = (some fault, os')) :
    panes.reconcile session' (fun _ => LivePty.spawn size) os = (.error fault.message, panes, os') := by
  have hm := h.missing_split hs
  rw [missing] at hm
  have hspawn : LivePty.spawn size os = (.error fault.message, os') := by
    simp only [LivePty.spawn, ha]
  simp only [PaneRegistry.reconcile, hm, createMissing, hspawn]

/-! ### Hosted sessions -/

/-- The registry holds a shell for exactly the panes of the session, a different one for each. -/
structure Matched (session : Session) (panes : PaneRegistry LivePty) : Prop where
  exactly : ∀ pane, (panes.get pane).isSome ↔ pane ∈ session.panes
  distinct : ∀ pane other runtime runtime', panes.get pane = some runtime → panes.get other = some runtime' →
    runtime.child = runtime'.child → pane = other

theorem Tracked.matched (h : Tracked session panes os) : Matched session panes :=
  ⟨h.tended.owned, h.numbered.distinct⟩

namespace HostedSession

variable {hosted hosted' : HostedSession} {direction : SplitDirection} {cols rows : UInt16}
  {result : Except ServiceError Unit}

/-- An operation with its result, which may be an error. -/
def operate (s : HostedSession × Os) : Op → Option (Except ServiceError Unit × HostedSession × Os)
  | .resize cols rows => some (s.1.resize cols rows s.2)
  | .command code => s.1.command code s.2

/-- What an operation leaves behind, whether it succeeds or not. -/
def leaves (s : HostedSession × Os) (op : Op) : Option (HostedSession × Os) := (operate s op).map (·.2)

def Follows (s : HostedSession × Os) : Prop := Tracked s.1.session s.1.panes s.2

theorem Follows.resize (h : Follows (hosted, os)) (hr : hosted.resize cols rows os = (result, hosted', os')) :
    Follows (hosted', os') ∧ SameShells hosted.panes hosted'.panes := by
  obtain ⟨outcome, panes, rfl, hres, -⟩ := resize_inv hr
  exact Tracked.trans_resize h (.refl _) hres

theorem Follows.split (h : Follows (hosted, os)) (hs : hosted.split direction os = some (result, hosted', os')) :
    Follows (hosted', os') ∧ SameShells hosted.panes hosted'.panes := by
  rcases split_inv hs with ⟨id, candidate, hsplit, ⟨error, hrec, -, rfl⟩ | ⟨removed, panes, os₁, hrec, hres⟩⟩
  · exact ⟨Tracked.later h (reconcile_spawned hrec), .refl _⟩
  · obtain ⟨hstart, hsame⟩ := Tracked.reconcile h.numbered (h.tended.wf.splitFocused hsplit) hrec
    obtain ⟨outcome, panes', rfl, hres, -⟩ := resize_inv hres
    exact hstart.trans_resize hsame hres

theorem Follows.close (h : Follows (hosted, os)) (hc : hosted.close os = some (result, hosted', os')) :
    Follows (hosted', os') ∧ SameShells hosted.panes hosted'.panes := by
  rcases close_inv hc with ⟨-, -, rfl, -, rfl⟩ | ⟨session, outcome, panes, os₁, hs, hrec, rfl, hend⟩
  · exact ⟨h, .refl _⟩
  · obtain ⟨hclosed, hsame⟩ := Tracked.close h hs hrec
    rcases hend with ⟨_, -, -, rfl⟩ | ⟨removed, ended, -, hend, -⟩
    · exact ⟨hclosed, hsame⟩
    · have hspawned := terminateRuntimes_spawned removed os₁
      rw [hend] at hspawned
      exact ⟨hclosed.later hspawned.ge, hsame⟩

theorem Follows.operate {s t : HostedSession × Os} {op : Op} (h : Follows s)
    (ho : HostedSession.operate s op = some (result, t)) : Follows t ∧ SameShells s.1.panes t.1.panes := by
  cases op with
  | resize cols rows => exact Follows.resize h (Option.some.inj ho)
  | command code =>
    unfold HostedSession.operate HostedSession.command at ho
    split at ho
    · next he => cases he
    · next he =>
      split at ho
      · exact Follows.split h ho
      · exact Follows.split h ho
      · obtain ⟨session, hf, ho⟩ := Option.bind_eq_some_iff.mp ho
        cases ho
        exact ⟨Tracked.focusNext h hf, .refl _⟩
      · exact Follows.close h ho
      · cases ho
        exact ⟨h, .refl _⟩

/-- Keeps every shell that stays, and changes nothing when the shell of a split does not start. -/
structure KeepsShells (s : HostedSession × Os) (op : Op) : Prop where
  same : ∀ result t, HostedSession.operate s op = some (result, t) → SameShells s.1.panes t.1.panes
  unchanged : op = .command 1 ∨ op = .command 2 → ∀ fault os', s.2.attempt = (some fault, os') →
    ∀ result t, HostedSession.operate s op = some (result, t) →
      result = .error (.runtime fault.message) ∧ t = (s.1, os')

theorem split_of_fault (h : hosted.Tended) {fault : Fault} {os₁ : Os} (ha : os.attempt = (some fault, os₁))
    (hs : hosted.split direction os = some (result, hosted', os')) :
    result = .error (.runtime fault.message) ∧ hosted' = hosted ∧ os' = os₁ := by
  obtain ⟨id, candidate, hsplit, hcases⟩ := split_inv hs
  have hfault := Owned.reconcile_of_fault h (.new 2 2) hsplit ha
  rcases hcases with ⟨error, hrec, rfl, rfl⟩ | ⟨removed, panes, os₂, hrec, -⟩
  · rw [hfault] at hrec
    cases hrec
    exact ⟨rfl, rfl, rfl⟩
  · rw [hfault] at hrec
    cases hrec

theorem Follows.keepsShells {s : HostedSession × Os} (h : Follows s) (op : Op) : KeepsShells s op := by
  refine ⟨fun result t ho => (h.operate ho).2, fun hop fault os' ha result t ho => ?_⟩
  obtain ⟨hosted', os₁⟩ := t
  rcases hop with rfl | rfl
  all_goals
    obtain ⟨rfl, rfl, rfl⟩ := split_of_fault h.tended ha ho
    exact ⟨rfl, rfl⟩

theorem Follows.leaves {s t : HostedSession × Os} {op : Op} (h : Follows s) (hl : HostedSession.leaves s op = some t) :
    Follows t := by
  obtain ⟨⟨result, t'⟩, ho, rfl⟩ := Option.map_eq_some_iff.mp hl
  exact (h.operate ho).1

theorem Follows.create {name : SessionName} (h : HostedSession.create name os = (.ok hosted, os')) :
    Follows (hosted, os') := by
  obtain ⟨removed, panes, hr, rfl⟩ := create_inv h
  exact Tracked.start (Session.Wf.new name) hr

end HostedSession

/-! ### The local client -/

namespace App

variable {app app' : App} {direction : SplitDirection} {result : Except String Unit}

/-- An operation with its result, which may be an error. The event loop passes the last size to its commands. -/
def operate (s : App × Os) : Op → Option (Except String Bool × App × Os)
  | .resize size =>
    let (result, t) := s.1.resized size s.2
    some ((fun _ => false) <$> result, t)
  | .command command => s.1.command command s.1.lastSize s.2

theorem operate_command (s : App × Os) (command : MultiplexerCommand) :
    operate s (.command command) = s.1.command command s.1.lastSize s.2 := rfl

/-- What an operation leaves behind, whether it succeeds or not. -/
def leaves (s : App × Os) (op : Op) : Option (App × Os) := (operate s op).map (·.2)

def Follows (s : App × Os) : Prop := Tracked s.1.session s.1.panes s.2

theorem Follows.resizePanes {size : UInt16 × UInt16} (h : Follows (app, os))
    (hr : app.resizePanes size os = (result, app', os')) : Follows (app', os') ∧ SameShells app.panes app'.panes := by
  obtain ⟨panes, rfl, hres⟩ := resizePanes_inv hr
  exact Tracked.trans_resize h (.refl _) hres

theorem Follows.split {size : UInt16 × UInt16} (h : Follows (app, os))
    (hs : app.split direction size os = some (result, app', os')) :
    Follows (app', os') ∧ SameShells app.panes app'.panes := by
  rcases split_inv hs with ⟨id, candidate, hsplit, ⟨error, hrec, -, rfl⟩ | ⟨removed, panes, os₁, hrec, hres⟩⟩
  · exact ⟨Tracked.later h (reconcile_spawned hrec), .refl _⟩
  · obtain ⟨hstart, hsame⟩ := Tracked.reconcile h.numbered (h.tended.wf.splitFocused hsplit) hrec
    obtain ⟨panes', rfl, hsized⟩ := resizePanes_inv hres
    exact hstart.trans_resize hsame hsized

theorem Follows.closeFocused (h : Follows (app, os)) (hc : app.closeFocused os = some (result, app', os')) :
    Follows (app', os') ∧ SameShells app.panes app'.panes := by
  rcases closeFocused_inv hc with ⟨-, -, rfl, -, rfl⟩ | ⟨session, outcome, panes, os₁, hs, hrec, rfl, hend⟩
  · exact ⟨h, .refl _⟩
  · obtain ⟨hclosed, hsame⟩ := Tracked.close h hs hrec
    rcases hend with ⟨_, -, -, rfl⟩ | ⟨removed, -, hend⟩
    · exact ⟨hclosed, hsame⟩
    · have hspawned := terminateRuntimes_spawned removed os₁
      rw [hend] at hspawned
      exact ⟨hclosed.later hspawned.ge, hsame⟩

theorem Follows.resized {size : UInt16 × UInt16} (h : Follows (app, os))
    (hr : app.resized size os = (result, app', os')) : Follows (app', os') ∧ SameShells app.panes app'.panes := by
  unfold App.resized at hr
  split at hr
  · next hres =>
    cases hr
    exact h.resizePanes hres
  · next hres =>
    cases hr
    obtain ⟨hsized, hsame⟩ := h.resizePanes hres
    exact ⟨hsized, hsame⟩

theorem Follows.operate {s t : App × Os} {op : Op} {reply : Except String Bool} (h : Follows s)
    (ho : App.operate s op = some (reply, t)) : Follows t ∧ SameShells s.1.panes t.1.panes := by
  cases op with
  | resize size =>
    rcases hr : s.1.resized size s.2 with ⟨result, app', os'⟩
    simp only [App.operate, hr] at ho
    cases ho
    exact Follows.resized h hr
  | command command =>
    obtain ⟨app', os'⟩ := t
    rcases command_inv ho with ⟨direction, outcome, -, hs, -⟩ | ⟨session, -, hf, rfl, rfl⟩ | ⟨outcome, -, hc, -⟩ |
        ⟨copyMode, -, rfl, rfl⟩
    · exact Follows.split h hs
    · exact ⟨Tracked.focusNext h hf, .refl _⟩
    · exact Follows.closeFocused h hc
    · exact ⟨h, .refl _⟩

/-- Keeps every shell that stays, and changes nothing when the shell of a split does not start. -/
structure KeepsShells (s : App × Os) (op : Op) : Prop where
  same : ∀ reply t, App.operate s op = some (reply, t) → SameShells s.1.panes t.1.panes
  unchanged : op = .command .splitHorizontal ∨ op = .command .splitVertical →
    ∀ fault os', s.2.attempt = (some fault, os') → ∀ reply t, App.operate s op = some (reply, t) →
      reply = .error fault.message ∧ t = (s.1, os')

theorem split_of_fault (h : app.Tended) {size : UInt16 × UInt16} {fault : Fault} {os₁ : Os}
    (ha : os.attempt = (some fault, os₁)) (hs : app.split direction size os = some (result, app', os')) :
    result = .error fault.message ∧ app' = app ∧ os' = os₁ := by
  obtain ⟨id, candidate, hsplit, hcases⟩ := split_inv hs
  have hfault := Owned.reconcile_of_fault h (.new 2 2) hsplit ha
  rcases hcases with ⟨error, hrec, rfl, rfl⟩ | ⟨removed, panes, os₂, hrec, -⟩
  · rw [hfault] at hrec
    cases hrec
    exact ⟨rfl, rfl, rfl⟩
  · rw [hfault] at hrec
    cases hrec

theorem Follows.keepsShells {s : App × Os} (h : Follows s) (op : Op) : KeepsShells s op := by
  refine ⟨fun reply t ho => (h.operate ho).2, fun hop fault os' ha reply t ho => ?_⟩
  obtain ⟨app', os₁⟩ := t
  have split : ∃ direction outcome, s.1.split direction s.1.lastSize s.2 = some (outcome, app', os₁) ∧
      reply = (fun _ => false) <$> outcome := by
    rcases hop with rfl | rfl
    all_goals
      rw [operate_command] at ho
      rcases command_inv ho with ⟨direction, outcome, -, hs, he⟩ | ⟨_, hne, -⟩ | ⟨_, hne, -⟩ | ⟨_, hne, -⟩
      · exact ⟨direction, outcome, hs, he⟩
      · cases hne
      · cases hne
      · simp at hne
  obtain ⟨direction, outcome, hs, rfl⟩ := split
  obtain ⟨rfl, rfl, rfl⟩ := split_of_fault h.tended ha hs
  exact ⟨rfl, rfl⟩

theorem Follows.leaves {s t : App × Os} {op : Op} (h : Follows s) (hl : App.leaves s op = some t) : Follows t := by
  obtain ⟨⟨reply, t'⟩, ho, rfl⟩ := Option.map_eq_some_iff.mp hl
  exact (h.operate ho).1

theorem Follows.new {size : UInt16 × UInt16} (h : App.new size os = (.ok app, os')) : Follows (app, os') := by
  simp only [App.new] at h
  split at h
  · cases h
  · next hrec =>
    split at h
    · cases h
    · next hr =>
      cases h
      refine (Follows.resizePanes ?_ hr).1
      exact Tracked.start (Session.Wf.new _) hrec

end App

/-! ### Runs -/

/-- In every state of a run of operations, each of which may fail at any point, the registry holds a shell for
    exactly the panes of the session. No operation replaces the shell of a pane, and a split whose shell does
    not start leaves everything as it was. -/
theorem resources_match (os₀ : Os) :
    (∀ (name : SessionName) (hosted : HostedSession) (os : Os) (ops : List HostedSession.Op),
      HostedSession.create name os₀ = (.ok hosted, os) →
      Throughout HostedSession.leaves (fun s => Matched s.1.session s.1.panes) (hosted, os) ops ∧
        Along HostedSession.leaves HostedSession.KeepsShells (hosted, os) ops) ∧
    (∀ (size : UInt16 × UInt16) (app : App) (os : Os) (ops : List App.Op), App.new size os₀ = (.ok app, os) →
      Throughout App.leaves (fun s => Matched s.1.session s.1.panes) (app, os) ops ∧
        Along App.leaves App.KeepsShells (app, os) ops) := by
  refine ⟨fun name hosted os ops hc => ?_, fun size app os ops hn => ?_⟩
  · have reached : ∀ {as t}, run HostedSession.leaves (hosted, os) as = some t → HostedSession.Follows t :=
      run_invariant (fun _ _ _ h hl => h.leaves hl) (HostedSession.Follows.create hc)
    exact ⟨fun _ _ _ _ hr => (reached hr).matched, fun _ op _ _ _ hr => (reached hr).keepsShells op⟩
  · have reached : ∀ {as t}, run App.leaves (app, os) as = some t → App.Follows t :=
      run_invariant (fun _ _ _ h hl => h.leaves hl) (App.Follows.new hn)
    exact ⟨fun _ _ _ _ hr => (reached hr).matched, fun _ op _ _ _ hr => (reached hr).keepsShells op⟩

/-- A split, a split whose shell does not start and a close, in both modes. -/
theorem resources_match_faulty :
    (∃ hosted os, HostedSession.create .work ⟨0, List.replicate 6 none ++ [some ⟨"no shell", 0⟩], []⟩ = (.ok hosted, os) ∧
      Throughout HostedSession.leaves (fun s => Matched s.1.session s.1.panes) (hosted, os)
        [.command 1, .command 2, .command 4]) ∧
    (∃ app os, App.new (80, 24) ⟨0, List.replicate 8 none ++ [some ⟨"no shell", 0⟩], []⟩ = (.ok app, os) ∧
      Throughout App.leaves (fun s => Matched s.1.session s.1.panes) (app, os)
        [.command .splitHorizontal, .command .splitVertical, .command .closeFocused]) := by
  refine ⟨?_, ?_⟩
  · obtain ⟨hosted, os, hc⟩ : ∃ hosted os,
        HostedSession.create .work ⟨0, List.replicate 6 none ++ [some ⟨"no shell", 0⟩], []⟩ = (.ok hosted, os) :=
      ⟨_, _, rfl⟩
    exact ⟨hosted, os, hc, ((resources_match _).1 _ _ _ _ hc).1⟩
  · obtain ⟨app, os, hn⟩ : ∃ app os,
        App.new (80, 24) ⟨0, List.replicate 8 none ++ [some ⟨"no shell", 0⟩], []⟩ = (.ok app, os) := ⟨_, _, rfl⟩
    exact ⟨app, os, hn, ((resources_match _).2 _ _ _ _ hn).1⟩

end NovaMux

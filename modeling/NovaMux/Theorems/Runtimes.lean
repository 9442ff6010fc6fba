import NovaMux.Theorems.Registry
import NovaMux.Theorems.Layout
import NovaMux.Runtime.LivePty

/-! What the operations on PTYs leave behind: the registry of a session keeps holding a runtime for exactly
    the session's panes, a resize that succeeds gives every runtime of the layout its size, and an
    operation that needs nothing but a reliable system succeeds. -/

namespace NovaMux

variable {session session' : Session} {panes panes' : PaneRegistry LivePty} {os os' : Os}
  {layout : List (PaneId × Rect)} {runtime runtime' : LivePty}

/-! ### Reliable systems -/

def Os.Reliable (os : Os) : Prop := ∀ outcome ∈ os.faults, outcome = none

theorem Os.Reliable.attempt (h : os.Reliable) : ∃ os', os.attempt = (none, os') ∧ os'.Reliable := by
  unfold Os.attempt
  unfold Os.Reliable at h
  cases hf : os.faults with
  | nil => exact ⟨os, rfl, h⟩
  | cons outcome faults =>
    rw [hf] at h
    obtain ⟨rfl, hrest⟩ := List.forall_mem_cons.mp h
    exact ⟨_, rfl, hrest⟩

namespace LivePty

theorem spawn_reliable (h : os.Reliable) (size : TerminalSize) :
    ∃ runtime os', spawn size os = (.ok runtime, os') ∧ os'.Reliable := by
  obtain ⟨os₁, ha, h₁⟩ := h.attempt
  rw [spawn, ha]
  exact ⟨_, _, rfl, h₁⟩

theorem write_reliable (h : os.Reliable) (runtime : LivePty) (bytes : List UInt8) :
    ∃ runtime' os', runtime.write bytes os = (.ok (), runtime', os') ∧ os'.Reliable := by
  obtain ⟨os₁, ha, h₁⟩ := h.attempt
  rw [write, ha]
  exact ⟨_, _, rfl, h₁⟩

theorem resize_reliable (h : os.Reliable) (runtime : LivePty) (size : TerminalSize) :
    ∃ runtime' os', runtime.resize size os = (.ok (), runtime', os') ∧ os'.Reliable := by
  obtain ⟨os₁, ha, h₁⟩ := h.attempt
  obtain ⟨os₂, ha', h₂⟩ := h₁.attempt
  simp only [resize, ha, ha']
  exact ⟨_, _, rfl, h₂⟩

theorem visibleText_reliable (h : os.Reliable) (runtime : LivePty) :
    ∃ text os', runtime.visibleText os = (.ok text, os') ∧ os'.Reliable := by
  obtain ⟨os₁, ha, h₁⟩ := h.attempt
  simp only [visibleText, ha]
  refine ⟨_, _, rfl, ?_⟩
  unfold Os.screen
  split <;> exact h₁

theorem terminate_reliable (h : os.Reliable) (runtime : LivePty) :
    ∃ os', runtime.terminate os = (.ok (), os') ∧ os'.Reliable := by
  obtain ⟨os₁, ha, h₁⟩ := h.attempt
  rw [terminate, ha]
  exact ⟨_, rfl, h₁⟩

/-- A resize that succeeds has set both sizes and touched nothing else. -/
theorem resize_ok {size : TerminalSize} (h : runtime.resize size os = (.ok (), runtime', os')) :
    runtime' = { runtime with master := size, terminal := size } := by
  simp only [resize] at h
  split at h
  · cases h
  · split at h
    · cases h
    · cases h
      rfl

end LivePty

/-! ### Runtimes of a session -/

/-- The registry holds a runtime for each pane of a well-formed session, and no other. -/
structure Owned (session : Session) (panes : PaneRegistry LivePty) : Prop where
  wf : session.Wf
  owned : ∀ pane, (panes.get pane).isSome ↔ pane ∈ session.panes

theorem Owned.of_reconciled (h : session.Wf) (hr : PaneRegistry.Reconciled session panes panes') :
    Owned session panes' := by
  refine ⟨h, fun pane => ⟨fun hs => ?_, hr.present pane⟩⟩
  by_contra hp
  rw [hr.dropped pane hp] at hs
  cases hs

theorem Owned.set (h : Owned session panes) {pane : PaneId} (hp : pane ∈ session.panes) (runtime : LivePty) :
    Owned session (panes.set pane runtime) := by
  refine ⟨h.wf, fun other => ?_⟩
  rw [PaneRegistry.get_set]
  split
  · next he => simpa [← he] using hp
  · exact h.owned other

/-- Resizing keeps every runtime, and what a resize of a runtime keeps of it, whether it succeeds or not. -/
theorem resizeRuntimes_map {β : Type} {f : LivePty → β}
    (hf : ∀ (runtime : LivePty) size os, f (runtime.resize size os).2.1 = f runtime) (layout : List (PaneId × Rect))
    (panes : PaneRegistry LivePty) (os : Os) (pane : PaneId) :
    ((resizeRuntimes layout panes os).2.1.get pane).map f = (panes.get pane).map f := by
  induction layout generalizing panes os with
  | nil => rfl
  | cons entry layout ih =>
    obtain ⟨other, rect⟩ := entry
    rw [resizeRuntimes]
    split
    · exact ih panes os
    · next runtime hr =>
      have hset : ∀ runtime' : LivePty, f runtime' = f runtime →
          ((panes.set other runtime').get pane).map f = (panes.get pane).map f := by
        intro runtime' hsame
        rw [PaneRegistry.get_set]
        split
        · next he => simp [← he, hr, hsame]
        · rfl
      have hsame := hf runtime (contentSize rect) os
      split
      · next hres =>
        rw [hres] at hsame
        exact hset _ hsame
      · next hres =>
        rw [hres] at hsame
        rw [ih, hset _ hsame]

theorem resizeRuntimes_isSome (layout : List (PaneId × Rect)) (panes : PaneRegistry LivePty) (os : Os) (pane : PaneId) :
    ((resizeRuntimes layout panes os).2.1.get pane).isSome = (panes.get pane).isSome := by
  have hmap := resizeRuntimes_map (f := fun _ => ()) (fun _ _ _ => rfl) layout panes os pane
  simpa using congrArg Option.isSome hmap

theorem Owned.resize (h : Owned session panes) {outcome : Except String Unit}
    (hr : resizeRuntimes layout panes os = (outcome, panes', os')) : Owned session panes' := by
  refine ⟨h.wf, fun pane => ?_⟩
  have hsome := resizeRuntimes_isSome layout panes os pane
  rw [hr] at hsome
  rw [hsome]
  exact h.owned pane

/-- Resizing the runtimes of a layout leaves those of other panes alone. -/
theorem resizeRuntimes_of_notMem {pane : PaneId} (hp : pane ∉ layout.map Prod.fst) (panes : PaneRegistry LivePty)
    (os : Os) : (resizeRuntimes layout panes os).2.1.get pane = panes.get pane := by
  induction layout generalizing panes os with
  | nil => rfl
  | cons entry layout ih =>
    obtain ⟨other, rect⟩ := entry
    obtain ⟨hne, hp⟩ := not_or.mp (mt List.mem_cons.mpr hp)
    have hset : ∀ runtime, (panes.set other runtime).get pane = panes.get pane := fun runtime => by
      rw [PaneRegistry.get_set, if_neg (Ne.symm hne)]
    rw [resizeRuntimes]
    split
    · exact ih hp panes os
    · split
      · exact hset _
      · rw [ih hp, hset]

/-- What an outcome of the system leaves alone, a resize keeps. -/
theorem LivePty.resize_keeps {β : Type} {f : Os → β} (hf : ∀ os : Os, f os.attempt.2 = f os) (runtime : LivePty)
    (size : TerminalSize) (os : Os) : f (runtime.resize size os).2.2 = f os := by
  have hs := hf os
  unfold LivePty.resize
  split
  · next ha =>
    rw [ha] at hs
    exact hs
  · next os₁ ha =>
    rw [ha] at hs
    have hs₁ := (hf os₁).trans hs
    dsimp only
    split
    all_goals
      next hb =>
        rw [hb] at hs₁
        exact hs₁

theorem resizeRuntimes_keeps {β : Type} {f : Os → β} (hf : ∀ os : Os, f os.attempt.2 = f os) (layout : List (PaneId × Rect))
    (panes : PaneRegistry LivePty) (os : Os) : f (resizeRuntimes layout panes os).2.2 = f os := by
  induction layout generalizing panes os with
  | nil => rfl
  | cons entry layout ih =>
    obtain ⟨other, rect⟩ := entry
    rw [resizeRuntimes]
    split
    · exact ih panes os
    · next runtime _ =>
      have hs := runtime.resize_keeps hf (contentSize rect) os
      split
      · next hres =>
        rw [hres] at hs
        exact hs
      · next hres =>
        rw [hres] at hs
        exact (ih _ _).trans hs

theorem terminateRuntimes_keeps {β : Type} {f : Os → β} (hf : ∀ os : Os, f os.attempt.2 = f os)
    (removed : List (PaneId × LivePty)) (os : Os) : f (terminateRuntimes removed os).2 = f os := by
  induction removed generalizing os with
  | nil => rfl
  | cons entry removed ih =>
    have hs := hf os
    simp only [terminateRuntimes, LivePty.terminate]
    rcases ha : os.attempt with ⟨_ | _, os₁⟩
    · rw [ha] at hs
      exact (ih os₁).trans hs
    · rw [ha] at hs
      exact hs

theorem Owned.focusNext (h : Owned session panes) (hf : session.focusNext = some session') : Owned session' panes := by
  refine ⟨h.wf.focusNext hf, fun pane => ?_⟩
  obtain ⟨focused, -, rfl⟩ := Session.focusNext_inv hf
  exact h.owned pane

theorem Owned.reconcile_split (h : Owned session panes) {create : PaneId → Os → Except String LivePty × Os}
    {direction : SplitDirection} {id : PaneId} {removed : List (PaneId × LivePty)}
    (hs : session.splitFocused direction = some (id, session'))
    (hr : panes.reconcile session' create os = (.ok removed, panes', os')) : Owned session' panes' :=
  Owned.of_reconciled (h.wf.splitFocused hs) (PaneRegistry.reconcile_ok hr)

/-- The panes that a close keeps have their runtimes already. -/
theorem Owned.reconcile_close (h : Owned session panes) {create : PaneId → Os → Except String LivePty × Os}
    {outcome : Except String (List (PaneId × LivePty))} (hc : session.closeFocused = some (true, session'))
    (hr : panes.reconcile session' create os = (outcome, panes', os')) :
    (∃ removed, outcome = .ok removed) ∧ Owned session' panes' := by
  obtain ⟨⟨removed, rfl⟩, -⟩ := PaneRegistry.reconcile_of_owned (fun pane hp => (h.owned pane).mpr (by
    rw [Session.panes_of_closeFocused hc] at hp
    exact (List.mem_filter.mp hp).1)) hr
  exact ⟨⟨removed, rfl⟩, Owned.of_reconciled (h.wf.closeFocused hc) (PaneRegistry.reconcile_ok hr)⟩

/-- The runtime of each pane of the layout has the size of the inside of the pane's rectangle. -/
def Sized (panes : PaneRegistry LivePty) (layout : List (PaneId × Rect)) : Prop :=
  ∀ entry ∈ layout, ∃ runtime, panes.get entry.1 = some runtime ∧
    runtime.master = contentSize entry.2 ∧ runtime.terminal = contentSize entry.2

theorem resizeRuntimes_sized (hn : (layout.map Prod.fst).Nodup) (hp : ∀ entry ∈ layout, (panes.get entry.1).isSome)
    (h : resizeRuntimes layout panes os = (.ok (), panes', os')) : Sized panes' layout := by
  induction layout generalizing panes os with
  | nil => exact nofun
  | cons entry layout ih =>
    obtain ⟨pane, rect⟩ := entry
    obtain ⟨hnotin, hn⟩ := List.nodup_cons.mp hn
    obtain ⟨hpane, hrest⟩ := List.forall_mem_cons.mp hp
    obtain ⟨runtime, hr⟩ := Option.isSome_iff_exists.mp hpane
    simp only [resizeRuntimes, hr] at h
    split at h
    · cases h
    · next runtime' os₁ hres =>
      have hget : panes'.get pane = some runtime' := by
        have := resizeRuntimes_of_notMem hnotin (panes.set pane runtime') os₁
        rw [h, PaneRegistry.get_set, if_pos rfl] at this
        exact this
      refine List.forall_mem_cons.mpr ⟨⟨runtime', hget, ?_⟩, ih hn (fun entry he => ?_) h⟩
      · rw [LivePty.resize_ok hres]
        exact ⟨rfl, rfl⟩
      · rw [PaneRegistry.get_set]
        split
        · rfl
        · exact hrest entry he

theorem resizeRuntimes_reliable (h : os.Reliable) (layout : List (PaneId × Rect)) (panes : PaneRegistry LivePty) :
    ∃ panes' os', resizeRuntimes layout panes os = (.ok (), panes', os') ∧ os'.Reliable := by
  induction layout generalizing panes os with
  | nil => exact ⟨panes, os, rfl, h⟩
  | cons entry layout ih =>
    obtain ⟨pane, rect⟩ := entry
    rw [resizeRuntimes]
    cases panes.get pane with
    | none => exact ih h panes
    | some runtime =>
      obtain ⟨runtime', os₁, hr, h₁⟩ := runtime.resize_reliable h (contentSize rect)
      simp only [hr]
      exact ih h₁ _

theorem terminateRuntimes_reliable (h : os.Reliable) (removed : List (PaneId × LivePty)) :
    ∃ os', terminateRuntimes removed os = (.ok (), os') ∧ os'.Reliable := by
  induction removed generalizing os with
  | nil => exact ⟨os, rfl, h⟩
  | cons entry removed ih =>
    obtain ⟨pane, runtime⟩ := entry
    obtain ⟨os₁, hr, h₁⟩ := runtime.terminate_reliable h
    simp only [terminateRuntimes, hr]
    exact ih h₁

theorem createMissing_reliable (h : os.Reliable) (size : TerminalSize) (missing : List PaneId) :
    ∃ created os', PaneRegistry.createMissing (fun _ => LivePty.spawn size) missing os = (.ok created, os') ∧
      os'.Reliable := by
  induction missing generalizing os with
  | nil => exact ⟨[], os, rfl, h⟩
  | cons pane missing ih =>
    obtain ⟨runtime, os₁, hs, h₁⟩ := LivePty.spawn_reliable h size
    obtain ⟨created, os₂, hc, h₂⟩ := ih h₁
    simp only [PaneRegistry.createMissing, hs, hc]
    exact ⟨_, _, rfl, h₂⟩

theorem reconcile_reliable (h : os.Reliable) (panes : PaneRegistry LivePty) (session : Session) (size : TerminalSize) :
    ∃ removed panes' os', panes.reconcile session (fun _ => LivePty.spawn size) os = (.ok removed, panes', os') ∧
      os'.Reliable := by
  obtain ⟨created, os₁, hc, h₁⟩ := createMissing_reliable h size
    ((PaneRegistry.wanted session).toList.filter fun pane => !panes.resources.contains pane)
  simp only [PaneRegistry.reconcile, hc]
  exact ⟨_, _, _, rfl, h₁⟩

end NovaMux

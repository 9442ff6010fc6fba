import NovaMux.Runtime.Guards
import NovaMux.Theorems.Exits
import NovaMux.Theorems.Pictures

/-! What the interactive clients leave behind. They draw on the alternate screen only, and between the two halves of their
    guard. So whatever fails, the main screen is never written on, and a client that the terminal has let in and out again
    leaves it as it was. The local client ends every shell that it still has. -/

namespace NovaMux

/-- The user's terminal. -/
structure Tty where
  raw : Bool
  /-- The mode to go back to from raw mode. -/
  prior : Option Bool
  visible : Bool
  screen : Display
  /-- The main screen, while the alternate one is shown. -/
  main : Option Display

namespace Tty

/-- What the terminal makes of what it is told. Raw mode is not entered twice, and the alternate screen starts empty. -/
def exec (tty : Tty) : Told → Tty
  | .enableRawMode =>
    match tty.prior with
    | some _ => tty
    | none => { tty with raw := true, prior := some tty.raw }
  | .disableRawMode =>
    match tty.prior with
    | some raw => { tty with raw, prior := none }
    | none => tty
  | .enterAlternateScreen =>
    match tty.main with
    | some _ => tty
    | none => { tty with screen := tty.screen.clear, main := some tty.screen }
  | .leaveAlternateScreen =>
    match tty.main with
    | some screen => { tty with screen, main := none }
    | none => tty
  | .resetAttributes => { tty with screen := tty.screen.withPen ⟨none, none⟩ }
  | .show => { tty with visible := true }
  | .queued .hide => { tty with visible := false }
  | .queued command => { tty with screen := command.exec tty.screen }

def run (tty : Tty) (told : List Told) : Tty := told.foldl exec tty

/-- The main screen, whether it is shown or not. -/
def own (tty : Tty) : Display := tty.main.getD tty.screen

/-- Nobody has taken the terminal over. -/
structure Free (tty : Tty) : Prop where
  prior : tty.prior = none
  main : tty.main = none
  visible : tty.visible = true

/-- At no moment something else is on the main screen. -/
def Keeps (tty : Tty) (told : List Told) : Prop :=
  ∀ earlier, earlier <+: told → (tty.run earlier).own.cells = tty.own.cells

variable {tty : Tty} {told told' : List Told} {refusals : Refusals}

theorem run_cons (tty : Tty) (first : Told) (told : List Told) : tty.run (first :: told) = (tty.exec first).run told := rfl

theorem run_append (tty : Tty) (told told' : List Told) : tty.run (told ++ told') = (tty.run told).run told' :=
  List.foldl_append

/-! ### The main screen -/

theorem keeps_nil (tty : Tty) : tty.Keeps [] := by
  intro earlier hp
  rw [List.prefix_nil.mp hp]
  rfl

theorem keeps_append (h : tty.Keeps told) (h' : (tty.run told).Keeps told') : tty.Keeps (told ++ told') := by
  intro earlier hp
  rcases List.prefix_or_prefix_of_prefix hp (List.prefix_append told told') with hfirst | ⟨rest, rfl⟩
  · exact h earlier hfirst
  · rw [run_append, h' rest ((List.prefix_append_right_inj told).mp hp)]
    exact h told List.prefix_rfl

theorem keeps_of_exec {K : Told → Prop} {I : Tty → Prop}
    (keep : ∀ tty first, I tty → K first → (tty.exec first).own.cells = tty.own.cells ∧ I (tty.exec first))
    (htty : I tty) (htold : ∀ first ∈ told, K first) : tty.Keeps told ∧ I (tty.run told) := by
  induction told generalizing tty with
  | nil => exact ⟨keeps_nil tty, htty⟩
  | cons first told ih =>
    obtain ⟨hfirst, hrest⟩ := List.forall_mem_cons.mp htold
    obtain ⟨hcells, hnext⟩ := keep tty first htty hfirst
    obtain ⟨hkeeps, hlast⟩ := ih hnext hrest
    refine ⟨fun earlier hp => ?_, hlast⟩
    rcases List.prefix_cons_iff.mp hp with rfl | ⟨later, rfl, hlater⟩
    · rfl
    · rw [run_cons, hkeeps later hlater, hcells]

/-- Nothing is written. -/
def Mild : Told → Prop
  | .queued command => command = .hide ∨ command = .resetColor
  | _ => True

theorem exec_mild (tty : Tty) {first : Told} (h : Mild first) : (tty.exec first).own.cells = tty.own.cells := by
  obtain ⟨raw, prior, visible, screen, main⟩ := tty
  cases first with
  | enableRawMode | disableRawMode => cases prior <;> rfl
  | enterAlternateScreen | leaveAlternateScreen => cases main <;> rfl
  | resetAttributes => cases main <;> rfl
  | «show» => rfl
  | queued command =>
    rcases h with rfl | rfl
    · rfl
    · cases main <;> rfl

theorem keeps_mild (tty : Tty) (h : ∀ first ∈ told, Mild first) : tty.Keeps told :=
  (keeps_of_exec (I := fun _ => True) (fun tty _ _ hk => ⟨exec_mild tty hk, trivial⟩) trivial h).1

/-- Drawing changes the screen that is shown and whether the cursor is. -/
theorem exec_queued (tty : Tty) (command : Queued) : ∃ screen visible,
    tty.exec (.queued command) = { tty with screen, visible } := by
  cases command with
  | hide => exact ⟨tty.screen, false, rfl⟩
  | setForegroundColor | setBackgroundColor | clear | moveTo | print | resetColor => exact ⟨_, tty.visible, rfl⟩

/-- On the alternate screen everything may be drawn. -/
theorem run_away (tty : Tty) {main : Display} (hmain : tty.main = some main) (drawn : List Queued) :
    tty.Keeps (drawn.map .queued) ∧ ∃ screen visible, tty.run (drawn.map .queued) = { tty with screen, visible } := by
  induction drawn generalizing tty with
  | nil => exact ⟨keeps_nil tty, tty.screen, tty.visible, rfl⟩
  | cons command drawn ih =>
    obtain ⟨screen, visible, hexec⟩ := exec_queued tty command
    obtain ⟨hkeeps, screen', visible', hrun⟩ := ih (tty.exec (.queued command)) (hexec ▸ hmain)
    have hfirst : tty.Keeps [.queued command] := by
      intro earlier hp
      rcases List.prefix_cons_iff.mp hp with rfl | ⟨later, rfl, hlater⟩
      · rfl
      · rw [List.prefix_nil.mp hlater, run_cons, hexec]
        simp only [own, run, List.foldl_nil, hmain, Option.getD_some]
    refine ⟨keeps_append hfirst hkeeps, screen', visible', ?_⟩
    rw [List.map_cons, run_cons, hrun, hexec]

/-! ### Guards -/

/-- What a client tells the terminal in the end: nothing, what a refused guard has told it, or what it has drawn between
    the two halves of its guard. -/
inductive Client (refusals : Refusals) : List Told → Prop where
  | nothing : Client refusals []
  | refused {error : String} {told : List Told} (h : ScreenGuard.enter refusals = (.error error, told)) :
    Client refusals told
  | between {entered : List Told} (h : ScreenGuard.enter refusals = (.ok (), entered)) (drawn : List Queued) :
    Client refusals (entered ++ drawn.map .queued ++ ScreenGuard.drop refusals)

theorem mild_taken {commands : List Told} (h : ∀ first ∈ commands, Mild first) (fault : Option Fault) :
    ∀ first ∈ Refusals.taken commands fault, Mild first := by
  intro first hf
  cases fault with
  | none => exact h first hf
  | some fault => exact h first (List.mem_of_mem_take hf)

theorem mild_disable (refusals : Refusals) : ∀ first ∈ refusals.disableRawMode, Mild first := by
  intro first hf
  unfold Refusals.disableRawMode at hf
  split at hf
  · cases List.mem_singleton.mp hf
    trivial
  · cases hf

theorem mild_drop (refusals : Refusals) : ∀ first ∈ ScreenGuard.drop refusals, Mild first := by
  intro first hf
  rcases List.mem_append.mp hf with hf | hf
  · refine mild_taken (fun first hf => ?_) refusals.leave first hf
    rcases List.mem_cons.mp hf with rfl | hf
    · trivial
    · rcases List.mem_cons.mp hf with rfl | hf
      · exact Or.inr rfl
      · rcases List.mem_cons.mp hf with rfl | hf
        · trivial
        · cases List.mem_singleton.mp hf
          trivial
  · exact mild_disable refusals first hf

theorem mild_entering : ∀ first ∈ [Told.enterAlternateScreen, .queued .hide], Mild first := by
  intro first hf
  rcases List.mem_cons.mp hf with rfl | hf
  · trivial
  · cases List.mem_singleton.mp hf
    exact Or.inl rfl

theorem mild_enter {result : Except String Unit} (h : ScreenGuard.enter refusals = (result, told)) :
    ∀ first ∈ told, Mild first := by
  unfold ScreenGuard.enter at h
  split at h
  · cases h
    intro first hf
    cases hf
  · have htaken := mild_taken mild_entering refusals.enter
    have hopened : ∀ first ∈ Told.enableRawMode :: Refusals.taken [.enterAlternateScreen, .queued .hide] refusals.enter,
        Mild first := List.forall_mem_cons.mpr ⟨trivial, htaken⟩
    dsimp only at h
    split at h
    · cases h
      exact List.forall_mem_append.mpr ⟨hopened, mild_disable refusals⟩
    · cases h
      exact hopened

/-- A guard that has entered has told the terminal everything. -/
theorem enter_ok (h : ScreenGuard.enter refusals = (.ok (), told)) :
    refusals.enter = none ∧ told = [.enableRawMode, .enterAlternateScreen, .queued .hide] := by
  unfold ScreenGuard.enter at h
  split at h
  · cases h
  · dsimp only at h
    split at h
    · cases h
    · next hnone =>
      rw [hnone] at h
      cases h
      exact ⟨hnone, rfl⟩

/-- A free terminal behind the first half of a guard. -/
theorem run_entered (h : tty.Free) : tty.run [.enableRawMode, .enterAlternateScreen, .queued .hide] =
    { raw := true, prior := some tty.raw, visible := false, screen := tty.screen.clear, main := some tty.screen } := by
  simp only [run, List.foldl_cons, List.foldl_nil, exec, h.prior, h.main]

theorem Client.keeps (h : Client refusals told) (htty : tty.Free) : tty.Keeps told := by
  cases h with
  | nothing => exact keeps_nil tty
  | refused h => exact keeps_mild tty (mild_enter h)
  | between h drawn =>
    obtain ⟨-, rfl⟩ := enter_ok h
    have hmain : (tty.run [.enableRawMode, .enterAlternateScreen, .queued .hide]).main = some tty.screen := by
      rw [run_entered htty]
    exact keeps_append (keeps_append (keeps_mild tty (mild_enter h)) (run_away _ hmain drawn).1)
      (keeps_mild _ (mild_drop refusals))

end Tty

/-! ### Shells -/

namespace App

variable {app app' : App} {os os' : Os}

/-- The shells of some panes are those of the registry, in the order of the panes. -/
theorem terminateAll_shells {panes : PaneRegistry LivePty} {ids : List PaneId}
    (h : ∀ pane ∈ ids, (panes.get pane).isSome) (os : Os) :
    (terminateAll panes ids os).1.map some = ids.map fun pane => (panes.get pane).map LivePty.child := by
  induction ids generalizing os with
  | nil => rfl
  | cons pane ids ih =>
    obtain ⟨hpane, hids⟩ := List.forall_mem_cons.mp h
    obtain ⟨runtime, hget⟩ := Option.isSome_iff_exists.mp hpane
    simp only [terminateAll, hget, List.map_cons, Option.map_some, ih hids]

/-- A client ends the shells of all its panes, and has no others. -/
def EndsShells (app : App) (children : List Nat) : Prop :=
  children.map some = app.session.panes.map (fun pane => (app.panes.get pane).map LivePty.child) ∧
    ∀ pane, (app.panes.get pane).isSome ↔ pane ∈ app.session.panes

theorem Tended.shutdown (h : app.Tended) (os : Os) : app.EndsShells (app.shutdown os).1 :=
  ⟨terminateAll_shells (fun pane hp => (h.owned pane).mpr hp) os, h.owned⟩

theorem Tended.handleAwake (h : app.Tended) {idle idle' : IdleState} {size : UInt16 × UInt16} {event : TerminalEvent}
    {input : Nat} {history : UInt64} {flow : Except String Flow}
    (he : app.handleAwake idle size event input history os = some (flow, app', idle', os')) : app'.Tended := by
  cases event with
  | key key =>
    simp only [App.handleAwake] at he
    split at he
    · cases he
      exact h
    · split at he
      · cases he
        exact h
      · obtain ⟨⟨result, app₁, os₁⟩, hhandle, he⟩ := Option.bind_eq_some_iff.mp he
        cases he
        exact h.handle hhandle
  | resize cols rows =>
    simp only [App.handleAwake] at he
    obtain ⟨⟨result, app₁, os₁⟩, hhandle, he⟩ := Option.bind_eq_some_iff.mp he
    cases he
    exact h.handle hhandle
  | mouse | other =>
    cases he
    exact h

end App

namespace LocalScreen

variable {s t : LocalScreen}

theorem step_tended {visuals : Visuals} {round : Round} (h : s.client.app.Tended) (hs : s.step visuals round = some t) :
    t.client.app.Tended := by
  unfold LocalScreen.step at hs
  split at hs
  · dsimp only at hs
    split at hs
    · next hresized =>
      cases hs
      exact h.settled hresized
    · next app os hresized =>
      have hsettled : app.Tended := h.settled hresized
      obtain ⟨⟨drawn, idle⟩, -, hs⟩ := Option.bind_eq_some_iff.mp hs
      rcases drawn with error | frame
      · cases hs
        exact hsettled
      · obtain ⟨⟨flow, app₁, idle₁, os₁⟩, hevent, hs⟩ := Option.bind_eq_some_iff.mp hs
        have hhandled : app₁.Tended := by
          cases hround : round.tick.event with
          | none =>
            rw [hround] at hevent
            cases hevent
            exact hsettled
          | some event =>
            rw [hround] at hevent
            exact hsettled.handleAwake hevent
        rcases flow with error | flow
        · cases hs
          exact hhandled
        · cases flow with
          | leave | skip =>
            cases hs
            exact hhandled
          | proceed =>
            obtain ⟨⟨result, app₂, os₂⟩, hreap, hs⟩ := Option.bind_eq_some_iff.mp hs
            cases hs
            exact hhandled.reap_any hreap
  · cases hs

end LocalScreen

/-! ### Clients -/

namespace Tui

variable {setting : Setting} {os : Os} {rounds : List Round} {unfinished : List Queued} {ended : Ended} {told : List Told}
  {children : List Nat}

/-- A client comes to its event loop, with these settings, panes and shells. -/
structure Opens (setting : Setting) (os : Os) (config : Config) (size : UInt16 × UInt16) (app : App) (os' : Os) :
    Prop where
  interactive : setting.interactive = true
  configured : setting.config = .ok config
  entered : (ScreenGuard.enter setting.refusals).1 = .ok ()
  measured : setting.size = .ok size
  created : App.new size os = (.ok app, os')

/-- A client that comes to its event loop ends the shells that it has behind it, and any other has none to end. -/
def Accounted (setting : Setting) (os : Os) (rounds : List Round) (children : List Nat) : Prop :=
  (children = [] ∧ ∀ config size app os', ¬Opens setting os config size app os') ∨
    ∃ config size app os' s, Opens setting os config size app os' ∧
      Machine.run (LocalScreen.step { config, env := setting.env, idleAllowed := setting.interactive })
        (.start (.start app size os') setting.now) rounds = some s ∧ s.client.app.EndsShells children

theorem run_inv (h : run setting os rounds unfinished = some (ended, told, children)) :
    Tty.Client setting.refusals told ∧ Accounted setting os rounds children := by
  unfold run at h
  split at h
  · next hbatch =>
    cases h
    refine ⟨.nothing, Or.inl ⟨rfl, fun config size app os' hopens => ?_⟩⟩
    rw [hopens.interactive] at hbatch
    cases hbatch
  · next hinteractive =>
    split at h
    · next error hconfig =>
      cases h
      refine ⟨.nothing, Or.inl ⟨rfl, fun config size app os' hopens => ?_⟩⟩
      cases hconfig.symm.trans hopens.configured
    · next config hconfig =>
      split at h
      · next henter =>
        cases h
        refine ⟨.refused henter, Or.inl ⟨rfl, fun config size app os' hopens => ?_⟩⟩
        have hentered := hopens.entered
        rw [henter] at hentered
        cases hentered
      · next entered henter =>
        -- From here on the guard is held, whatever the way out.
        have hnothing := Tty.Client.between henter []
        rw [List.map_nil, List.append_nil] at hnothing
        dsimp only at h
        split at h
        · next error hsize =>
          cases h
          refine ⟨hnothing, Or.inl ⟨rfl, fun config size app os' hopens => ?_⟩⟩
          cases hsize.symm.trans hopens.measured
        · next size hsize =>
          split at h
          · next error os' hnew =>
            cases h
            refine ⟨hnothing, Or.inl ⟨rfl, fun config size' app os' hopens => ?_⟩⟩
            obtain rfl : size = size' := Except.ok.inj (hsize.symm.trans hopens.measured)
            cases (Prod.mk.inj (hnew.symm.trans hopens.created)).1
          · next app os' hnew =>
            obtain ⟨s, hrun, h⟩ := Option.bind_eq_some_iff.mp h
            cases h
            -- The loop keeps a shell for each pane, which is what the end goes through.
            have htended : s.client.app.Tended := Machine.run_invariant (I := fun s => s.client.app.Tended)
              (fun _ _ _ htended hs => LocalScreen.step_tended htended hs) (App.Tended.new hnew) hrun
            have hopens : Opens setting os config size app os' :=
              ⟨by simpa using hinteractive, hconfig, by rw [henter], hsize, hnew⟩
            exact ⟨.between henter _, Or.inr ⟨config, size, app, os', s, hopens, hrun, htended.shutdown _⟩⟩

end Tui

end NovaMux

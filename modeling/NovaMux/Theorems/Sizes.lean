import NovaMux.Theorems.Hosted
import NovaMux.Theorems.App
import NovaMux.Lib.Machine

/-! PTY sizes against the layout, for hosted sessions and for the local client. A resize and a split size
    every runtime; a close sizes none, so the runtimes keep fitting the layout exactly when the close gives
    no surviving pane another size. -/

namespace NovaMux

open Machine

/-! ### What one operation does to the sizes -/

section

variable {session session' : Session} {panes panes' : PaneRegistry LivePty} {os os' : Os} {area : Rect}

theorem Session.mem_panes_iff_layout {pane : PaneId} (area : Rect) :
    pane ∈ session.panes ↔ ∃ rect, (pane, rect) ∈ session.layout area := by
  rw [Session.panes_eq, Session.layout_eq, ← Node.map_fst_rects session.root area]
  simp

theorem Owned.sized (h : Owned session panes)
    (hr : resizeRuntimes (session.layout area) panes os = (.ok (), panes', os')) : Sized panes' (session.layout area) := by
  refine resizeRuntimes_sized ?_ (fun entry he => ?_) hr
  · rw [Session.layout_eq, Node.map_fst_rects, ← Session.panes_eq]
    exact h.wf.nodup
  · exact (h.owned entry.1).mpr ((Session.mem_panes_iff_layout area).mpr ⟨entry.2, he⟩)

theorem layout_focusNext (h : session.focusNext = some session') (area : Rect) :
    session'.layout area = session.layout area := by
  obtain ⟨focused, -, rfl⟩ := Session.focusNext_inv h
  rfl

/-- Closing the focused pane gives every other pane a rectangle of the same content size. -/
def KeepsSizes (session : Session) (area : Rect) : Prop :=
  ∀ session', session.closeFocused = some (true, session') →
    ∀ pane before after, (pane, before) ∈ session.layout area → (pane, after) ∈ session'.layout area →
      contentSize after = contentSize before

/-- After a close the runtimes fit exactly when no content size changed. -/
theorem sized_close (hs : Sized panes (session.layout area)) (hc : session.closeFocused = some (true, session'))
    (hr : PaneRegistry.Reconciled session' panes panes') :
    Sized panes' (session'.layout area) ↔ KeepsSizes session area := by
  have survivor : ∀ pane before, pane ∈ session'.panes → (pane, before) ∈ session.layout area →
      ∃ runtime, panes'.get pane = some runtime ∧
        runtime.master = contentSize before ∧ runtime.terminal = contentSize before := by
    intro pane before hp hb
    obtain ⟨runtime, hget, hsize⟩ := hs (pane, before) hb
    exact ⟨runtime, hr.kept pane hp runtime hget, hsize⟩
  refine ⟨fun hsized t ht pane before after hb ha => ?_, fun hkeep h ha => ?_⟩
  · obtain rfl : session' = t := (Prod.mk.inj (Option.some.inj (hc.symm.trans ht))).2
    have hp : pane ∈ session'.panes := (Session.mem_panes_iff_layout area).mpr ⟨after, ha⟩
    obtain ⟨runtime, hget, hmaster, -⟩ := survivor pane before hp hb
    obtain ⟨runtime', hget', hmaster', -⟩ := hsized (pane, after) ha
    obtain rfl : runtime = runtime' := Option.some.inj (hget.symm.trans hget')
    exact hmaster'.symm.trans hmaster
  · obtain ⟨pane, after⟩ := h
    have hp : pane ∈ session'.panes := (Session.mem_panes_iff_layout area).mpr ⟨after, ha⟩
    have hp' : pane ∈ session.panes := by
      rw [Session.panes_of_closeFocused hc] at hp
      exact (List.mem_filter.mp hp).1
    obtain ⟨before, hb⟩ := (Session.mem_panes_iff_layout area).mp hp'
    rw [hkeep session' hc pane before after hb ha]
    exact survivor pane before hp hb

end

variable {os os' : Os}

/-! ### Hosted sessions -/

namespace HostedSession

/-- The viewport without its status line. -/
def area (hosted : HostedSession) : Rect :=
  { x := 0, y := 0, width := hosted.viewport.1, height := hosted.viewport.2.saturatingSub 1 }

theorem layout_area (hosted : HostedSession) : hosted.layout = hosted.session.layout hosted.area := rfl

inductive Op where
  | resize (cols rows : UInt16)
  | command (code : UInt8)
deriving DecidableEq, Repr

/-- The session after an operation that succeeds. -/
def perform (s : HostedSession × Os) : Op → Option (HostedSession × Os)
  | .resize cols rows =>
    match s.1.resize cols rows s.2 with
    | (.ok (), t) => some t
    | (.error _, _) => none
  | .command code =>
    match s.1.command code s.2 with
    | some (.ok (), t) => some t
    | _ => none

/-- Every runtime has the size that the current layout gives to its pane. -/
def Fits (s : HostedSession × Os) : Prop := Sized s.1.panes s.1.layout

/-- A close does not change the content size of a surviving pane. -/
def CloseKeepsSizes (s : HostedSession × Os) (op : Op) : Prop :=
  op = .command 4 → KeepsSizes s.1.session s.1.area

variable {hosted hosted' : HostedSession} {direction : SplitDirection} {cols rows : UInt16}

theorem perform_resize {s t : HostedSession × Os} :
    perform s (.resize cols rows) = some t ↔ s.1.resize cols rows s.2 = (.ok (), t) := by
  simp only [perform]
  split <;> simp_all

theorem perform_command {s t : HostedSession × Os} {code : UInt8} :
    perform s (.command code) = some t ↔ s.1.command code s.2 = some (.ok (), t) := by
  simp only [perform]
  split <;> simp_all

theorem Tended.fits_resize (h : hosted.Tended) (hr : hosted.resize cols rows os = (.ok (), hosted', os')) :
    Fits (hosted', os') := by
  obtain ⟨outcome, panes, rfl, hres, hok⟩ := resize_inv hr
  cases outcome with
  | error error => cases hok
  | ok => exact (show Owned hosted.session hosted.panes from h).sized hres

theorem Tended.fits_split (h : hosted.Tended) (hs : hosted.split direction os = some (.ok (), hosted', os')) :
    Fits (hosted', os') := by
  rcases split_inv hs with ⟨id, candidate, hsplit, ⟨error, -, he, -⟩ | ⟨removed, panes, os₁, hrec, hres⟩⟩
  · cases he
  · have started : Tended { hosted with panes, session := candidate } := Owned.reconcile_split h hsplit hrec
    exact started.fits_resize hres

theorem fits_close (hf : Fits (hosted, os)) (hc : hosted.close os = some (.ok (), hosted', os')) :
    Fits (hosted', os') ↔ KeepsSizes hosted.session hosted.area := by
  rcases close_inv hc with ⟨session, hs, rfl, -⟩ | ⟨session, outcome, panes, os₁, hs, hrec, rfl, hend⟩
  · refine ⟨fun _ t ht => ?_, fun _ => hf⟩
    rw [hs] at ht
    cases ht
  · rcases hend with ⟨_, -, ⟨⟩, -⟩ | ⟨removed, ended, rfl, -⟩
    exact sized_close hf hs (PaneRegistry.reconcile_ok hrec)

/-- Of the successful operations only a close can leave a runtime with a wrong size. -/
theorem fits_step {s t : HostedSession × Os} {op : Op} (h : s.1.Tended) (hf : Fits s) (hs : perform s op = some t) :
    Fits t ↔ CloseKeepsSizes s op := by
  cases op with
  | resize cols rows => exact ⟨fun _ he => (by cases he), fun _ => h.fits_resize (perform_resize.mp hs)⟩
  | command code =>
    have hc := perform_command.mp hs
    unfold command at hc
    split at hc
    · exact ⟨fun _ he => absurd he (by decide), fun _ => h.fits_split hc⟩
    · exact ⟨fun _ he => absurd he (by decide), fun _ => h.fits_split hc⟩
    · obtain ⟨session, hfoc, hc⟩ := Option.bind_eq_some_iff.mp hc
      cases hc
      refine ⟨fun _ he => absurd he (by decide), fun _ => ?_⟩
      rw [Fits, layout_area, layout_focusNext hfoc]
      exact hf
    · exact (fits_close hf hc).trans ⟨fun hk _ => hk, fun hk => hk rfl⟩
    · cases hc

theorem Tended.perform {s t : HostedSession × Os} {op : Op} (h : s.1.Tended) (hs : HostedSession.perform s op = some t) :
    t.1.Tended := by
  cases op with
  | resize cols rows => exact h.resize (perform_resize.mp hs)
  | command code => exact h.command (perform_command.mp hs)

end HostedSession

/-! ### The local client -/

namespace App

variable {app app' : App} {size : UInt16 × UInt16} {result : Except String Unit} {direction : SplitDirection}

def area (size : UInt16 × UInt16) : Rect :=
  { x := 0, y := 0, width := size.1, height := size.2.saturatingSub statusRows }

theorem layout_area (app : App) (size : UInt16 × UInt16) : app.layout size = app.session.layout (area size) := rfl

inductive Op where
  | resize (size : UInt16 × UInt16)
  | command (command : MultiplexerCommand)
deriving DecidableEq, Repr

/-- The client after an operation that succeeds. The event loop passes the last size to its commands. -/
def perform (s : App × Os) : Op → Option (App × Os)
  | .resize size =>
    match s.1.resized size s.2 with
    | (.ok (), t) => some t
    | (.error _, _) => none
  | .command command =>
    match s.1.command command s.1.lastSize s.2 with
    | some (.ok _, t) => some t
    | _ => none

def Fits (s : App × Os) : Prop := Sized s.1.panes (s.1.layout s.1.lastSize)

def CloseKeepsSizes (s : App × Os) (op : Op) : Prop :=
  op = .command .closeFocused → KeepsSizes s.1.session (area s.1.lastSize)

theorem perform_resize {s t : App × Os} : perform s (.resize size) = some t ↔ s.1.resized size s.2 = (.ok (), t) := by
  simp only [perform]
  split <;> simp_all

theorem perform_command {s t : App × Os} {command : MultiplexerCommand} :
    perform s (.command command) = some t ↔ ∃ leave, s.1.command command s.1.lastSize s.2 = some (.ok leave, t) := by
  simp only [perform]
  split <;> simp_all

theorem resizePanes_lastSize (h : app.resizePanes size os = (result, app', os')) : app'.lastSize = app.lastSize := by
  obtain ⟨panes, rfl, -⟩ := resizePanes_inv h
  rfl

theorem Tended.sized (h : app.Tended) (hr : app.resizePanes size os = (.ok (), app', os')) :
    Sized app'.panes (app'.layout size) := by
  obtain ⟨panes, rfl, hres⟩ := resizePanes_inv hr
  exact (show Owned app.session app.panes from h).sized hres

theorem Tended.fits_new (h : App.new size os = (.ok app, os')) : Fits (app, os') := by
  obtain ⟨start, os₁, hstart, hlast, hr⟩ := new_inv h
  rw [Fits, resizePanes_lastSize hr, hlast]
  exact hstart.sized hr

theorem Tended.fits_split (h : app.Tended) (hs : app.split direction app.lastSize os = some (.ok (), app', os')) :
    Fits (app', os') := by
  rcases split_inv hs with ⟨id, candidate, hsplit, ⟨error, -, he, -⟩ | ⟨removed, panes, os₁, hrec, hres⟩⟩
  · cases he
  · have started : Tended { app with panes, session := candidate } := Owned.reconcile_split h hsplit hrec
    rw [Fits, resizePanes_lastSize hres]
    exact started.sized hres

theorem fits_closeFocused (hf : Fits (app, os)) (hc : app.closeFocused os = some (.ok (), app', os')) :
    Fits (app', os') ↔ KeepsSizes app.session (area app.lastSize) := by
  rcases closeFocused_inv hc with ⟨session, hs, rfl, -⟩ | ⟨session, outcome, panes, os₁, hs, hrec, rfl, hend⟩
  · refine ⟨fun _ t ht => ?_, fun _ => hf⟩
    rw [hs] at ht
    cases ht
  · rcases hend with ⟨_, -, ⟨⟩, -⟩ | ⟨removed, rfl, -⟩
    exact sized_close hf hs (PaneRegistry.reconcile_ok hrec)

theorem fits_step {s t : App × Os} {op : Op} (h : s.1.Tended) (hf : Fits s) (hs : perform s op = some t) :
    Fits t ↔ CloseKeepsSizes s op := by
  cases op with
  | resize size =>
    obtain ⟨sized, hr, ht⟩ := resized_inv (perform_resize.mp hs)
    have hsized := h.sized hr
    refine ⟨fun _ he => (by cases he), fun _ => ?_⟩
    rw [Fits, ht]
    exact hsized
  | command command =>
    obtain ⟨leave, hc⟩ := perform_command.mp hs
    rcases command_inv hc with ⟨direction, outcome, hcom, hsp, hok⟩ | ⟨session, hcom, hfoc, ht, -⟩ |
        ⟨outcome, rfl, hcl, hok⟩ | ⟨copyMode, hcom, ht, -⟩
    · obtain ⟨⟨⟩, rfl, -⟩ := Except.map_eq_ok.mp hok.symm
      refine ⟨fun _ he => ?_, fun _ => h.fits_split hsp⟩
      obtain rfl := Op.command.inj he
      simp at hcom
    · refine ⟨fun _ he => ?_, fun _ => ?_⟩
      · obtain rfl := Op.command.inj he
        cases hcom
      · rw [Fits, layout_area, ht, layout_focusNext hfoc]
        exact hf
    · obtain ⟨⟨⟩, rfl, -⟩ := Except.map_eq_ok.mp hok.symm
      exact (fits_closeFocused hf hcl).trans ⟨fun hk _ => hk, fun hk => hk rfl⟩
    · refine ⟨fun _ he => ?_, fun _ => ?_⟩
      · obtain rfl := Op.command.inj he
        simp at hcom
      · rw [Fits, ht]
        exact hf

theorem Tended.perform {s t : App × Os} {op : Op} (h : s.1.Tended) (hs : App.perform s op = some t) : t.1.Tended := by
  cases op with
  | resize size => exact h.resized (perform_resize.mp hs)
  | command command =>
    obtain ⟨leave, hc⟩ := perform_command.mp hs
    exact h.command hc

end App

/-! ### Runs -/

/-- From the first resize on, every runtime has the size that the layout gives to its pane in all states of a
    run of successful operations exactly when no close of the run changes the content size of a survivor. -/
theorem sizes_follow_layout (os₀ : Os) :
    (∀ (name : SessionName) (os₁ : Os) (hosted : HostedSession) (cols rows : UInt16)
        (start last : HostedSession × Os) (ops : List HostedSession.Op),
      HostedSession.create name os₀ = (.ok hosted, os₁) → hosted.resize cols rows os₁ = (.ok (), start) →
      run HostedSession.perform start ops = some last →
      (Throughout HostedSession.perform HostedSession.Fits start ops ↔
        Along HostedSession.perform HostedSession.CloseKeepsSizes start ops)) ∧
    (∀ (size : UInt16 × UInt16) (os₁ : Os) (app : App) (last : App × Os) (ops : List App.Op),
      App.new size os₀ = (.ok app, os₁) → run App.perform (app, os₁) ops = some last →
      (Throughout App.perform App.Fits (app, os₁) ops ↔ Along App.perform App.CloseKeepsSizes (app, os₁) ops)) := by
  constructor
  · intro name os₁ hosted cols rows start last ops hc hres hr
    have tended := HostedSession.Tended.create hc
    refine throughout_iff_along (I := fun s => s.1.Tended) (fun s op t h hs => h.perform hs)
      (fun s op t h hf hs => HostedSession.fits_step h hf hs) (tended.resize hres) (tended.fits_resize hres) hr
  · intro size os₁ app last ops hn hr
    refine throughout_iff_along (I := fun s => s.1.Tended) (fun s op t h hs => h.perform hs)
      (fun s op t h hf hs => App.fits_step h hf hs) (App.Tended.new hn) (App.Tended.fits_new hn) hr

/-- The operations on a new session of size 80x24. -/
def HostedSession.trial (ops : List Op) : Option (HostedSession × Os) :=
  match HostedSession.create .work ⟨0, [], []⟩ with
  | (.ok hosted, os) =>
    match hosted.resize 80 24 os with
    | (.ok (), start) => run perform start ops
    | (.error _, _) => none
  | (.error _, _) => none

theorem HostedSession.trial_eq_some {ops : List Op} {last : HostedSession × Os} (h : trial ops = some last) :
    ∃ hosted os start, HostedSession.create .work ⟨0, [], []⟩ = (.ok hosted, os) ∧
      hosted.resize 80 24 os = (.ok (), start) ∧ run perform start ops = some last := by
  unfold trial at h
  split at h
  · next hosted os hc =>
    split at h
    · next start hres => exact ⟨hosted, os, start, hc, hres, h⟩
    · cases h
  · cases h

def App.trial (ops : List Op) : Option (App × Os) :=
  match App.new (80, 24) ⟨0, [], []⟩ with
  | (.ok app, os) => run perform (app, os) ops
  | (.error _, _) => none

theorem App.trial_eq_some {ops : List Op} {last : App × Os} (h : trial ops = some last) :
    ∃ app os, App.new (80, 24) ⟨0, [], []⟩ = (.ok app, os) ∧ run perform (app, os) ops = some last := by
  unfold trial at h
  split at h
  · next app os hn => exact ⟨app, os, hn, h⟩
  · cases h

theorem sizes_follow_layout_split :
    (∃ hosted os start, HostedSession.create .work ⟨0, [], []⟩ = (.ok hosted, os) ∧
      hosted.resize 80 24 os = (.ok (), start) ∧ Throughout HostedSession.perform HostedSession.Fits start [.command 1]) ∧
    (∃ app os, App.new (80, 24) ⟨0, [], []⟩ = (.ok app, os) ∧
      Throughout App.perform App.Fits (app, os) [.command .splitVertical]) := by
  constructor
  · have hsome : (HostedSession.trial [.command 1]).isSome := by decide +kernel
    obtain ⟨last, hlast⟩ := Option.isSome_iff_exists.mp hsome
    obtain ⟨hosted, os, start, hc, hres, hr⟩ := HostedSession.trial_eq_some hlast
    refine ⟨hosted, os, start, hc, hres, ((sizes_follow_layout _).1 _ _ _ _ _ _ _ _ hc hres hr).mpr ?_⟩
    exact along_cons.mpr ⟨by simp [HostedSession.CloseKeepsSizes], fun _ _ => along_nil⟩
  · have hsome : (App.trial [.command .splitVertical]).isSome := by decide +kernel
    obtain ⟨last, hlast⟩ := Option.isSome_iff_exists.mp hsome
    obtain ⟨app, os, hn, hr⟩ := App.trial_eq_some hlast
    refine ⟨app, os, hn, ((sizes_follow_layout _).2 _ _ _ _ _ hn hr).mpr ?_⟩
    exact along_cons.mpr ⟨by simp [App.CloseKeepsSizes], fun _ _ => along_nil⟩

/-- After a split and a close the first pane has the whole width and a terminal of half of it. -/
theorem sizes_after_close :
    (∃ hosted os start last,
      HostedSession.create .work ⟨0, [], []⟩ = (.ok hosted, os) ∧
      hosted.resize 80 24 os = (.ok (), start) ∧
      run HostedSession.perform start [.command 1, .command 4] = some last ∧ ¬HostedSession.Fits last) ∧
    (∃ app os last, App.new (80, 24) ⟨0, [], []⟩ = (.ok app, os) ∧
      run App.perform (app, os) [.command .splitHorizontal, .command .closeFocused] = some last ∧ ¬App.Fits last) := by
  have unfit : ∀ (panes : PaneRegistry LivePty) (layout : List (PaneId × Rect)),
      (layout, (panes.get ⟨1⟩).map (·.master)) = ([(⟨1⟩, ⟨0, 0, 80, 23⟩)], some ⟨21, 38⟩) → ¬Sized panes layout := by
    intro panes layout he hs
    obtain ⟨rfl, hget⟩ := Prod.mk.inj he
    obtain ⟨runtime, hr, hmaster, -⟩ := hs _ (List.mem_singleton_self _)
    rw [hr] at hget
    have := hmaster.symm.trans (Option.some.inj hget)
    exact absurd this (by decide)
  constructor
  · have hlast : (HostedSession.trial [.command 1, .command 4]).map
        (fun s => (s.1.layout, (s.1.panes.get ⟨1⟩).map (·.master))) =
        some ([(⟨1⟩, ⟨0, 0, 80, 23⟩)], some ⟨21, 38⟩) := by decide +kernel
    obtain ⟨last, hlast, he⟩ := Option.map_eq_some_iff.mp hlast
    obtain ⟨hosted, os, start, hc, hres, hr⟩ := HostedSession.trial_eq_some hlast
    exact ⟨hosted, os, start, last, hc, hres, hr, unfit _ _ he⟩
  · have hlast : (App.trial [.command .splitHorizontal, .command .closeFocused]).map
        (fun s => (s.1.layout s.1.lastSize, (s.1.panes.get ⟨1⟩).map (·.master))) =
        some ([(⟨1⟩, ⟨0, 0, 80, 23⟩)], some ⟨21, 38⟩) := by decide +kernel
    obtain ⟨last, hlast, he⟩ := Option.map_eq_some_iff.mp hlast
    obtain ⟨app, os, hn, hr⟩ := App.trial_eq_some hlast
    exact ⟨app, os, last, hn, hr, unfit _ _ he⟩

end NovaMux

import NovaMux.Runtime.Screen
import NovaMux.Theorems.LocalMode
import NovaMux.Theorems.Idling
import NovaMux.Theorems.Freshness
import NovaMux.Theorems.IdleScreen

/-! The screen changes nothing for the client behind it. A key that dismisses the artwork is to the client a round in
    which nothing happens, every other round is the round that it would be without a screen, and drawing neither fails
    nor overflows. -/

namespace NovaMux

variable {visuals : Visuals} {round : Round} {size : UInt16 × UInt16}

/-! ### Rounds without a screen -/

namespace Round

/-- Whether the artwork is shown in a round, and the idle state from then on. -/
def shown (visuals : Visuals) (idle : IdleState) (round : Round) : Bool × IdleState :=
  idle.update round.clock.now visuals.config.screensaver visuals.config.idleSeconds visuals.idleAllowed

/-- The idle state behind a round. -/
def next (visuals : Visuals) (idle : IdleState) (round : Round) : IdleState :=
  let idle := (round.shown visuals idle).2
  match round.tick.event with
  | some (.key key) => if key.kind = .release then idle else (idle.input round.clock.input).2
  | some .mouse => (idle.input round.clock.input).2
  | _ => idle

/-- A key dismisses the artwork. -/
def dismisses (visuals : Visuals) (idle : IdleState) (round : Round) : Bool :=
  match round.tick.event with
  | some (.key key) => key.kind ≠ .release && (round.shown visuals idle).1
  | _ => false

/-- What a round is to the client: nothing happens in one that dismisses the artwork. -/
def plain (visuals : Visuals) (idle : IdleState) (round : Round) : Tick :=
  if round.dismisses visuals idle then { event := some .other, exited := [], history := round.tick.history }
  else round.tick

/-- What a round draws: the artwork, or panes and a status line. -/
def frame (visuals : Visuals) (idle : IdleState) (size : UInt16 × UInt16) (panes : List PaneSnapshot) (status : String)
    (round : Round) : List Queued :=
  let animated := animationEnabled visuals.env visuals.config
  if (round.shown visuals idle).1 then
    renderScreensaver visuals.env size visuals.config ((round.shown visuals idle).2.frame round.clock.now) animated
      round.clock.elapsed
  else screenQueue size (animatedTheme visuals.config animated round.clock.elapsed) panes status

/-- What the terminal shows after that. -/
def sight (visuals : Visuals) (idle : IdleState) (size : UInt16 × UInt16) (panes : List PaneSnapshot) (status : String)
    (round : Round) : Nat → Nat → Option (Char × Pen) :=
  let animated := animationEnabled visuals.env visuals.config
  if (round.shown visuals idle).1 then
    idlePicture size (idlePen visuals.config animated round.clock.elapsed)
      (idleLines visuals.env size visuals.config ((round.shown visuals idle).2.frame round.clock.now))
  else picture size (animatedTheme visuals.config animated round.clock.elapsed) panes status

variable {idle : IdleState}

theorem run_frame (visuals : Visuals) (idle : IdleState) (round : Round) {panes : List PaneSnapshot} {status : String}
    (h : Arranged size panes) (hstatus : Narrow status.toList)
    (hnarrow : (round.shown visuals idle).1 = false → ∀ pane ∈ panes, pane.NarrowText) (display : Display)
    (column row : Nat) : (display.run (round.frame visuals idle size panes status)).cells column row =
      round.sight visuals idle size panes status column row := by
  unfold frame sight
  dsimp only
  split
  · exact run_renderScreensaver _ _ _ _ _ _ _ _ _
  · next hactive => exact run_screenQueue h (hnarrow (Bool.eq_false_of_not_eq_true hactive)) hstatus _ _ _ _

theorem sizeAfter_plain (round : Round) (visuals : Visuals) (idle : IdleState) (size : UInt16 × UInt16) :
    (round.plain visuals idle).sizeAfter size = round.tick.sizeAfter size := by
  unfold plain
  split
  · next h =>
    unfold dismisses at h
    split at h
    · next hevent => simp [Tick.sizeAfter, hevent]
    · cases h
  · rfl

/-! ### Idle rounds -/

/-- What a round tells the idle state. -/
def idleEvents (visuals : Visuals) (round : Round) : List IdleEvent :=
  .update round.clock.now visuals.idleAllowed ::
    match round.tick.event with
    | some (.key key) => if key.kind = .release then [] else [.input round.clock.input]
    | some .mouse => [.input round.clock.input]
    | _ => []

/-- The artwork is due in a round, behind others: it is on, and there has been no input for long enough. -/
def Due (visuals : Visuals) (created : Nat) (earlier : List Round) (round : Round) : Prop :=
  visuals.config.screensaver ≠ .off ∧ IdleEvent.Idled (visuals.config.idleSeconds.toNat * 10 ^ 9) created
    (earlier.flatMap (idleEvents visuals) ++ [.update round.clock.now visuals.idleAllowed])

/-- The clock does not go back. -/
def Timely (visuals : Visuals) (created : Nat) (rounds : List Round) : Prop :=
  IdleEvent.Ordered created (rounds.flatMap (idleEvents visuals))

/-- A key is pressed. -/
def presses (round : Round) : Bool :=
  match round.tick.event with
  | some (.key key) => key.kind ≠ .release
  | _ => false

open Classical in
/-- What the client hears in each of some rounds, behind others: nothing where a key dismisses the artwork. -/
noncomputable def heard (visuals : Visuals) (created : Nat) : List Round → List Round → List Tick
  | _, [] => []
  | earlier, round :: rounds =>
    (if Due visuals created earlier round ∧ round.presses = true then
      { event := some .other, exited := [], history := round.tick.history } else round.tick) ::
      heard visuals created (earlier ++ [round]) rounds

/-- What a terminal shows in a round, behind others: the artwork in one of its positions when it is due, and otherwise panes
    and a status line. -/
structure Shows (visuals : Visuals) (created : Nat) (earlier : List Round) (round : Round) (size : UInt16 × UInt16)
    (panes : List PaneSnapshot) (status : String) (cells : Nat → Nat → Option (Char × Pen)) : Prop where
  artwork : Due visuals created earlier round → ∃ frame, cells = idlePicture size
    (idlePen visuals.config (animationEnabled visuals.env visuals.config) round.clock.elapsed)
    (idleLines visuals.env size visuals.config frame)
  panes : ¬Due visuals created earlier round → (∀ pane ∈ panes, pane.NarrowText) → cells = picture size
    (animatedTheme visuals.config (animationEnabled visuals.env visuals.config) round.clock.elapsed) panes status

variable {created : Nat} {earlier rounds : List Round}

theorem Timely.of_prefix (h : Timely visuals created rounds) (hp : earlier <+: rounds) : Timely visuals created earlier := by
  obtain ⟨later, rfl⟩ := hp
  exact IdleEvent.Ordered.of_prefix h ⟨later.flatMap (idleEvents visuals), List.flatMap_append.symm⟩

theorem foldl_idleEvents (visuals : Visuals) (idle : IdleState) (round : Round) : (round.idleEvents visuals).foldl
    (fun idle event => (idle.step visuals.config.screensaver visuals.config.idleSeconds event).2) idle =
      round.next visuals idle := by
  unfold idleEvents next shown
  cases round.tick.event with
  | none => rfl
  | some event =>
    cases event with
    | key key =>
      dsimp only
      split <;> rfl
    | resize | mouse | other => rfl

theorem foldl_next (visuals : Visuals) (created : Nat) (rounds : List Round) :
    rounds.foldl (next visuals) (.new created) =
      IdleState.after visuals.config.screensaver visuals.config.idleSeconds created
        (rounds.flatMap (idleEvents visuals)) := by
  unfold IdleState.after
  generalize IdleState.new created = idle
  induction rounds generalizing idle with
  | nil => rfl
  | cons round rounds ih => rw [List.foldl_cons, ih, List.flatMap_cons, List.foldl_append, foldl_idleEvents]

/-- What the idle state says is what has happened. -/
theorem shown_iff_due (h : Timely visuals created (earlier ++ [round])) :
    (round.shown visuals (earlier.foldl (next visuals) (.new created))).1 = true ↔ Due visuals created earlier round := by
  have hprefix : earlier.flatMap (idleEvents visuals) ++ [.update round.clock.now visuals.idleAllowed] <+:
      (earlier ++ [round]).flatMap (idleEvents visuals) := by
    rw [List.flatMap_append, List.flatMap_singleton, List.prefix_append_right_inj]
    exact ⟨_, rfl⟩
  rw [Due, ← IdleState.isActive_after (IdleEvent.Ordered.of_prefix h hprefix), IdleState.after_concat, foldl_next]
  exact Bool.eq_iff_iff.mp IdleState.update_eq_isActive

theorem heard_take (visuals : Visuals) (created count : Nat) (earlier rounds : List Round) :
    heard visuals created earlier (rounds.take count) = (heard visuals created earlier rounds).take count := by
  induction rounds generalizing earlier count with
  | nil => simp [heard]
  | cons round rounds ih =>
    cases count with
    | zero => rfl
    | succ count => rw [List.take_succ_cons, heard, heard, List.take_succ_cons, ih]

/-- What a round draws is what is due. -/
theorem run_frame_shows (h : Timely visuals created (earlier ++ [round])) {panes : List PaneSnapshot} {status : String}
    (harranged : Arranged size panes) (hstatus : Narrow status.toList) (display : Display) :
    round.Shows visuals created earlier size panes status (display.run
      (round.frame visuals (earlier.foldl (next visuals) (.new created)) size panes status)).cells := by
  have hshown := shown_iff_due h
  have hdrawn := run_frame visuals (earlier.foldl (next visuals) (.new created)) round harranged hstatus
  -- The idle state says which of the two is drawn, and that is what has happened.
  refine ⟨fun hdue => ?_, fun hdue hnarrow => ?_⟩
  · have hactive := hshown.mpr hdue
    have hcells := hdrawn (fun hoff => absurd (hactive.symm.trans hoff) nofun) display
    unfold sight at hcells
    simp only [if_pos hactive] at hcells
    exact ⟨_, funext fun column => funext (hcells column)⟩
  · have hcells := hdrawn (fun _ => hnarrow) display
    unfold sight at hcells
    simp only [if_neg (mt hshown.mp hdue)] at hcells
    exact funext fun column => funext (hcells column)

theorem plain_eq_heard_behind (h : Timely visuals created (earlier ++ rounds)) :
    Machine.translate (next visuals) (plain visuals) (earlier.foldl (next visuals) (.new created)) rounds =
      heard visuals created earlier rounds := by
  induction rounds generalizing earlier with
  | nil => rfl
  | cons round rounds ih =>
    rw [← List.singleton_append, ← List.append_assoc] at h
    have hnow : Timely visuals created (earlier ++ [round]) := h.of_prefix (List.prefix_append _ rounds)
    have hlater := ih h
    rw [List.foldl_append] at hlater
    -- The round dismisses the artwork exactly when it is due and a key is pressed.
    have hfirst : round.dismisses visuals (earlier.foldl (next visuals) (.new created)) = true ↔
        Due visuals created earlier round ∧ round.presses = true := by
      rw [← shown_iff_due hnow, dismisses, Round.presses]
      split
      · rw [Bool.and_eq_true, and_comm]
      · simp
    rw [Machine.translate, heard, ← hlater]
    refine congrArg (· :: _) ?_
    by_cases hdue : Due visuals created earlier round ∧ round.presses = true
    · rw [if_pos hdue, plain, if_pos (hfirst.mpr hdue)]
    · rw [if_neg hdue, plain, if_neg fun hdismiss => hdue (hfirst.mp hdismiss)]

/-- What the rounds are to the client follows from what has happened. -/
theorem plain_eq_heard (h : Timely visuals created rounds) :
    Machine.translate (next visuals) (plain visuals) (.new created) rounds = heard visuals created [] rounds := by
  have hbehind : Timely visuals created ([] ++ rounds) → Machine.translate (next visuals) (plain visuals)
      (([] : List Round).foldl (next visuals) (.new created)) rounds = heard visuals created [] rounds :=
    plain_eq_heard_behind
  exact hbehind h

/-- Earlier rounds are what they are, whatever comes behind them. -/
theorem plain_eq_heard_prefix (h : Timely visuals created (earlier ++ rounds)) :
    Machine.translate (next visuals) (plain visuals) (.new created) earlier = heard visuals created [] earlier :=
  plain_eq_heard (h.of_prefix (List.prefix_append earlier rounds))

end Round

/-! ### The local client -/

namespace App

variable {app : App} {os : Os} {idle : IdleState}

/-- What a round draws. -/
def due (app : App) (visuals : Visuals) (idle : IdleState) (size : UInt16 × UInt16) (round : Round) : List Queued :=
  round.frame visuals idle size (app.shots round.view size) app.statusText

/-- Drawing neither fails nor overflows. -/
theorem render_eq (h : Readable round.view) (app : App) (idle : IdleState) (size : UInt16 × UInt16) :
    app.render visuals idle size round.clock round.view =
      some (.ok (app.due visuals idle size round), (round.shown visuals idle).2) := by
  unfold render due Round.frame Round.shown
  dsimp only
  split
  · rfl
  · rw [renderPanes_eq h]
    rfl

/-- Resizing changes nothing that is drawn. -/
theorem shots_resized {app' : App} {os' : Os} (h : app.resized size os = (.ok (), app', os')) (view : View)
    (size' : UInt16 × UInt16) :
    app'.shots view size' = app.shots view size' ∧ app'.statusText = app.statusText := by
  obtain ⟨sized, hsized, rfl⟩ := resized_inv h
  obtain ⟨panes, rfl, hpanes⟩ := resizePanes_inv hsized
  refine ⟨?_, rfl⟩
  have htext : ∀ pane, textOf { app with panes, lastSize := size } view pane = app.textOf view pane := by
    intro pane
    have hsome := resizeRuntimes_isSome (app.layout size) app.panes os pane
    rw [hpanes] at hsome
    unfold textOf text
    dsimp only at hsome ⊢
    cases hbefore : app.panes.get pane with
    | none =>
      rw [hbefore, Option.isSome_none, Option.isSome_eq_false_iff, Option.isNone_iff_eq_none] at hsome
      rw [hsome]
    | some runtime =>
      rw [hbefore, Option.isSome_some] at hsome
      obtain ⟨resized, hafter⟩ := Option.isSome_iff_exists.mp hsome
      rw [hafter]
  simp only [shots, htext]
  rfl

theorem due_resized {app' : App} {os' : Os} (h : app.resized size os = (.ok (), app', os')) :
    app'.due visuals idle size round = app.due visuals idle size round := by
  obtain ⟨hshots, hstatus⟩ := shots_resized h round.view size
  rw [due, due, hshots, hstatus]

/-- An event is handled as without a screen, unless its round dismisses the artwork. -/
theorem handleAwake_eq {event : TerminalEvent} (hevent : round.tick.event = some event) :
    app.handleAwake (round.shown visuals idle).2 size event round.clock.input round.tick.history os =
      if round.dismisses visuals idle then some (.ok .skip, app, round.next visuals idle, os)
      else (app.handle size event round.tick.history os).map fun (result, app, os) =>
        (result, app, round.next visuals idle, os) := by
  have hactive : ((round.shown visuals idle).2.input round.clock.input).1 = (round.shown visuals idle).1 :=
    IdleState.update_eq_isActive.symm
  cases event with
  | key key =>
    by_cases hkind : key.kind = .release
    · simp [handleAwake, Round.dismisses, Round.next, handle, hevent, hkind]
    · simp only [handleAwake, Round.dismisses, Round.next, hevent, hkind, hactive, if_false, ne_eq, not_false_eq_true,
        decide_true, Bool.true_and]
      cases (round.shown visuals idle).1
      · cases app.handle size (.key key) round.tick.history os <;> rfl
      · rfl
  | resize cols rows =>
    simp only [handleAwake, Round.dismisses, Round.next, hevent, Bool.false_eq_true, if_false]
    cases app.handle size (.resize cols rows) round.tick.history os <;> rfl
  | mouse => simp [handleAwake, Round.dismisses, Round.next, handle, hevent]
  | other => simp [handleAwake, Round.dismisses, Round.next, handle, hevent]

end App

namespace LocalScreen

variable {s t : LocalScreen}

/-- What a round draws. -/
def due (visuals : Visuals) (s : LocalScreen) (round : Round) : List Queued :=
  s.client.app.due visuals s.idle s.client.size round

/-- A round is to the client what it is without a screen, and it is drawn first, unless it ends the client before. -/
theorem step_eq (h : App.Readable round.view) (visuals : Visuals) (s : LocalScreen) : ∃ idle frames,
    s.step visuals round = (s.client.step (round.plain visuals s.idle)).map (fun client => { client, idle, frames }) ∧
      (idle = round.next visuals s.idle ∧ frames = s.frames ++ [s.due visuals round] ∨
        ∀ client, s.client.step (round.plain visuals s.idle) = some client → client.status = .failed) := by
  unfold LocalScreen.step Local.step App.round
  by_cases hs : s.client.status = .running
  -- Both rounds begin with the same resize, before anything is drawn.
  · obtain ⟨⟨outcome, app, os⟩, hhead⟩ : ∃ r, (if s.client.size ≠ s.client.app.lastSize then
        s.client.app.resized s.client.size s.client.os else (.ok (), s.client.app, s.client.os)) = r := ⟨_, rfl⟩
    simp only [hs, if_true, hhead, Round.sizeAfter_plain]
    cases outcome with
    | error error =>
      refine ⟨s.idle, s.frames, rfl, Or.inr fun client hclient => ?_⟩
      cases hclient
      rfl
    | ok =>
      refine ⟨round.next visuals s.idle, s.frames ++ [s.due visuals round], ?_, Or.inl ⟨rfl, rfl⟩⟩
      have hdue : app.due visuals s.idle s.client.size round = s.due visuals round := by
        split at hhead
        · exact App.due_resized hhead
        · cases hhead
          rfl
      simp only [App.render_eq h, hdue, Option.bind_eq_bind, Option.bind_some]
      cases hevent : round.tick.event with
      | none =>
        have hplain : round.plain visuals s.idle = round.tick := by simp [Round.plain, Round.dismisses, hevent]
        have hnext : round.next visuals s.idle = (round.shown visuals s.idle).2 := by simp [Round.next, hevent]
        simp only [hplain, hevent, hnext, Option.elim_none, Option.bind_some]
        cases app.reap round.tick.exited app.session.panes os <;> rfl
      | some event =>
        simp only [Option.elim_some, App.handleAwake_eq hevent]
        cases hdismiss : round.dismisses visuals s.idle with
        | true =>
          -- Without a screen this is a round in which nothing happens and no shell has exited.
          have hplain : round.plain visuals s.idle = { event := some .other, exited := [], history := round.tick.history } := by
            simp [Round.plain, hdismiss]
          simp only [hplain, if_true, Option.elim_some, App.handle, Option.bind_some, App.reap_nil]
          rfl
        | false =>
          have hplain : round.plain visuals s.idle = round.tick := by simp [Round.plain, hdismiss]
          simp only [hplain, hevent, Option.elim_some, Bool.false_eq_true, if_false]
          cases app.handle s.client.size event round.tick.history os with
          | none => rfl
          | some r =>
            obtain ⟨result, app, os⟩ := r
            simp only [Option.map_some, Option.bind_some]
            rcases result with error | flow
            · rfl
            · cases flow with
              | proceed =>
                dsimp only
                cases app.reap round.tick.exited app.session.panes os <;> rfl
              | skip => rfl
              | leave => rfl
  · exact ⟨s.idle, s.frames, by simp only [hs, if_false]; rfl, Or.inr fun client hclient => by simp [hs] at hclient⟩

variable {rounds : List Round}

theorem step_client (h : App.Readable round.view) (visuals : Visuals) (s : LocalScreen) :
    (s.step visuals round).map LocalScreen.client = s.client.step (round.plain visuals s.idle) := by
  obtain ⟨idle, frames, hstep, -⟩ := step_eq h visuals s
  rw [hstep, Option.map_map]
  exact Option.map_id'

/-- What a round leaves when the client has not failed in it. -/
theorem step_inv (h : App.Readable round.view) (hr : s.step visuals round = some t) (ht : t.client.status ≠ .failed) :
    s.client.step (round.plain visuals s.idle) = some t.client ∧ t.idle = round.next visuals s.idle ∧
      t.frames = s.frames ++ [s.due visuals round] := by
  obtain ⟨idle, frames, hstep, hlast⟩ := step_eq h visuals s
  rw [hstep] at hr
  obtain ⟨client, hclient, rfl⟩ := Option.map_eq_some_iff.mp hr
  rcases hlast with ⟨rfl, rfl⟩ | hfailed
  · exact ⟨hclient, rfl, rfl⟩
  · exact absurd (hfailed client hclient) ht

/-- The client behind a run is the one behind the run without a screen, and where that would panic so does this. -/
theorem run_client (h : ∀ round ∈ rounds, App.Readable round.view) (visuals : Visuals) (s : LocalScreen) :
    (Machine.run (step visuals) s rounds).map LocalScreen.client =
      Machine.run Local.step s.client (Machine.translate (Round.next visuals) (Round.plain visuals) s.idle
        rounds) := by
  refine Machine.map_run_translate (P := fun _ => True) (K := fun round => App.Readable round.view)
    (fun _ _ _ _ _ _ => trivial) (fun s round hread _ => step_client hread visuals s) (fun s round t hread _ hr => ?_) trivial h
  by_cases ht : t.client.status = .failed
  · exact Or.inr fun tick => by simp [Local.step, ht]
  · exact Or.inl (step_inv hread hr ht).2.1

theorem running_of_step (hr : s.step visuals round = some t) : s.client.status = .running := by
  unfold LocalScreen.step at hr
  split at hr
  · next hs => exact hs
  · cases hr

/-- A frame is drawn in each round. -/
theorem run_inv (h : ∀ round ∈ rounds, App.Readable round.view) (hr : Machine.run (step visuals) s rounds = some t)
    (ht : t.client.status ≠ .failed) :
    t.idle = rounds.foldl (Round.next visuals) s.idle ∧ t.frames.length = s.frames.length + rounds.length := by
  induction rounds generalizing s with
  | nil =>
    cases hr
    exact ⟨rfl, rfl⟩
  | cons round rounds ih =>
    obtain ⟨hread, hreads⟩ := List.forall_mem_cons.mp h
    obtain ⟨u, hu, hr⟩ := Machine.run_cons_eq_some.mp hr
    have hgoing : u.client.status ≠ .failed := by
      cases rounds with
      | nil =>
        cases hr
        exact ht
      | cons later rounds =>
        obtain ⟨v, hv, -⟩ := Machine.run_cons_eq_some.mp hr
        rw [running_of_step hv]
        nofun
    obtain ⟨-, hidle, hframes⟩ := step_inv hread hu hgoing
    obtain ⟨hlast, hlength⟩ := ih hreads hr
    refine ⟨by rw [hlast, hidle, List.foldl_cons], ?_⟩
    rw [hlength, hframes, List.length_append, List.length_cons, List.length_cons, List.length_nil]
    omega

/-- The local client behaves with its screen as without one, except that the key that dismisses the artwork does nothing
    else, and whatever the terminal showed at the start, after each round it shows what is due: the artwork when there has
    been no input for long enough, and otherwise the picture of the session at the start of the round. -/
theorem shows_session (h : ∀ round ∈ rounds, App.Readable round.view) {now : Nat} (htime : Round.Timely visuals now rounds)
    (client : Local) :
    (Machine.run (step visuals) (start client now) rounds).map LocalScreen.client =
        Machine.run Local.step client (Round.heard visuals now [] rounds) ∧
      ∀ earlier round t, rounds = earlier ++ [round] → Machine.run (step visuals) (start client now) rounds = some t →
        t.client.status ≠ .failed → ∃ before,
          Machine.run Local.step client (Round.heard visuals now [] earlier) = some before ∧
            t.frames.length = rounds.length ∧
            ∀ display : Display, round.Shows visuals now earlier before.size (before.app.shots round.view before.size)
              before.app.statusText (display.run t.frames.flatten).cells := by
  refine ⟨(run_client h visuals (start client now)).trans (congrArg _ (Round.plain_eq_heard htime)), ?_⟩
  rintro earlier round t rfl hr ht
  have hreads := List.forall_mem_append.mp h
  obtain ⟨s, hs, hlast⟩ := Machine.run_append_eq_some.mp hr
  rw [Machine.run_singleton] at hlast
  have hgoing : s.client.status ≠ .failed := by
    rw [running_of_step hlast]
    nofun
  -- A client that has failed would not have come to this round.
  obtain ⟨hidle, hlength⟩ := run_inv hreads.1 hs hgoing
  obtain ⟨-, -, hframes⟩ := step_inv (hreads.2 round List.mem_cons_self) hlast ht
  have hclient := run_client hreads.1 visuals (start client now)
  rw [hs] at hclient
  refine ⟨s.client, ?_, ?_, fun display => ?_⟩
  · rw [← Round.plain_eq_heard_prefix htime]
    exact hclient.symm
  · rw [hframes, List.length_append, List.length_append, hlength]
    exact congrArg (· + 1) (Nat.zero_add _)
  · rw [hframes, List.flatten_append, Display.run_append, List.flatten_singleton, due, hidle]
    exact Round.run_frame_shows htime (s.client.app.arranged _ _) s.client.app.narrow_statusText _

/-- The artwork is shown, a key dismisses it, and the panes are shown again. -/
def dozing : List Round :=
  let round (tick : Tick) (now : Nat) : Round := ⟨tick, ⟨now, now, now⟩, fun _ => .ok ⟨"$ cargo", fun _ => ""⟩⟩
  [round ⟨none, [], 0⟩ 10000000000, round (pressed (.char 'x') false) 11000000000, round ⟨none, [], 0⟩ 12000000000]

/-- A client whose artwork is shown after ten seconds. -/
def dozy : Visuals := ⟨{ Config.default with screensaver := .catPlay, idleSeconds := 10 }, ⟨none, none, none, none⟩, true⟩

theorem timely_dozing : Round.Timely dozy 0 dozing := by
  unfold Round.Timely IdleEvent.Ordered
  decide

theorem heard_dozing (count : Nat) : Round.heard dozy 0 [] (dozing.take count) =
    [⟨none, [], 0⟩, ⟨some .other, [], 0⟩, ⟨none, [], 0⟩].take count := by
  have hheard : Round.heard dozy 0 [] dozing =
      Machine.translate (Round.next dozy) (Round.plain dozy) (.new 0) dozing :=
    (Round.plain_eq_heard timely_dozing).symm
  rw [Round.heard_take, hheard]
  exact congrArg (List.take count) (by decide +kernel)

/-- The artwork is due in the first round, and no more once a key has been pressed. -/
theorem due_dozing : Round.Due dozy 0 [] dozing[0] ∧ ¬Round.Due dozy 0 (dozing.take 2) dozing[2] := by
  have hfirst : (dozing[0].shown dozy (([] : List Round).foldl (Round.next dozy) (.new 0))).1 = true ↔
      Round.Due dozy 0 [] dozing[0] := Round.shown_iff_due (timely_dozing.of_prefix (List.take_prefix 1 dozing))
  have hlast : (dozing[2].shown dozy ((dozing.take 2).foldl (Round.next dozy) (.new 0))).1 = true ↔
      Round.Due dozy 0 (dozing.take 2) dozing[2] := Round.shown_iff_due timely_dozing
  rw [← hfirst, ← hlast]
  decide +kernel

theorem shows_session_dozing : ∃ app os before t t', App.new (20, 8) ⟨0, [], []⟩ = (.ok app, os) ∧
    Machine.run (step dozy) (start (.start app (20, 8) os) 0) (dozing.take 1) = some t ∧
    (∀ display : Display, ∃ frame, (display.run t.frames.flatten).cells =
      idlePicture (20, 8) (idlePen dozy.config true 10000000000) (idleLines dozy.env (20, 8) dozy.config frame)) ∧
    Machine.run (step dozy) (start (.start app (20, 8) os) 0) dozing = some t' ∧
    Machine.run Local.step (.start app (20, 8) os) [⟨none, [], 0⟩, ⟨some .other, [], 0⟩] = some before ∧
    (∀ display : Display, (display.run t'.frames.flatten).cells =
      picture (20, 8) (animatedTheme dozy.config true 12000000000)
        (before.app.shots (fun _ => .ok ⟨"$ cargo", fun _ => ""⟩) (20, 8)) before.app.statusText) := by
  obtain ⟨app, os, asleep, before, after, hnew, hasleep, hbefore, hafter, hend, hsize, hgoing, hnarrow⟩ :
      ∃ app os asleep before after,
        App.new (20, 8) ⟨0, [], []⟩ = (.ok app, os) ∧
        Machine.run Local.step (.start app (20, 8) os) [⟨none, [], 0⟩] = some asleep ∧
        Machine.run Local.step (.start app (20, 8) os) [⟨none, [], 0⟩, ⟨some .other, [], 0⟩] = some before ∧
        Machine.run Local.step (.start app (20, 8) os) [⟨none, [], 0⟩, ⟨some .other, [], 0⟩, ⟨none, [], 0⟩] = some after ∧
        asleep.status = .running ∧ before.size = (20, 8) ∧ after.status = .running ∧
        ∀ pane ∈ before.app.shots (fun _ => .ok ⟨"$ cargo", fun _ => ""⟩) (20, 8), pane.NarrowText := by
    unfold PaneSnapshot.NarrowText
    exact ⟨_, _, _, _, _, rfl, rfl, rfl, rfl, rfl, rfl, rfl, by decide +kernel⟩
  have hread : ∀ round ∈ dozing, App.Readable round.view := by
    intro round hr
    simp only [dozing, List.mem_cons, List.not_mem_nil, or_false] at hr
    rcases hr with rfl | rfl | rfl
    all_goals exact fun _ => ⟨_, rfl⟩
  have hread₁ : ∀ round ∈ dozing.take 1, App.Readable round.view := fun round hr => hread round (List.mem_of_mem_take hr)
  obtain ⟨hclient₁, hshows₁⟩ :=
    shows_session hread₁ (timely_dozing.of_prefix (List.take_prefix 1 dozing)) (.start app (20, 8) os)
  obtain ⟨hclient, hshows⟩ := shows_session hread timely_dozing (.start app (20, 8) os)
  rw [heard_dozing 1] at hclient₁
  rw [show dozing = dozing.take 3 from rfl, heard_dozing 3] at hclient
  obtain ⟨t, ht, rfl⟩ := Option.map_eq_some_iff.mp (hclient₁.trans hasleep)
  obtain ⟨t', ht', rfl⟩ := Option.map_eq_some_iff.mp (hclient.trans hafter)
  obtain ⟨before₁, hbefore₁, -, hcells₁⟩ := hshows₁ [] _ t rfl ht (by rw [hend]; nofun)
  obtain ⟨before₂, hbefore₂, -, hcells⟩ := hshows (dozing.take 2) _ t' rfl ht' (by rw [hgoing]; nofun)
  rw [heard_dozing 2] at hbefore₂
  obtain rfl := Option.some.inj (hbefore₂.symm.trans hbefore)
  obtain rfl := Option.some.inj hbefore₁
  rw [hsize] at hcells
  exact ⟨app, os, before₂, t, t', hnew, ht, fun display => (hcells₁ display).artwork due_dozing.1, ht', hbefore,
    fun display => (hcells display).panes due_dozing.2 hnarrow⟩

end LocalScreen

/-! ### The attached client -/

namespace AttachedScreen

variable {c : ConnId} {name : SessionName} {s t : AttachedScreen} {rounds : List Round} {screens : List String}

/-- What a round draws of some panes. -/
def due (visuals : Visuals) (s : AttachedScreen) (panes : List PaneSnapshot) (round : Round) : List Queued :=
  round.frame visuals s.idle s.size panes (remoteStatus s.client.copyMode.active)

/-- The client holds a screen whose panes can be drawn. -/
structure Held (s : AttachedScreen) (panes : List PaneSnapshot) : Prop where
  response : s.client.response = .screen panes
  fits : ∀ pane ∈ panes, pane.area.Fits

theorem held (h : Attached.Current c name screens s.size s.client) (hs : s.client.status = .running) : ∃ hosted panes,
    Serving c name s.client.daemon hosted ∧ hosted.ShownBy screens s.client.daemon.os (.screen panes) ∧
      hosted.viewport = HostedSession.clamp s.size ∧ Arranged hosted.viewport panes ∧ Held s panes := by
  obtain ⟨hosted, hserv, hshown, hv⟩ := h.shown hs
  obtain ⟨panes, hscreen, hshots⟩ := hshown.screen
  have arranged := HostedSession.arranged_of_shots hshots
  exact ⟨hosted, panes, hserv, hscreen ▸ hshown, hv, arranged, hscreen, arranged.fits⟩

/-- Drawing neither fails nor overflows. -/
theorem Held.render {panes : List PaneSnapshot} (h : Held s panes) (visuals : Visuals) (round : Round) :
    { s with idle := (round.shown visuals s.idle).2 }.render visuals (round.shown visuals s.idle).1 round.clock =
      some (some (s.due visuals panes round)) := by
  unfold AttachedScreen.render due Round.frame
  dsimp only
  split
  · rfl
  · rw [h.response]
    dsimp only
    rw [renderRemote_eq h.fits]
    rfl

/-- An event is handled as without a screen, unless its round dismisses the artwork. -/
theorem handle_eq (c : ConnId) (name : SessionName) {event : TerminalEvent} (hevent : round.tick.event = some event)
    (visuals : Visuals) (s : AttachedScreen) (frames : List (List Queued)) :
    { s with idle := (round.shown visuals s.idle).2, frames }.handle c name event round.clock.input =
      if round.dismisses visuals s.idle then some { s with idle := round.next visuals s.idle, frames }
      else (s.client.handle c name event).map fun client =>
        { client, size := round.tick.sizeAfter s.size, idle := round.next visuals s.idle, frames } := by
  have hactive : ((round.shown visuals s.idle).2.input round.clock.input).1 = (round.shown visuals s.idle).1 :=
    IdleState.update_eq_isActive.symm
  cases event with
  | key key =>
    by_cases hkind : key.kind = .release
    · simp [AttachedScreen.handle, Attached.handle, Round.dismisses, Round.next, Tick.sizeAfter, hevent, hkind]
    · simp only [AttachedScreen.handle, Round.dismisses, Round.next, Tick.sizeAfter, hevent, hkind, hactive, if_false,
        ne_eq, not_false_eq_true, decide_true, Bool.true_and]
      cases (round.shown visuals s.idle).1
      · cases s.client.handle c name (.key key) <;> rfl
      · rfl
  | resize cols rows =>
    simp only [AttachedScreen.handle, Round.dismisses, Round.next, Tick.sizeAfter, hevent, Bool.false_eq_true, if_false]
    cases s.client.handle c name (.resize cols rows) <;> rfl
  | mouse => simp [AttachedScreen.handle, Attached.handle, Round.dismisses, Round.next, Tick.sizeAfter, hevent]
  | other => simp [AttachedScreen.handle, Attached.handle, Round.dismisses, Round.next, Tick.sizeAfter, hevent]

/-- A round is to the client what it is without a screen, and it is drawn first. -/
theorem step_eq (c : ConnId) (name : SessionName) {panes : List PaneSnapshot} (h : Held s panes) (visuals : Visuals) (round : Round) :
    s.step c name visuals round = (s.client.step c name (round.plain visuals s.idle)).map fun client =>
      { client, size := round.tick.sizeAfter s.size, idle := round.next visuals s.idle,
        frames := s.frames ++ [s.due visuals panes round] } := by
  have hrender := h.render visuals round
  unfold AttachedScreen.step Attached.step
  by_cases hs : s.client.status = .running
  · rw [if_pos hs, if_pos hs, h.response]
    simp only [Round.shown] at hrender
    simp only [hrender, Option.bind_eq_bind, Option.bind_some]
    cases hevent : round.tick.event with
    | none =>
      have hplain : round.plain visuals s.idle = round.tick := by simp [Round.plain, Round.dismisses, hevent]
      simp only [hplain, hevent, Option.elim_none, Tick.sizeAfter, Round.next, Round.shown]
      cases s.client.request c .snapshot <;> rfl
    | some event =>
      have hhandle := handle_eq c name hevent visuals s (s.frames ++ [s.due visuals panes round])
      simp only [Round.shown] at hhandle
      simp only [hhandle]
      cases hdismiss : round.dismisses visuals s.idle with
      | true =>
        have hsize := round.sizeAfter_plain visuals s.idle s.size
        simp only [Round.plain, hdismiss, if_true] at hsize ⊢
        rw [← hsize]
        rfl
      | false =>
        simp only [Round.plain, hdismiss, Bool.false_eq_true, if_false, hevent]
        rfl
  · rw [if_neg hs, if_neg hs]
    rfl

theorem running_of_step (hr : s.step c name visuals round = some t) : s.client.status = .running := by
  unfold AttachedScreen.step at hr
  split at hr
  · next hs => exact hs
  · cases hr

theorem step_client (h : Attached.Current c name screens s.size s.client) (visuals : Visuals) (round : Round) :
    (s.step c name visuals round).map AttachedScreen.client = s.client.step c name (round.plain visuals s.idle) := by
  by_cases hs : s.client.status = .running
  · obtain ⟨-, panes, -, -, -, -, hheld⟩ := held h hs
    rw [step_eq c name hheld, Option.map_map]
    exact Option.map_id'
  · simp [AttachedScreen.step, Attached.step, hs]

/-- What a round leaves. -/
theorem step_inv (h : Attached.Current c name screens s.size s.client) (hr : s.step c name visuals round = some t) :
    Attached.Current c name screens t.size t.client ∧ t.size = round.tick.sizeAfter s.size ∧
      t.idle = round.next visuals s.idle ∧ t.frames.length = s.frames.length + 1 := by
  obtain ⟨-, panes, -, -, -, -, hheld⟩ := held h (running_of_step hr)
  rw [step_eq c name hheld] at hr
  obtain ⟨client, hclient, rfl⟩ := Option.map_eq_some_iff.mp hr
  have hcurrent := h.step hclient
  rw [round.sizeAfter_plain] at hcurrent
  exact ⟨hcurrent, rfl, rfl, List.length_append⟩

/-- The client behind a run is the one behind the run without a screen. -/
theorem run_client (h : Attached.Current c name screens s.size s.client) (visuals : Visuals) (rounds : List Round) :
    (Machine.run (step c name visuals) s rounds).map AttachedScreen.client =
      Machine.run (Attached.step c name) s.client
        (Machine.translate (Round.next visuals) (Round.plain visuals) s.idle rounds) := by
  refine Machine.map_run_translate (P := fun s => Attached.Current c name screens s.size s.client) (K := fun _ => True)
    (fun s round t _ h hr => (step_inv h hr).1) (fun s round _ h => step_client h visuals round)
    (fun s round t _ h hr => Or.inl (step_inv h hr).2.2.1) h fun _ _ => trivial

theorem run_inv (h : Attached.Current c name screens s.size s.client) (hr : Machine.run (step c name visuals) s rounds = some t) :
    Attached.Current c name screens t.size t.client ∧ t.size = Attached.sizeBehind s.size (rounds.map Round.tick) ∧
      t.idle = rounds.foldl (Round.next visuals) s.idle ∧ t.frames.length = s.frames.length + rounds.length := by
  induction rounds generalizing s with
  | nil =>
    cases hr
    exact ⟨h, rfl, rfl, rfl⟩
  | cons round rounds ih =>
    obtain ⟨u, hu, hr⟩ := Machine.run_cons_eq_some.mp hr
    obtain ⟨hcurrent, hsize, hidle, hframes⟩ := step_inv h hu
    obtain ⟨hlast, hbehind, hawake, hlength⟩ := ih hcurrent hr
    refine ⟨hlast, by rw [hbehind, hsize]; rfl, by rw [hawake, hidle]; rfl, ?_⟩
    rw [hlength, hframes, List.length_cons]
    omega

end AttachedScreen

end NovaMux

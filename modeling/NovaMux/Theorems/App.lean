import NovaMux.Theorems.Runtimes
import NovaMux.Runtime.App
import NovaMux.Lib.Except

/-! What each operation of the local client can do, and what all of them keep: as in a hosted session, the
    registry holds a runtime for exactly the panes of a well-formed session. -/

namespace NovaMux.App

variable {app app' : App} {os os' : Os} {size : UInt16 × UInt16} {direction : SplitDirection}
  {result : Except String Unit}

def Tended (app : App) : Prop := Owned app.session app.panes

/-! ### What each operation can do -/

theorem resizePanes_inv (h : app.resizePanes size os = (result, app', os')) :
    ∃ panes, app' = { app with panes } ∧ resizeRuntimes (app.layout size) app.panes os = (result, panes, os') := by
  simp only [resizePanes] at h
  cases h
  exact ⟨_, rfl, rfl⟩

theorem resized_inv (h : app.resized size os = (.ok (), app', os')) :
    ∃ sized : App, app.resizePanes size os = (.ok (), sized, os') ∧ app' = { sized with lastSize := size } := by
  unfold resized at h
  split at h
  · cases h
  · next sized os₁ hr =>
    cases h
    exact ⟨sized, hr, rfl⟩

/-- A split that cannot start the new pane changes nothing; otherwise everything is resized. -/
theorem split_inv (h : app.split direction size os = some (result, app', os')) :
    ∃ id candidate, app.session.splitFocused direction = some (id, candidate) ∧
      ((∃ error, app.panes.reconcile candidate (fun _ => LivePty.spawn (.new 2 2)) os =
          (.error error, app.panes, os') ∧ result = .error error ∧ app' = app) ∨
        ∃ removed panes os₁, app.panes.reconcile candidate (fun _ => LivePty.spawn (.new 2 2)) os =
            (.ok removed, panes, os₁) ∧
          { app with panes, session := candidate }.resizePanes size os₁ = (result, app', os')) := by
  simp only [split, Option.bind_eq_bind, Option.bind_eq_some_iff] at h
  obtain ⟨⟨id, candidate⟩, hs, h⟩ := h
  refine ⟨id, candidate, hs, ?_⟩
  split at h
  · next hr =>
    cases h
    obtain rfl := PaneRegistry.reconcile_error hr
    exact Or.inl ⟨_, hr, rfl, rfl⟩
  · next hr =>
    exact Or.inr ⟨_, _, _, hr, Option.some.inj h⟩

/-- A close of the last pane changes nothing; otherwise the runtimes follow the session. -/
theorem closeFocused_inv (h : app.closeFocused os = some (result, app', os')) :
    (∃ session, app.session.closeFocused = some (false, session) ∧ app' = app ∧ result = .ok () ∧ os' = os) ∨
      ∃ session outcome panes os₁, app.session.closeFocused = some (true, session) ∧
        app.panes.reconcile session (fun _ => LivePty.spawn (.new 2 2)) os = (outcome, panes, os₁) ∧
        app' = { app with session, panes } ∧
        ((∃ error, outcome = .error error ∧ result = .error error ∧ os' = os₁) ∨
          ∃ removed, outcome = .ok removed ∧ terminateRuntimes removed os₁ = (result, os')) := by
  simp only [closeFocused, Option.bind_eq_bind, Option.bind_eq_some_iff] at h
  obtain ⟨⟨closed, session⟩, hs, h⟩ := h
  cases closed with
  | false =>
    rcases Session.closeFocused_inv hs with ⟨-, -, rfl⟩ | ⟨hc, -⟩
    · cases h
      exact Or.inl ⟨_, hs, rfl, rfl, rfl⟩
    · cases hc
  | true =>
    refine Or.inr ⟨session, ?_⟩
    simp only [if_true] at h
    split at h
    · next hr =>
      cases h
      exact ⟨_, _, _, hs, hr, rfl, Or.inl ⟨_, rfl, rfl, rfl⟩⟩
    · next hr =>
      cases h
      exact ⟨_, _, _, hs, hr, rfl, Or.inr ⟨_, rfl, rfl⟩⟩

/-- What a command has done. -/
theorem command_inv {command : MultiplexerCommand} {reply : Except String Bool}
    (h : app.command command size os = some (reply, app', os')) :
    (∃ direction outcome, (command = .splitHorizontal ∨ command = .splitVertical) ∧
      app.split direction size os = some (outcome, app', os') ∧ reply = (fun _ => false) <$> outcome) ∨
    (∃ session, command = .focusNext ∧ app.session.focusNext = some session ∧ app' = { app with session } ∧
      os' = os) ∨
    (∃ outcome, command = .closeFocused ∧ app.closeFocused os = some (outcome, app', os') ∧
      reply = (fun _ => false) <$> outcome) ∨
    (∃ copyMode, (command = .enterCopyMode ∨ command = .detach ∨ command = .quit) ∧ app' = { app with copyMode } ∧
      os' = os) := by
  -- Splits and closes end a round, they never leave the loop.
  have unmap : ∀ {x : Option (Except String Unit × App × Os)},
      (x.bind fun r => some ((fun _ => false) <$> r.1, r.2.1, r.2.2)) = some (reply, app', os') →
      ∃ outcome, x = some (outcome, app', os') ∧ reply = (fun _ => false) <$> outcome := by
    intro x hx
    obtain ⟨⟨outcome, app₁, os₁⟩, hsome, he⟩ := Option.bind_eq_some_iff.mp hx
    obtain ⟨hres, rfl, rfl⟩ : _ ∧ app₁ = app' ∧ os₁ = os' := by simpa only [Option.some.injEq, Prod.mk.injEq] using he
    exact ⟨outcome, hsome, hres.symm⟩
  cases command with
  | splitHorizontal =>
    obtain ⟨outcome, hs, hr⟩ := unmap h
    exact Or.inl ⟨.horizontal, outcome, Or.inl rfl, hs, hr⟩
  | splitVertical =>
    obtain ⟨outcome, hs, hr⟩ := unmap h
    exact Or.inl ⟨.vertical, outcome, Or.inr rfl, hs, hr⟩
  | focusNext =>
    obtain ⟨session, hf, he⟩ := Option.bind_eq_some_iff.mp h
    cases he
    exact Or.inr (Or.inl ⟨session, rfl, hf, rfl, rfl⟩)
  | closeFocused =>
    obtain ⟨outcome, hc, hr⟩ := unmap h
    exact Or.inr (Or.inr (Or.inl ⟨outcome, rfl, hc, hr⟩))
  | enterCopyMode =>
    cases h
    exact Or.inr (Or.inr (Or.inr ⟨_, Or.inl rfl, rfl, rfl⟩))
  | detach | quit =>
    cases h
    exact Or.inr (Or.inr (Or.inr ⟨_, by simp, rfl, rfl⟩))

/-! ### What every operation keeps -/

theorem Tended.resizePanes (h : app.Tended) (hr : app.resizePanes size os = (result, app', os')) : app'.Tended := by
  obtain ⟨panes, rfl, hres⟩ := resizePanes_inv hr
  exact Owned.resize h hres

/-- A new client has started its first pane and resized it. -/
theorem new_inv (h : App.new size os = (.ok app, os')) :
    ∃ (start : App) (os₁ : Os), start.Tended ∧ start.lastSize = size ∧ start.resizePanes size os₁ = (.ok (), app, os') := by
  simp only [App.new] at h
  split at h
  · cases h
  · next hrec =>
    split at h
    · cases h
    · next hr =>
      cases h
      refine ⟨_, _, ?_, rfl, hr⟩
      exact Owned.of_reconciled (Session.Wf.new _) (PaneRegistry.reconcile_ok hrec)

theorem Tended.new (h : App.new size os = (.ok app, os')) : app.Tended := by
  obtain ⟨start, os₁, hstart, -, hr⟩ := new_inv h
  exact hstart.resizePanes hr

theorem Tended.split (h : app.Tended) (hs : app.split direction size os = some (result, app', os')) : app'.Tended := by
  rcases split_inv hs with ⟨id, candidate, hsplit, ⟨-, -, -, rfl⟩ | ⟨removed, panes, os₁, hrec, hres⟩⟩
  · exact h
  · have started : Tended { app with panes, session := candidate } := Owned.reconcile_split h hsplit hrec
    exact started.resizePanes hres

theorem Tended.closeFocused (h : app.Tended) (hc : app.closeFocused os = some (result, app', os')) : app'.Tended := by
  rcases closeFocused_inv hc with ⟨-, -, rfl, -⟩ | ⟨session, outcome, panes, os₁, hs, hr, rfl, -⟩
  · exact h
  · exact (Owned.reconcile_close h hs hr).2

theorem Tended.resized (h : app.Tended) (hr : app.resized size os = (.ok (), app', os')) : app'.Tended := by
  obtain ⟨sized, hres, rfl⟩ := resized_inv hr
  have hsized := h.resizePanes hres
  exact hsized

theorem Tended.command (h : app.Tended) {command : MultiplexerCommand} {reply : Except String Bool}
    (hc : app.command command size os = some (reply, app', os')) : app'.Tended := by
  rcases command_inv hc with ⟨direction, outcome, -, hs, -⟩ | ⟨session, -, hf, rfl, -⟩ | ⟨outcome, -, hcl, -⟩ |
      ⟨copyMode, -, rfl, -⟩
  · exact h.split hs
  · exact Owned.focusNext h hf
  · exact h.closeFocused hcl
  · exact h

end NovaMux.App

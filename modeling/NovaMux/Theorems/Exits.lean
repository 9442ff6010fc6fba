import NovaMux.Theorems.App
import NovaMux.Theorems.Edits
import NovaMux.Runtime.EventLoop

/-! Shells that exit. The event loop of the local client focuses the first pane whose shell has exited, going
    around the panes, and closes it. So the pane goes, and the focus with it: to the pane before, whichever one
    was focused when the shell exited. -/

namespace NovaMux

open Machine

/-! ### Going around the panes -/

namespace Session

variable {s : Session} {pane : PaneId}

theorem focusNext_of_getElem (hn : s.panes.Nodup) {i : Nat} (hi : s.panes[i]? = some s.focused) {next : PaneId}
    (hnext : s.panes[(i + 1) % s.panes.length]? = some next) : s.focusNext = some { s with focused := next } := by
  obtain ⟨hlt, hget⟩ := List.getElem?_eq_some_iff.mp hi
  have hidx : s.panes.idxOf? s.focused = some i := by
    refine List.idxOf?_eq_some_iff.mpr ⟨hlt, hget, fun j hj he => ?_⟩
    have hsame : j = i := (List.Nodup.getElem_inj_iff hn).mp ((by simpa using he : s.panes[j] = s.focused).trans hget.symm)
    omega
  simp only [focusNext, hidx, hnext, Option.bind_eq_bind, Option.bind_some]

theorem focusOn_self (moves : Nat) (s : Session) : App.focusOn s.focused moves s = some s := by
  cases moves <;> exact if_pos rfl

/-- The pane that is `k` places further on is reached within `k` moves. -/
theorem focusOn_of_getElem {k moves i : Nat} (hn : s.panes.Nodup) (hi : s.panes[i]? = some s.focused)
    (hk : s.panes[(i + k) % s.panes.length]? = some pane) (hm : k ≤ moves) :
    App.focusOn pane moves s = some { s with focused := pane } := by
  induction k generalizing s i moves with
  | zero =>
    obtain ⟨hlt, -⟩ := List.getElem?_eq_some_iff.mp hi
    rw [Nat.add_zero, Nat.mod_eq_of_lt hlt, hi] at hk
    obtain rfl := Option.some.inj hk
    exact focusOn_self moves s
  | succ k ih =>
    by_cases hf : s.focused = pane
    · subst hf
      exact focusOn_self moves s
    cases moves with
    | zero => omega
    | succ moves =>
      have hlt : (i + 1) % s.panes.length < s.panes.length := Nat.mod_lt _ s.length_panes_pos
      have hnext := focusNext_of_getElem hn hi (List.getElem?_eq_getElem hlt)
      simp only [App.focusOn, if_neg hf, hnext, Option.bind_eq_bind, Option.bind_some]
      have hrest : ((i + 1) % s.panes.length + k) % s.panes.length = (i + (k + 1)) % s.panes.length := by
        rw [Nat.mod_add_mod, Nat.add_right_comm, Nat.add_assoc]
      refine ih (s := { s with focused := s.panes[(i + 1) % s.panes.length] }) hn (List.getElem?_eq_getElem hlt) ?_
        (Nat.le_of_succ_le_succ hm)
      exact (congrArg (fun j => s.panes[j]?) hrest).trans hk

/-- Every pane is reached in fewer moves than there are panes. -/
theorem Wf.focusOn (h : s.Wf) (hp : pane ∈ s.panes) {moves : Nat} (hm : s.panes.length ≤ moves + 1) :
    App.focusOn pane moves s = some { s with focused := pane } := by
  obtain ⟨i, hi⟩ := List.mem_iff_getElem?.mp h.focused
  obtain ⟨j, hj⟩ := List.mem_iff_getElem?.mp hp
  obtain ⟨hilt, -⟩ := List.getElem?_eq_some_iff.mp hi
  obtain ⟨hjlt, -⟩ := List.getElem?_eq_some_iff.mp hj
  by_cases hle : i ≤ j
  · refine focusOn_of_getElem (k := j - i) h.nodup hi ?_ (by omega)
    rw [Nat.add_sub_cancel' hle, Nat.mod_eq_of_lt hjlt, hj]
  · refine focusOn_of_getElem (k := j + s.panes.length - i) h.nodup hi ?_ (by omega)
    rw [Nat.add_sub_cancel' (by omega), Nat.add_mod_right, Nat.mod_eq_of_lt hjlt, hj]

end Session

namespace App

variable {app app' : App} {os os' : Os} {size : UInt16 × UInt16} {exited : List PaneId} {pane : PaneId}

/-! ### One exited shell -/

/-- A close of one of several panes removes the focused one, whatever becomes of its shell. -/
theorem Tended.closeFocused_exact (h : app.Tended) {before after : List PaneId}
    (hp : app.session.panes = before ++ app.session.focused :: after) (htwo : 2 ≤ app.session.panes.length) (os : Os) :
    ∃ result app' os', app.closeFocused os = some (result, app', os') ∧ app'.session.panes = before ++ after ∧
      (∀ other, app'.panes.get other = if other = app.session.focused then none else app.panes.get other) ∧
      before.getLast?.or after.head? = some app'.session.focused := by
  obtain ⟨t, hclose, hp', hfocus⟩ := h.wf.closeFocused_exact hp htwo
  rcases hrec : app.panes.reconcile t (fun _ => LivePty.spawn (.new 2 2)) os with ⟨outcome, panes, os₁⟩
  obtain ⟨⟨removed, rfl⟩, -⟩ := Owned.reconcile_close h hclose hrec
  rcases hend : terminateRuntimes removed os₁ with ⟨result, os₂⟩
  refine ⟨result, { app with session := t, panes }, os₂, ?_, hp', fun other => ?_, hfocus⟩
  · simp only [App.closeFocused, hclose, Option.bind_eq_bind, Option.bind_some, if_true, hrec, hend, Option.pure_def]
  · have hreconciled := PaneRegistry.reconcile_ok hrec
    have hmem : other ∈ t.panes ↔ other ∈ app.session.panes ∧ other ≠ app.session.focused := by
      rw [Session.panes_of_closeFocused hclose, List.mem_filter, decide_eq_true_eq]
    split
    · next he => exact hreconciled.dropped other fun hin => (hmem.mp hin).2 he
    · next hne =>
      cases hget : app.panes.get other with
      | some runtime =>
        have hin : other ∈ app.session.panes := (h.owned other).mp (by rw [hget]; rfl)
        exact hreconciled.kept other (hmem.mpr ⟨hin, hne⟩) runtime hget
      | none =>
        refine hreconciled.dropped other fun hin => ?_
        have hsome := (h.owned other).mpr (hmem.mp hin).1
        rw [hget] at hsome
        cases hsome

/-- The first pane with an exited shell is focused and closed. -/
theorem Tended.reap (h : app.Tended) {before after : List PaneId} (hp : app.session.panes = before ++ pane :: after)
    (htwo : 2 ≤ app.session.panes.length) (hx : pane ∈ exited) (hfirst : ∀ other ∈ before, other ∉ exited) (os : Os) :
    App.reap exited app.session.panes app os = App.closeFocused { app with session.focused := pane } os := by
  have hin : pane ∈ app.session.panes := by
    rw [hp]
    exact List.mem_append_right _ List.mem_cons_self
  have found : ∀ list : List PaneId, (∀ other ∈ list, other ∉ exited) →
      App.reap exited (list ++ pane :: after) app os = App.closeFocused { app with session.focused := pane } os := by
    intro list hlist
    induction list with
    | nil =>
      rw [List.nil_append, App.reap, if_pos ⟨(h.owned pane).mpr hin, hx, htwo⟩, h.wf.focusOn hin (Nat.le_succ _)]
      rfl
    | cons other list ih =>
      obtain ⟨hother, hlist⟩ := List.forall_mem_cons.mp hlist
      rw [List.cons_append, App.reap, if_neg fun hc => hother hc.2.1]
      exact ih hlist
  rw [hp]
  exact found before hfirst

/-! ### What a round keeps -/

theorem Tended.navigateCopyMode (h : app.Tended) {key : KeyEvent} {history : UInt64} {result : Except String Unit}
    (hn : app.navigateCopyMode key size history os = (result, app', os')) : app'.Tended := by
  unfold App.navigateCopyMode at hn
  split at hn
  · cases hn
    exact h
  · split at hn
    · cases hn
      exact h
    · split at hn
      all_goals
        cases hn
        exact h

theorem Tended.forward (h : app.Tended) {bytes : List UInt8} {result : Except String Unit}
    (hf : app.forward bytes os = (result, app', os')) : app'.Tended := by
  unfold App.forward at hf
  split at hf
  · cases hf
    exact h
  · split at hf
    all_goals
      cases hf
      exact Owned.set h h.wf.focused _

theorem Tended.resized_any (h : app.Tended) {result : Except String Unit}
    (hr : app.resized size os = (result, app', os')) : app'.Tended := by
  unfold App.resized at hr
  split at hr
  all_goals
    next hres =>
      cases hr
      have hsized := Tended.resizePanes h hres
      exact hsized

theorem Tended.byte (h : app.Tended) {byte : UInt8} {reply : Except String Bool}
    (hb : app.byte size byte os = some (reply, app', os')) : app'.Tended := by
  have routed : App.Tended { app with router := (app.router.route byte).2 } := h
  simp only [App.byte] at hb
  split at hb
  · cases hb
    exact routed
  · cases hb
    exact routed.forward rfl
  · exact routed.command hb

theorem Tended.keys (h : app.Tended) {bytes : List UInt8} {reply : Except String Bool}
    (hk : App.keys size bytes app os = some (reply, app', os')) : app'.Tended := by
  induction bytes generalizing app os with
  | nil =>
    cases hk
    exact h
  | cons byte bytes ih =>
    obtain ⟨⟨result, app₁, os₁⟩, hb, hk⟩ := Option.bind_eq_some_iff.mp hk
    have h₁ : app₁.Tended := h.byte hb
    rcases result with error | leave
    · cases hk
      exact h₁
    · cases leave with
      | true =>
        cases hk
        exact h₁
      | false => exact ih h₁ hk

theorem Tended.handle (h : app.Tended) {event : TerminalEvent} {history : UInt64} {flow : Except String Flow}
    (he : app.handle size event history os = some (flow, app', os')) : app'.Tended := by
  cases event with
  | key key =>
    simp only [App.handle] at he
    split at he
    · cases he
      exact h
    · split at he
      · cases he
        exact h.navigateCopyMode rfl
      · obtain ⟨⟨result, app₁, os₁⟩, hk, he⟩ := Option.bind_eq_some_iff.mp he
        cases he
        exact h.keys hk
  | resize cols rows =>
    cases he
    exact h.resized_any rfl
  | mouse | other =>
    cases he
    exact h

theorem focusOn_owned {session session' : Session} {panes : PaneRegistry LivePty} (h : Owned session panes)
    {moves : Nat} (hf : focusOn pane moves session = some session') : Owned session' panes := by
  induction moves generalizing session with
  | zero =>
    obtain ⟨-, he⟩ := Option.ite_none_right_eq_some.mp hf
    cases he
    exact h
  | succ moves ih =>
    rw [focusOn] at hf
    split at hf
    · cases hf
      exact h
    · obtain ⟨next, hn, hf⟩ := Option.bind_eq_some_iff.mp hf
      exact ih (h.focusNext hn) hf

theorem Tended.reap_any (h : app.Tended) {panes : List PaneId} {result : Except String Unit}
    (hr : App.reap exited panes app os = some (result, app', os')) : app'.Tended := by
  induction panes with
  | nil =>
    cases hr
    exact h
  | cons pane panes ih =>
    rw [App.reap] at hr
    split at hr
    · obtain ⟨session, hf, hc⟩ := Option.bind_eq_some_iff.mp hr
      have focused : App.Tended { app with session } := focusOn_owned h hf
      exact focused.closeFocused hc
    · exact ih hr

/-! ### Where a round looks at the shells -/

/-- The client and the system behind the event of a round that goes on with the exited shells. -/
def atExits (app : App) (size : UInt16 × UInt16) (tick : Tick) (os : Os) : Option (App × Os) :=
  match if size ≠ app.lastSize then app.resized size os else (.ok (), app, os) with
  | (.error _, _, _) => none
  | (.ok (), app, os) =>
    match tick.event.elim (some (.ok .proceed, app, os)) fun event => app.handle size event tick.history os with
    | some (.ok .proceed, app, os) => some (app, os)
    | _ => none

theorem Tended.settled (h : app.Tended) {result : Except String Unit}
    (hs : (if size ≠ app.lastSize then app.resized size os else (.ok (), app, os)) = (result, app', os')) :
    app'.Tended := by
  split at hs
  · exact h.resized_any hs
  · cases hs
    exact h

theorem Tended.handled (h : app.Tended) {tick : Tick} {flow : Except String Flow}
    (he : (tick.event.elim (some (.ok .proceed, app, os)) fun event => app.handle size event tick.history os) =
      some (flow, app', os')) : app'.Tended := by
  cases htick : tick.event with
  | none =>
    rw [htick] at he
    cases he
    exact h
  | some event =>
    rw [htick] at he
    exact h.handle he

theorem Tended.atExits (h : app.Tended) {tick : Tick} (ha : app.atExits size tick os = some (app', os')) :
    app'.Tended := by
  unfold App.atExits at ha
  split at ha
  · cases ha
  · next hs =>
    split at ha
    · next he =>
      cases ha
      exact (h.settled hs).handled he
    · cases ha

/-- The rest of such a round. -/
theorem round_of_atExits {tick : Tick} (ha : app.atExits size tick os = some (app', os')) :
    app.round size tick os = (reap tick.exited app'.session.panes app' os').bind fun r =>
      some ((fun _ => false) <$> r.1, r.2.1, r.2.2) := by
  unfold App.atExits at ha
  unfold App.round
  generalize (if size ≠ app.lastSize then app.resized size os else (.ok (), app, os)) = settled at ha ⊢
  rcases settled with ⟨error | _, app₁, os₁⟩
  · cases ha
  · dsimp only at ha ⊢
    split at ha
    · next he =>
      cases ha
      simp only [he, Option.bind_eq_bind, Option.bind_some]
      rfl
    · cases ha

theorem Tended.round (h : app.Tended) {tick : Tick} {reply : Except String Bool}
    (hr : app.round size tick os = some (reply, app', os')) : app'.Tended := by
  unfold App.round at hr
  split at hr
  · next hs =>
    cases hr
    exact h.settled hs
  · next hs =>
    obtain ⟨⟨flow, app₁, os₁⟩, he, hr⟩ := Option.bind_eq_some_iff.mp hr
    have h₁ : app₁.Tended := (h.settled hs).handled he
    rcases flow with error | flow
    · cases hr
      exact h₁
    · cases flow with
      | leave | skip =>
        cases hr
        exact h₁
      | proceed =>
        obtain ⟨⟨result, app₂, os₂⟩, hreap, hr⟩ := Option.bind_eq_some_iff.mp hr
        cases hr
        exact h₁.reap_any hreap

end App

/-! ### Runs -/

namespace Local

variable {l l' : Local} {tick : Tick}

def atExits (l : Local) (tick : Tick) : Option (App × Os) :=
  if l.status = .running then l.app.atExits l.size tick l.os else none

theorem step_tended (h : l.app.Tended) (hs : l.step tick = some l') : l'.app.Tended := by
  unfold Local.step at hs
  split at hs
  · obtain ⟨⟨reply, app, os⟩, hr, hs⟩ := Option.bind_eq_some_iff.mp hs
    cases hs
    exact h.round hr
  · cases hs

/-- In every round of the local client that finds several panes, the first of them whose shell has exited goes,
    from the tree and from the registry, and nothing else does. The focus goes to the pane before it, or else to the
    first one that is left; so the pane that had the focus keeps it exactly when it is that one. -/
theorem exit_refocuses {size : UInt16 × UInt16} {os₀ os₁ os : Os} {start app : App} {ticks : List Tick}
    (hn : App.new size os₀ = (.ok start, os₁)) (hr : run step (.start start size os₁) ticks = some l)
    (ha : l.atExits tick = some (app, os)) {pane : PaneId} {before after : List PaneId}
    (hp : app.session.panes = before ++ pane :: after) (htwo : 2 ≤ app.session.panes.length)
    (hx : pane ∈ tick.exited) (hfirst : ∀ other ∈ before, other ∉ tick.exited) :
    ∃ l', l.step tick = some l' ∧ l'.app.session.panes = before ++ after ∧
      (∀ other, l'.app.panes.get other = if other = pane then none else app.panes.get other) ∧
      before.getLast?.or after.head? = some l'.app.session.focused ∧
      (l'.app.session.focused = app.session.focused ↔ before.getLast?.or after.head? = some app.session.focused) := by
  have tended : l.app.Tended :=
    run_invariant (I := fun l => l.app.Tended) (fun _ _ _ h hs => step_tended h hs) (App.Tended.new hn) hr
  obtain ⟨hrunning, ha⟩ := Option.ite_none_right_eq_some.mp ha
  have h : app.Tended := tended.atExits ha
  have hin : pane ∈ app.session.panes := by
    rw [hp]
    exact List.mem_append_right _ List.mem_cons_self
  have refocused : App.Tended { app with session.focused := pane } := ⟨⟨h.wf.nodup, hin, h.wf.below⟩, h.owned⟩
  obtain ⟨result, app', os', hclose, hpanes, hget, hfocus⟩ := refocused.closeFocused_exact hp htwo os
  have hround := App.round_of_atExits ha
  rw [h.reap hp htwo hx hfirst, hclose] at hround
  obtain ⟨l', hs, rfl⟩ : ∃ l', l.step tick = some l' ∧ l'.app = app' := by
    rw [Local.step, if_pos hrunning, hround]
    exact ⟨_, rfl, rfl⟩
  exact ⟨l', hs, hpanes, hget, hfocus, by rw [hfocus, Option.some.injEq]⟩

/-- Two splits. -/
def splitTwice : List Tick :=
  [pressed (.char 'b') true, pressed (.char '%') false, pressed (.char 'b') true, pressed (.char '%') false]

def exitOfFirst : Tick := { event := none, exited := [⟨1⟩], history := 0 }

/-- What two splits leave behind, and the exit of the shell of the first pane. -/
theorem splitTwice_exit : ∃ app os l, App.new (80, 24) ⟨0, [], []⟩ = (.ok app, os) ∧
    run step (.start app (80, 24) os) splitTwice = some l ∧ l.status = .running ∧
    l.atExits exitOfFirst = some (l.app, l.os) ∧ l.app.session.panes = [⟨1⟩, ⟨2⟩, ⟨3⟩] ∧
    l.app.session.focused = ⟨3⟩ := by
  obtain ⟨app, os, hn⟩ : ∃ app os, App.new (80, 24) ⟨0, [], []⟩ = (.ok app, os) := ⟨_, _, rfl⟩
  have hrun : ((App.new (80, 24) ⟨0, [], []⟩).1.toOption.bind fun app =>
      (run step (.start app (80, 24) (App.new (80, 24) ⟨0, [], []⟩).2) splitTwice).map fun l =>
        (l.status, l.size, l.app.lastSize, l.app.session.panes, l.app.session.focused)) =
      some (.running, (80, 24), (80, 24), [⟨1⟩, ⟨2⟩, ⟨3⟩], ⟨3⟩) := by decide +kernel
  rw [hn] at hrun
  obtain ⟨l, hl, he⟩ := Option.map_eq_some_iff.mp hrun
  simp only [Prod.mk.injEq] at he
  obtain ⟨hstatus, hsize, hlast, hpanes, hfocused⟩ := he
  refine ⟨app, os, l, hn, hl, hstatus, ?_, hpanes, hfocused⟩
  rw [atExits, if_pos hstatus, App.atExits, hsize, hlast]
  rfl

theorem exit_refocuses_first : ∃ app os l l', App.new (80, 24) ⟨0, [], []⟩ = (.ok app, os) ∧
    run step (.start app (80, 24) os) splitTwice = some l ∧ l.step exitOfFirst = some l' ∧
    l'.app.session.panes = [⟨2⟩, ⟨3⟩] := by
  obtain ⟨app, os, l, hn, hr, -, ha, hp, -⟩ := splitTwice_exit
  have hfirst : l.app.session.panes = [] ++ ⟨1⟩ :: [⟨2⟩, ⟨3⟩] := hp
  obtain ⟨l', hs, hp', -⟩ := exit_refocuses hn hr ha hfirst (by rw [hp]; decide) (by decide) (by decide)
  exact ⟨app, os, l, l', hn, hr, hs, hp'⟩

/-- The third of three panes loses the focus when the shell of the first one exits. -/
theorem exit_steals_focus : ∃ app os l l', App.new (80, 24) ⟨0, [], []⟩ = (.ok app, os) ∧
    run step (.start app (80, 24) os) splitTwice = some l ∧ l.app.session.panes = [⟨1⟩, ⟨2⟩, ⟨3⟩] ∧
    l.app.session.focused = ⟨3⟩ ∧ l.step exitOfFirst = some l' ∧ l'.app.session.panes = [⟨2⟩, ⟨3⟩] ∧
    l'.app.session.focused = ⟨2⟩ := by
  obtain ⟨app, os, hn⟩ : ∃ app os, App.new (80, 24) ⟨0, [], []⟩ = (.ok app, os) := ⟨_, _, rfl⟩
  have hrun : ((App.new (80, 24) ⟨0, [], []⟩).1.toOption.bind fun app =>
      (run step (.start app (80, 24) (App.new (80, 24) ⟨0, [], []⟩).2) splitTwice).bind fun l =>
        (l.step exitOfFirst).map fun l' => ((l.app.session.panes, l.app.session.focused),
          l'.app.session.panes, l'.app.session.focused)) =
      some (([⟨1⟩, ⟨2⟩, ⟨3⟩], ⟨3⟩), [⟨2⟩, ⟨3⟩], ⟨2⟩) := by decide +kernel
  rw [hn] at hrun
  obtain ⟨l, hl, hs⟩ := Option.bind_eq_some_iff.mp
    (show (run step (.start app (80, 24) os) splitTwice).bind _ = _ from hrun)
  obtain ⟨l', hs, he⟩ := Option.map_eq_some_iff.mp hs
  simp only [Prod.mk.injEq] at he
  obtain ⟨⟨hp, hf⟩, hp', hf'⟩ := he
  exact ⟨app, os, l, l', hn, hl, hp, hf, hs, hp', hf'⟩

end Local

end NovaMux

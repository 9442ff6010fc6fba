import NovaMux.Theorems.Screens

/-! Both modes look alike. Over the same rounds, as long as the terminals of the panes show the same, the screen of an
    attached client is that of a local client above the status line, artwork included. -/

namespace NovaMux

open Machine

variable {c : ConnId} {name : SessionName} {visuals : Visuals} {round : Round}

/-! ### Pictures of one session -/

/-- The local client shows of a pane what a snapshot says of it, when they agree on its text. -/
theorem shots_eq {app : App} {hosted : HostedSession} {view : View} {allowance : Nat} {layout : List (PaneId × Rect)}
    {panes : List PaneSnapshot} (hfocused : app.session.focused = hosted.session.focused)
    (h : List.Forall₂ (fun entry pane => ∃ text, pane = hosted.shot allowance entry text) layout panes)
    (htexts : layout.map (fun entry => app.textOf view entry.1) = panes.map PaneSnapshot.text) :
    (layout.map fun entry => app.shot entry (app.textOf view entry.1)) = panes := by
  induction h with
  | nil => rfl
  | @cons entry pane layout panes hpane _ ih =>
    obtain ⟨text, rfl⟩ := hpane
    obtain ⟨htext, hrest⟩ := List.cons.inj htexts
    have htext : app.textOf view entry.1 = truncateUtf8 text allowance := htext
    rw [List.map_cons, ih hrest, htext, App.shot, hfocused]
    rfl

/-- Only the status line tells two pictures of the same panes apart. -/
theorem sight_above (visuals : Visuals) (idle : IdleState) (size : UInt16 × UInt16) (panes : List PaneSnapshot)
    (status status' : String) (round : Round) (column : Nat) {row : Nat} (hrow : row + 1 < size.2.toNat) :
    round.sight visuals idle size panes status column row = round.sight visuals idle size panes status' column row := by
  have hne : row ≠ size.2.toNat - 1 := by omega
  unfold Round.sight
  split
  · rfl
  · simp only [picture, if_neg hne]

/-! ### Rounds -/

theorem Mux.byte_status {m t : Mux} {byte : UInt8} (hm : m.status ≠ .failed) (h : m.byte byte = some t) :
    t.status ≠ .failed := by
  unfold Mux.byte Mux.act at h
  split at h
  · cases h
    exact hm
  · cases h
    exact hm
  · next command _ =>
    cases command with
    | splitHorizontal | splitVertical | focusNext | closeFocused =>
      obtain ⟨session, -, rfl⟩ := Mux.perform_inv h
      exact hm
    | enterCopyMode =>
      cases h
      exact hm
    | detach | quit =>
      cases h
      nofun

theorem Mux.keys_status {m t : Mux} {bytes : List UInt8} (hm : m.status ≠ .failed) (h : m.keys bytes = some t) :
    t.status ≠ .failed := by
  induction bytes generalizing m with
  | nil =>
    cases h
    exact hm
  | cons byte bytes ih =>
    obtain ⟨u, hu, h⟩ := Option.bind_eq_some_iff.mp h
    have hgoing := Mux.byte_status hm hu
    split at h
    · exact ih hgoing h
    · cases h
      exact hgoing

theorem Mux.step_status {m t : Mux} {tick : Tick} (h : m.step tick = some t) : t.status ≠ .failed := by
  unfold Mux.step at h
  split at h
  · next hs =>
    have hm : m.status ≠ .failed := by
      rw [hs]
      nofun
    cases hevent : tick.event with
    | none =>
      rw [hevent] at h
      cases h
      exact hm
    | some event =>
      rw [hevent] at h
      cases event with
      | key key =>
        simp only [Option.elim_some, Mux.handle] at h
        split at h
        · cases h
          exact hm
        · split at h
          · cases h
            exact hm
          · exact Mux.keys_status hm h
      | resize | mouse | other =>
        cases h
        exact hm
  · cases h

theorem Local.step_size {s t : Local} {tick : Tick} (h : s.step tick = some t) : t.size = tick.sizeAfter s.size := by
  unfold Local.step at h
  split at h
  · obtain ⟨r, -, h⟩ := Option.bind_eq_some_iff.mp h
    cases h
    rfl
  · cases h

theorem Round.plain_calm (h : round.tick.Calm) (visuals : Visuals) (idle : IdleState) : (round.plain visuals idle).Calm := by
  unfold Round.plain
  split
  · exact ⟨rfl, nofun⟩
  · exact h

/-- The two screens are at the same point: their clients follow one multiplexer, and they are idle alike. -/
structure Alike (c : ConnId) (name : SessionName) (l : LocalScreen) (a : AttachedScreen) : Prop where
  follow : ∃ m : Mux, m.status ≠ .failed ∧ l.client.Tracks m ∧ Attached.Tracks c name a.client m
  current : ∃ screens, Attached.Current c name screens a.size a.client
  size : l.client.size = a.size
  idle : l.idle = a.idle
  frames : l.frames.length = a.frames.length

variable {l l' : LocalScreen} {a a' : AttachedScreen}

theorem Alike.step (hread : App.Readable round.view) (hcalm : round.tick.Calm) (h : Alike c name l a)
    (hfew : l.client.app.session.panes.length ≤ 32)
    (hnext : ∀ l', l.step visuals round = some l' → l'.client.app.session.panes.length ≤ 32) :
    Option.Rel (Alike c name) (l.step visuals round) (a.step c name visuals round) := by
  obtain ⟨m, hm, hl, ha⟩ := h.follow
  have hlocal : Option.Rel Local.Tracks (l.client.step (round.plain visuals l.idle)) (m.step (round.plain visuals l.idle)) :=
    hl.step (Round.plain_calm hcalm visuals l.idle).exited
  by_cases hs : a.client.status = .running
  · obtain ⟨screens, hbefore⟩ := h.current
    obtain ⟨-, panes, -, -, -, -, hheld⟩ := AttachedScreen.held hbefore hs
    obtain ⟨idle, frames, hdraw, hlast⟩ := LocalScreen.step_eq hread visuals l
    have hlarge := (Round.plain_calm hcalm visuals l.idle).large
    have hattached := ha.step hlarge (hl.client.session ▸ hfew) fun t ht => by
      obtain ⟨client, hclient, htracks⟩ := rel_some_right hlocal ht
      exact htracks.client.session ▸ hnext _ (by rw [hdraw, hclient]; rfl)
    rw [hdraw, AttachedScreen.step_eq c name hheld, ← h.idle]
    -- Both follow the multiplexer, in the round that is left without the screen.
    cases ht : m.step (round.plain visuals l.idle) with
    | none =>
      rw [rel_none_right hlocal ht, rel_none_right hattached ht]
      exact .none
    | some t =>
      obtain ⟨client, hclient, htracks⟩ := rel_some_right hlocal ht
      obtain ⟨client', hclient', htracks'⟩ := rel_some_right hattached ht
      have hgoing : t.status ≠ .failed := Mux.step_status ht
      obtain ⟨rfl, rfl⟩ := hlast.resolve_right fun hfailed => hgoing (htracks.status.symm.trans (hfailed client hclient))
      have hcurrent := hbefore.step hclient'
      rw [hclient, hclient']
      refine .some ⟨⟨t, hgoing, htracks, htracks'⟩, ?_, ?_, rfl, ?_⟩
      · rw [Round.sizeAfter_plain] at hcurrent
        exact ⟨screens, hcurrent⟩
      · rw [Local.step_size hclient, Round.sizeAfter_plain, h.size]
      · rw [List.length_append, List.length_append, h.frames]
        rfl
  · have hl' : l.client.status ≠ .running := by
      rw [hl.status, ← ha.status]
      exact hs
    have hnone : l.step visuals round = none := by simp [LocalScreen.step, hl']
    have hnone' : a.step c name visuals round = none := by simp [AttachedScreen.step, hs]
    rw [hnone, hnone']
    exact .none

/-- What the local client shows of its panes is what the snapshot says that the attached client draws. -/
theorem Alike.shots (h : Alike c name l a) (hs : a.client.status = .running) : ∃ panes, AttachedScreen.Held a panes ∧
    Arranged a.size panes ∧ panes.length = (l.client.app.layout l.client.size).length ∧
    ∀ view, (l.client.app.layout l.client.size).map (fun entry => l.client.app.textOf view entry.1) =
        panes.map PaneSnapshot.text →
      l.client.app.shots view l.client.size = panes := by
  obtain ⟨m, hm, hl, ha⟩ := h.follow
  obtain ⟨screens, hcurrent⟩ := h.current
  obtain ⟨hosted, panes, hserv, hshown, hv, arranged, hheld⟩ := AttachedScreen.held hcurrent hs
  obtain ⟨hosted', hget, hagree⟩ := same_of_tracks hl ha
  obtain rfl : hosted' = hosted := Option.some.inj (hget.symm.trans hserv.session)
  obtain ⟨hosted'', hget', hf, -⟩ := ha.hosted
  obtain rfl : hosted'' = hosted' := Option.some.inj (hget'.symm.trans hget)
  have hviewport : hosted''.viewport = m.size := hf.viewport
  obtain ⟨panes', hscreen, hshots⟩ := hshown.screen
  obtain rfl : panes = panes' := Response.screen.inj hscreen
  refine ⟨panes, hheld, ?_, ?_, fun view htexts => ?_⟩
  · rw [← h.size, hl.size, ← hviewport]
    exact arranged
  · rw [hagree.layout]
    exact hshots.length_eq.symm
  · rw [hagree.layout] at htexts
    rw [App.shots, hagree.layout]
    exact shots_eq hagree.focused hshots htexts

/-- After a round both terminals show the same above the status line. -/
theorem Alike.cells (hread : App.Readable round.view) (hcalm : round.tick.Calm) (h : Alike c name l a)
    (hfew : l.client.app.session.panes.length ≤ 32) (hl' : l.step visuals round = some l')
    (hfew' : l'.client.app.session.panes.length ≤ 32) (ha' : a.step c name visuals round = some a') :
    ∃ panes, a.client.response = .screen panes ∧
      ((l.client.app.layout l.client.size).map (fun entry => l.client.app.textOf round.view entry.1) =
          panes.map PaneSnapshot.text → (∀ pane ∈ panes, pane.NarrowText) →
        ∀ (display display' : Display) column row, row + 1 < a.size.2.toNat →
          (display.run l'.frames.flatten).cells column row = (display'.run a'.frames.flatten).cells column row) := by
  have hnext : ∀ l'', l.step visuals round = some l'' → l''.client.app.session.panes.length ≤ 32 := fun l'' hl'' => by
    cases hl'.symm.trans hl''
    exact hfew'
  obtain ⟨a'', ha'', halike⟩ := rel_some (h.step hread hcalm hfew hnext) hl'
  cases ha'.symm.trans ha''
  obtain ⟨t, ht, htracks, -⟩ := halike.follow
  have hgoing : l'.client.status ≠ .failed := fun hfailed => ht (htracks.status.symm.trans hfailed)
  obtain ⟨panes, hheld, arranged, -, hshots⟩ := h.shots (AttachedScreen.running_of_step ha')
  refine ⟨panes, hheld.response, fun htexts hnarrow display display' column row hrow => ?_⟩
  obtain ⟨-, -, hframes⟩ := LocalScreen.step_inv hread hl' hgoing
  have hframes' : a'.frames = a.frames ++ [a.due visuals panes round] := by
    rw [AttachedScreen.step_eq c name hheld] at ha'
    obtain ⟨after, -, rfl⟩ := Option.map_eq_some_iff.mp ha'
    rfl
  have hlocal := Round.run_frame visuals l.idle round (l.client.app.arranged round.view l.client.size)
    l.client.app.narrow_statusText (fun _ => hshots round.view htexts ▸ hnarrow) (display.run l.frames.flatten) column row
  have hattached := Round.run_frame visuals a.idle round arranged
    (narrow_remoteStatus a.client.copyMode.active) (fun _ => hnarrow) (display'.run a.frames.flatten) column row
  have habove := sight_above visuals a.idle a.size panes l.client.app.statusText
    (remoteStatus a.client.copyMode.active) round column hrow
  rw [hframes, hframes', List.flatten_append, List.flatten_append, Display.run_append, Display.run_append,
    List.flatten_singleton, List.flatten_singleton]
  refine hlocal.trans (Eq.trans ?_ hattached.symm)
  rw [hshots round.view htexts, h.idle, h.size]
  exact habove

/-! ### Runs -/

end NovaMux

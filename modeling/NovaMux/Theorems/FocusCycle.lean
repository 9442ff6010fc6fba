import NovaMux.Theorems.Exits
import Mathlib.Data.List.Rotate

/-! Moving the focus around. From any reachable state, as many moves as there are panes focus every pane once,
    in the cyclic order of the panes, and end where they began; so the search for a pane ends before that. -/

namespace NovaMux

open Machine

namespace Session

variable {s t : Session} {pane : PaneId} {visited : List PaneId}

/-- The panes that the given number of moves of the focus go through, and the session after them. -/
def focusMoves : Nat → Session → Option (List PaneId × Session)
  | 0, s => some ([], s)
  | k + 1, s => do
    let t ← s.focusNext
    let (visited, u) ← focusMoves k t
    some (t.focused :: visited, u)

theorem focusMoves_succ_eq_some {k : Nat} : focusMoves (k + 1) s = some (visited, t) ↔
    ∃ u rest, s.focusNext = some u ∧ focusMoves k u = some (rest, t) ∧ visited = u.focused :: rest := by
  simp only [focusMoves, Option.bind_eq_bind, Option.bind_eq_some_iff, Prod.exists, Option.some.injEq,
    Prod.mk.injEq]
  constructor
  · rintro ⟨u, hu, rest, t', ht, rfl, rfl⟩
    exact ⟨u, rest, hu, ht, rfl⟩
  · rintro ⟨u, rest, hu, ht, rfl⟩
    exact ⟨u, hu, rest, t, ht, rfl, rfl⟩

/-! ### What a move changes -/

theorem focusNext_frame (h : s.focusNext = some t) : t = { s with focused := t.focused } := by
  simp only [focusNext, Option.bind_eq_bind, Option.bind_eq_some_iff, Option.some.injEq] at h
  obtain ⟨_, -, _, -, rfl⟩ := h
  rfl

theorem focusMoves_frame {k : Nat} (h : focusMoves k s = some (visited, t)) : t = { s with focused := t.focused } := by
  induction k generalizing s visited with
  | zero =>
    obtain ⟨-, rfl⟩ := Prod.mk.inj (Option.some.inj h)
    rfl
  | succ k ih =>
    obtain ⟨u, rest, hu, ht, -⟩ := focusMoves_succ_eq_some.mp h
    have htail := ih ht
    rw [focusNext_frame hu] at htail
    exact htail

/-! ### One turn -/

/-- What is ahead of the pane at `i`: the next pane, and then what is ahead of that one. -/
theorem rotate_ahead {panes : List PaneId} {i : Nat} (hi : i < panes.length) {next : PaneId}
    (hnext : panes[(i + 1) % panes.length]? = some next) :
    ∃ ahead, panes.rotate (i + 1) = next :: ahead ∧ panes.rotate ((i + 1) % panes.length + 1) = ahead ++ [next] := by
  have hpos : 0 < panes.length := Nat.lt_of_le_of_lt (Nat.zero_le i) hi
  have hhead : (panes.rotate (i + 1)).head? = some next := by
    rw [← List.rotate_mod, List.head?_rotate (Nat.mod_lt _ hpos), hnext]
  obtain ⟨ahead, hahead⟩ := List.head?_eq_some_iff.mp hhead
  refine ⟨ahead, hahead, ?_⟩
  rw [← List.rotate_rotate, List.rotate_mod, hahead, List.rotate_cons_succ, List.rotate_zero]

/-- The panes that the first moves go through are the first ones ahead. -/
theorem focusMoves_of_getElem {k i : Nat} (hn : s.panes.Nodup) (hi : s.panes[i]? = some s.focused)
    (hk : k ≤ s.panes.length) (hpane : s.panes[(i + k) % s.panes.length]? = some pane) :
    focusMoves k s = some ((s.panes.rotate (i + 1)).take k, { s with focused := pane }) := by
  obtain ⟨hlt, -⟩ := List.getElem?_eq_some_iff.mp hi
  induction k generalizing s i with
  | zero =>
    rw [Nat.add_zero, Nat.mod_eq_of_lt hlt, hi] at hpane
    obtain rfl := Option.some.inj hpane
    rw [List.take_zero]
    rfl
  | succ k ih =>
    have hmod : (i + 1) % s.panes.length < s.panes.length := Nat.mod_lt _ s.length_panes_pos
    have hnext := List.getElem?_eq_getElem hmod
    obtain ⟨ahead, hahead, hrest⟩ := rotate_ahead hlt hnext
    have hlength : ahead.length + 1 = s.panes.length := by
      rw [← List.length_rotate s.panes (i + 1), hahead, List.length_cons]
    have hplace : ((i + 1) % s.panes.length + k) % s.panes.length = (i + (k + 1)) % s.panes.length := by
      rw [Nat.mod_add_mod, Nat.add_right_comm, Nat.add_assoc]
    have htail := ih (s := { s with focused := s.panes[(i + 1) % s.panes.length] }) hn hnext (Nat.le_of_succ_le hk)
      ((congrArg (fun j => s.panes[j]?) hplace).trans hpane) hmod
    refine focusMoves_succ_eq_some.mpr ⟨_, _, focusNext_of_getElem hn hi hnext, htail, ?_⟩
    have hfirst : (ahead ++ [s.panes[(i + 1) % s.panes.length]]).take k = ahead.take k :=
      List.take_append_of_le_length (by omega)
    show (s.panes.rotate (i + 1)).take (k + 1) =
      s.panes[(i + 1) % s.panes.length] :: (s.panes.rotate ((i + 1) % s.panes.length + 1)).take k
    rw [hahead, hrest, List.take_succ_cons, hfirst]

/-- As many moves as there are panes go through all of them, beginning behind the focus, and restore it. -/
theorem Wf.focusMoves (h : s.Wf) : ∃ i, s.panes[i]? = some s.focused ∧
    Session.focusMoves s.panes.length s = some (s.panes.rotate (i + 1), s) := by
  obtain ⟨i, hi⟩ := List.mem_iff_getElem?.mp h.focused
  obtain ⟨hlt, -⟩ := List.getElem?_eq_some_iff.mp hi
  have hback : s.panes[(i + s.panes.length) % s.panes.length]? = some s.focused := by
    rw [Nat.add_mod_right, Nat.mod_eq_of_lt hlt, hi]
  refine ⟨i, hi, ?_⟩
  rw [focusMoves_of_getElem h.nodup hi (Nat.le_refl _) hback,
    List.take_of_length_le (Nat.le_of_eq (List.length_rotate _ _))]

/-- Moving the focus around visits every pane once, in order, and nothing else changes; and a search for a pane
    finds it in fewer moves than there are panes. -/
theorem focus_cycles {name : SessionName} {ops : List SessionOp} (hr : run step (new name) ops = some s) :
    (∃ i visited, s.panes[i]? = some s.focused ∧ focusMoves s.panes.length s = some (visited, s) ∧
      visited = s.panes.rotate (i + 1) ∧ visited.Perm s.panes ∧ visited.Nodup) ∧
    (∀ k visited t, focusMoves k s = some (visited, t) → t = { s with focused := t.focused }) ∧
    ∀ pane ∈ s.panes, ∀ moves, s.panes.length ≤ moves + 1 →
      App.focusOn pane moves s = some { s with focused := pane } := by
  have h := wf_of_run hr
  refine ⟨?_, fun _ _ _ => focusMoves_frame, fun pane hp moves hm => h.focusOn hp hm⟩
  obtain ⟨i, hi, hmoves⟩ := h.focusMoves
  exact ⟨i, _, hi, hmoves, rfl, List.rotate_perm _ _, List.nodup_rotate.mpr h.nodup⟩

/-- Three panes, of which the second is focused. -/
theorem focus_cycles_three : ∃ s : Session,
    run step (new .work) [.splitFocused .horizontal, .splitFocused .vertical, .focusNext, .focusNext] = some s ∧
    focusMoves 3 s = some ([⟨3⟩, ⟨1⟩, ⟨2⟩], s) ∧ App.focusOn ⟨1⟩ 2 s = some { s with focused := ⟨1⟩ } := by
  have hr : ∃ s, run step (new .work) [.splitFocused .horizontal, .splitFocused .vertical, .focusNext, .focusNext] =
      some s ∧ s.panes = [⟨1⟩, ⟨2⟩, ⟨3⟩] ∧ s.focused = ⟨2⟩ := ⟨_, rfl, rfl, rfl⟩
  obtain ⟨s, hr, hpanes, hfocused⟩ := hr
  obtain ⟨⟨i, visited, hi, hmoves, hvisited, -, -⟩, -, hsearch⟩ := focus_cycles hr
  rw [hpanes, hfocused] at hi
  obtain ⟨hlt, -⟩ := List.getElem?_eq_some_iff.mp hi
  obtain rfl : i = 1 := (List.getElem?_inj hlt (by decide)).mp hi
  rw [hvisited, hpanes] at hmoves
  exact ⟨s, hr, hmoves, hsearch ⟨1⟩ (by rw [hpanes]; decide) 2 (by rw [hpanes]; decide)⟩

end Session

end NovaMux

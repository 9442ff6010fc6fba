import NovaMux.Core.CopyMode
import NovaMux.Lib.Machine

/-! The copy-mode offset over whole runs. The history can shrink between two actions. Moving to older output clamps
    the offset to what is left; moving to newer output only subtracts, and stays within the history exactly when the
    history has not shrunk below what the move takes off. -/

namespace NovaMux.CopyMode

open Machine

inductive Call where
  | enter
  | exit
  | apply (action : CopyModeAction) (pageRows maximum : UInt64)
deriving DecidableEq, Repr

def step (mode : CopyMode) : Call → Option CopyMode
  | .enter => some mode.enter
  | .exit => some mode.exit
  | .apply action pageRows maximum => some (mode.apply action pageRows maximum)

/-- After the call the offset is within the history that the call was given. -/
def Retained (mode : CopyMode) : Call → Prop
  | .apply action pageRows maximum => (mode.apply action pageRows maximum).offset ≤ maximum
  | _ => True

/-- Outside copy mode the viewport shows live output. -/
def Live (mode : CopyMode) : Prop := mode.active = false → mode.offset = 0

/-- A move to newer output in copy mode starts no more above the history than it goes down. -/
def Follows (mode : CopyMode) : Call → Prop
  | .apply .newerLine _ maximum => mode.active = true → mode.offset.toNat ≤ maximum.toNat + 1
  | .apply .newerPage pageRows maximum => mode.active = true → mode.offset.toNat ≤ maximum.toNat + pageRows.toNat
  | _ => True

variable {mode mode' : CopyMode} {call : Call} {action : CopyModeAction} {pageRows maximum : UInt64}

theorem apply_of_inactive (h : mode.active = false) : mode.apply action pageRows maximum = mode := if_pos h

/-- An action keeps copy mode, except for the one that leaves it. -/
theorem active_apply (h : mode.active = true) :
    (mode.apply action pageRows maximum).active = !decide (action = .exit) := by
  cases action <;> simp [apply, h, exit]

theorem Live.step (h : mode.Live) (hs : step mode call = some mode') : mode'.Live := by
  cases call with
  | enter =>
    cases hs
    exact fun _ => rfl
  | exit =>
    cases hs
    exact fun _ => rfl
  | apply action pageRows maximum =>
    cases hs
    cases ha : mode.active with
    | false => rwa [apply_of_inactive ha]
    | true =>
      intro hi
      rw [active_apply ha] at hi
      obtain rfl : action = .exit := by simpa using hi
      simp [apply, ha, exit]

/-- One call, whatever the history is. -/
theorem retained_iff_follows (h : mode.Live) : mode.Retained call ↔ mode.Follows call := by
  cases call with
  | enter => exact Iff.rfl
  | exit => exact Iff.rfl
  | apply action pageRows maximum =>
    cases ha : mode.active with
    | false =>
      have hzero := h ha
      have hr : mode.Retained (.apply action pageRows maximum) := by
        rw [Retained, apply_of_inactive ha, hzero]
        exact UInt64.zero_le
      refine iff_of_true hr ?_
      cases action <;> simp [Follows, ha]
    | true =>
      cases action with
      | olderLine => simp [Retained, Follows, apply, ha, Std.min_le_right]
      | olderPage => simp [Retained, Follows, apply, ha, Std.min_le_right]
      | exit => simp [Retained, Follows, apply, ha, exit]
      | newerLine =>
        simp only [Retained, Follows, apply, ha, UInt64.le_iff_toNat_le]
        simp
      | newerPage =>
        simp only [Retained, Follows, apply, ha, UInt64.le_iff_toNat_le]
        simp

/-- In every run the offset is zero outside copy mode; it is within the retained history after every action exactly
    when each move to newer output is at least as large as the part of the offset above the history it is given. -/
theorem offset_retained (calls : List Call) :
    Along step Retained default calls ∧ Throughout step Live default calls ↔ Along step Follows default calls := by
  have live : ∀ {pre mode}, run step default pre = some mode → mode.Live :=
    run_invariant (fun _ _ _ h hs => h.step hs) fun _ => rfl
  constructor
  · intro h pre call post mode he hr
    exact (retained_iff_follows (live hr)).mp (h.1 pre call post mode he hr)
  · intro h
    refine ⟨?_, fun pre post mode _ hr => live hr⟩
    intro pre call post mode he hr
    exact (retained_iff_follows (live hr)).mpr (h pre call post mode he hr)

/-- The history shrinks to nothing under an offset of five lines, and one line down leaves four. -/
theorem offset_retained_fails : ¬∀ calls, Along step Retained default calls ∧ Throughout step Live default calls := by
  intro h
  have hlast := (h [.enter, .apply .olderPage 5 5, .apply .newerLine 5 0]).1
    [.enter, .apply .olderPage 5 5] (.apply .newerLine 5 0) [] ⟨true, 5⟩ rfl rfl
  simp only [Retained] at hlast
  exact absurd hlast (by decide)

end NovaMux.CopyMode

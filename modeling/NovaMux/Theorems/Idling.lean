import NovaMux.Runtime.Screensaver
import Mathlib.Data.List.Induction

/-! When an input dismisses the artwork. The two fields of the idle state say of a whole history of updates and inputs
    when the last input was and whether an update has started the artwork since, with only allowed updates behind it.
    So no input is swallowed but the one that dismisses the artwork. -/

namespace NovaMux

inductive IdleEvent where
  | update (now : Nat) (allowed : Bool)
  | input (now : Nat)
deriving DecidableEq, Repr

namespace IdleEvent

def time : IdleEvent → Nat
  | .update now _ => now
  | .input now => now

/-- The time of the last input, or of the creation when there was none. -/
def previousInput (created : Nat) (history : List IdleEvent) : Nat :=
  history.foldl (fun last event => match event with | .update .. => last | .input now => now) created

/-- The times are not decreasing. -/
def Ordered (created : Nat) (history : List IdleEvent) : Prop := (created :: history.map time).Pairwise (· ≤ ·)

/-- An allowed update came at least `wait` after the input before it, and behind it there are only allowed updates. -/
def Idled (wait created : Nat) (history : List IdleEvent) : Prop :=
  ∃ before now after, history = before ++ .update now true :: after ∧ previousInput created before + wait ≤ now ∧
    ∀ event ∈ after, ∃ later, event = .update later true

variable {wait created now : Nat} {history : List IdleEvent} {event : IdleEvent} {allowed : Bool}

/-! ### Histories -/

theorem previousInput_concat : previousInput created (history ++ [event]) =
    match event with | .update .. => previousInput created history | .input now => now := by
  rw [previousInput, List.foldl_append]
  rfl

theorem previousInput_mem (created : Nat) (history : List IdleEvent) :
    previousInput created history ∈ created :: history.map time := by
  induction history using List.reverseRecOn with
  | nil => exact List.mem_cons_self
  | append_singleton history event ih =>
    rw [previousInput_concat, List.map_append, ← List.cons_append]
    cases event with
    | update => exact List.mem_append_left _ ih
    | input now => exact List.mem_append_right _ List.mem_cons_self

theorem Ordered.init (h : Ordered created (history ++ [event])) : Ordered created history := by
  rw [Ordered, List.map_append, ← List.cons_append] at h
  exact (List.pairwise_append.mp h).1

theorem Ordered.of_prefix {earlier : List IdleEvent} (h : Ordered created history) (hp : earlier <+: history) :
    Ordered created earlier :=
  h.sublist ((List.cons_sublist_cons).mpr (hp.sublist.map time))

theorem Ordered.previousInput_le (h : Ordered created (history ++ [event])) :
    previousInput created history ≤ event.time := by
  rw [Ordered, List.map_append, ← List.cons_append] at h
  exact (List.pairwise_append.mp h).2.2 _ (previousInput_mem created history) _ List.mem_cons_self

/-! ### The last event of a history -/

/-- An idle history ends in an allowed update: the one that came late enough, or one behind it. -/
theorem idled_concat : Idled wait created (history ++ [event]) ↔ (∃ now, event = .update now true) ∧
    (Idled wait created history ∨ previousInput created history + wait ≤ event.time) := by
  constructor
  · rintro ⟨before, now, after, he, hwait, hafter⟩
    rcases List.eq_nil_or_concat' after with rfl | ⟨between, last, rfl⟩
    · obtain ⟨rfl, hevent⟩ := List.append_inj' he rfl
      obtain rfl := List.singleton_inj.mp hevent
      exact ⟨⟨now, rfl⟩, Or.inr hwait⟩
    · rw [← List.cons_append, ← List.append_assoc] at he
      obtain ⟨rfl, hevent⟩ := List.append_inj' he rfl
      obtain rfl := List.singleton_inj.mp hevent
      refine ⟨hafter event (List.mem_append_right _ List.mem_cons_self), Or.inl ⟨before, now, between, rfl, hwait, ?_⟩⟩
      intro other hother
      exact hafter other (List.mem_append_left _ hother)
  · rintro ⟨⟨now, rfl⟩, ⟨before, start, after, rfl, hwait, hafter⟩ | hwait⟩
    · refine ⟨before, start, after ++ [.update now true], by simp, hwait, ?_⟩
      intro event hevent
      rcases List.mem_append.mp hevent with hin | hlast
      · exact hafter event hin
      · exact ⟨now, List.mem_singleton.mp hlast⟩
    · exact ⟨history, now, [], rfl, hwait, nofun⟩

theorem not_idled_nil : ¬Idled wait created [] := by
  rintro ⟨before, now, after, he, -⟩
  simp at he

end IdleEvent

namespace IdleState
open IdleEvent

/-- One call, with the mode and the idle time of the configuration. -/
def step (mode : Screensaver) (idleSeconds : UInt16) (idle : IdleState) : IdleEvent → Bool × IdleState
  | .update now allowed => idle.update now mode idleSeconds allowed
  | .input now => idle.input now

/-- The state after a history of calls. -/
def after (mode : Screensaver) (idleSeconds : UInt16) (created : Nat) (history : List IdleEvent) : IdleState :=
  history.foldl (fun idle event => (idle.step mode idleSeconds event).2) (new created)

variable {mode : Screensaver} {idleSeconds : UInt16} {created now : Nat} {history : List IdleEvent} {idle : IdleState}
  {allowed : Bool}

/-! ### Calls -/

theorem lastInput_update : (idle.update now mode idleSeconds allowed).2.lastInput = idle.lastInput := by
  unfold update
  split
  · rfl
  · dsimp only
    split
    · rfl
    · rfl

/-- An update returns whether the artwork is shown then. -/
theorem update_eq_isActive : (idle.update now mode idleSeconds allowed).1 =
    (idle.update now mode idleSeconds allowed).2.isActive := by
  unfold update
  split
  · rfl
  · rfl

theorem isActive_update : (idle.update now mode idleSeconds allowed).2.isActive = true ↔ mode ≠ .off ∧ allowed = true ∧
    (idle.isActive = true ∨ idleSeconds.toNat * 10 ^ 9 ≤ now - idle.lastInput) := by
  unfold update isActive
  by_cases hoff : mode = .off ∨ allowed = false
  · rw [if_pos hoff]
    refine iff_of_false Bool.false_ne_true ?_
    rintro ⟨hmode, hallowed, -⟩
    rcases hoff with hoff | hoff
    · exact hmode hoff
    · rw [hallowed] at hoff
      cases hoff
  · rw [if_neg hoff]
    obtain ⟨hmode, hallowed⟩ := not_or.mp hoff
    have hallowed := Bool.eq_true_of_not_eq_false hallowed
    cases hactive : idle.activeSince with
    | none =>
      simp only [Option.isNone_none, true_and]
      split
      · next hwait => exact iff_of_true rfl ⟨hmode, hallowed, Or.inr hwait⟩
      · next hwait =>
        rw [hactive]
        refine iff_of_false Bool.false_ne_true ?_
        rintro ⟨-, -, hactive | hwait'⟩
        · cases hactive
        · exact hwait hwait'
    | some start => simp [hactive, hmode, hallowed]

/-! ### Histories of calls -/

theorem after_concat {event : IdleEvent} : after mode idleSeconds created (history ++ [event]) =
    ((after mode idleSeconds created history).step mode idleSeconds event).2 := by
  rw [after, List.foldl_append]
  rfl

theorem lastInput_after (history : List IdleEvent) :
    (after mode idleSeconds created history).lastInput = previousInput created history := by
  induction history using List.reverseRecOn with
  | nil => rfl
  | append_singleton history event ih =>
    rw [after_concat, previousInput_concat]
    cases event with
    | update now allowed => exact lastInput_update.trans ih
    | input now => rfl

/-- The artwork is shown exactly after an idle history. -/
theorem isActive_after (hord : Ordered created history) :
    (after mode idleSeconds created history).isActive = true ↔
      mode ≠ .off ∧ Idled (idleSeconds.toNat * 10 ^ 9) created history := by
  induction history using List.reverseRecOn with
  | nil => exact iff_of_false Bool.false_ne_true fun h => not_idled_nil h.2
  | append_singleton history event ih =>
    have hlast := hord.previousInput_le
    rw [after_concat, idled_concat]
    cases event with
    | update now allowed =>
      have hwait : idleSeconds.toNat * 10 ^ 9 ≤ now - previousInput created history ↔
          previousInput created history + idleSeconds.toNat * 10 ^ 9 ≤ now := by
        have hle : previousInput created history ≤ now := hlast
        omega
      have hevent : (∃ later, IdleEvent.update now allowed = .update later true) ↔ allowed = true := by
        simp
      rw [hevent]
      refine isActive_update.trans ?_
      rw [lastInput_after, ih hord.init, hwait]
      constructor
      · rintro ⟨hmode, hallowed, ⟨-, hidled⟩ | hle⟩
        · exact ⟨hmode, hallowed, Or.inl hidled⟩
        · exact ⟨hmode, hallowed, Or.inr hle⟩
      · rintro ⟨hmode, hallowed, hidled | hle⟩
        · exact ⟨hmode, hallowed, Or.inl ⟨hmode, hidled⟩⟩
        · exact ⟨hmode, hallowed, Or.inr hle⟩
    | input now =>
      refine iff_of_false Bool.false_ne_true ?_
      rintro ⟨-, ⟨later, he⟩, -⟩
      cases he

/-- An input is swallowed exactly when it dismisses the artwork, so never one that follows another; and an update
    says whether the next input will be. -/
theorem input_swallowed (mode : Screensaver) (idleSeconds : UInt16) {created now : Nat} {history : List IdleEvent}
    (hord : Ordered created (history ++ [.input now])) :
    (((after mode idleSeconds created history).input now).1 = true ↔
      mode ≠ .off ∧ Idled (idleSeconds.toNat * 10 ^ 9) created history) ∧
    (∀ later, (((after mode idleSeconds created history).input now).2.input later).1 = false) ∧
    ∀ updated allowed later, ((after mode idleSeconds created history).update updated mode idleSeconds allowed).1 =
      (((after mode idleSeconds created history).update updated mode idleSeconds allowed).2.input later).1 :=
  ⟨isActive_after hord.init, fun _ => rfl, fun _ _ _ => update_eq_isActive⟩

/-- After ten seconds the artwork is shown, and the first input dismisses it. -/
theorem input_swallowed_ten :
    ((after .catPlay 10 0 [.update 10000000000 true]).input 10000000001).1 = true ∧
      (((after .catPlay 10 0 [.update 10000000000 true]).input 10000000001).2.input 10000000002).1 = false := by
  have hord : Ordered 0 ([.update 10000000000 true] ++ [.input 10000000001]) := by
    unfold Ordered
    decide
  have h := input_swallowed .catPlay 10 hord
  exact ⟨h.1.mpr ⟨nofun, [], _, [], rfl, Nat.le_refl _, nofun⟩, h.2.1 _⟩

end IdleState

end NovaMux

/-! When a computation that may fail succeeds, step by step. -/

namespace Except

variable {ε α β : Type}

theorem bind_eq_ok {x : Except ε α} {f : α → Except ε β} {b : β} :
    (x >>= f) = .ok b ↔ ∃ a, x = .ok a ∧ f a = .ok b := by
  cases x with
  | error e => exact ⟨nofun, fun ⟨_, h, _⟩ => nomatch h⟩
  | ok a => exact ⟨fun h => ⟨a, rfl, h⟩, fun ⟨_, h, hb⟩ => by cases h; exact hb⟩

theorem map_eq_ok {x : Except ε α} {f : α → β} {b : β} : f <$> x = .ok b ↔ ∃ a, x = .ok a ∧ f a = b := by
  cases x with
  | error e => exact ⟨nofun, fun ⟨_, h, _⟩ => nomatch h⟩
  | ok a => exact ⟨fun h => ⟨a, rfl, Except.ok.inj h⟩, fun ⟨_, h, hb⟩ => by cases h; exact congrArg _ hb⟩

theorem mapError_eq_ok {ε' : Type} {x : Except ε α} {f : ε → ε'} {a : α} : x.mapError f = .ok a ↔ x = .ok a := by
  cases x with
  | error e => exact ⟨nofun, nofun⟩
  | ok b => exact ⟨fun h => congrArg _ (Except.ok.inj h), fun h => congrArg _ (Except.ok.inj h)⟩

/-- A computation that is given up first under a condition. -/
theorem guarded_eq_ok {p : Prop} [Decidable p] {e : ε} {f : α → Except ε β} {x : Except ε β} {b : β} :
    (if p then throw e >>= f else x) = .ok b ↔ ¬p ∧ x = .ok b := by
  split
  · next h =>
    constructor
    · intro he
      cases he
    · intro hn
      exact absurd h hn.1
  · next h => exact ⟨fun hx => ⟨h, hx⟩, And.right⟩

end Except

namespace Option

variable {α β : Type}

theorem isSome_mapM {f : α → Option β} {l : List α} : (l.mapM f).isSome ↔ ∀ a ∈ l, (f a).isSome := by
  induction l with
  | nil => simp
  | cons a l ih =>
    rw [List.mapM_cons, List.forall_mem_cons, ← ih]
    cases f a with
    | none => simp
    | some b => cases l.mapM f <;> simp

theorem isSome_bind_some {x : Option α} {f : α → β} : (x.bind fun a => some (f a)).isSome ↔ x.isSome := by
  cases x <;> simp

theorem mapM_eq_some {f : α → Option β} {g : α → β} {l : List α} (h : ∀ a ∈ l, f a = some (g a)) :
    l.mapM f = some (l.map g) := by
  induction l with
  | nil => rfl
  | cons a l ih =>
    obtain ⟨ha, hl⟩ := List.forall_mem_cons.mp h
    rw [List.mapM_cons, ha, ih hl]
    rfl

end Option

import Mathlib.Data.Set.Insert
import Mathlib.Logic.Function.Basic

/-! Reservations of resources by clients, kept as a flag for each resource. A client acquires a resource
    whose flag is down and raises the flag; it releases the resource and lowers the flag, or abandons the
    resource and leaves the flag up. At most one client holds a resource at any time, and every raised flag
    has a holder as long as nobody abandons one. -/

namespace Reservation

variable {C K : Type*}

/-- The raised flags, and what each client holds. -/
@[ext] structure State (C K : Type*) where
  flagged : Set K
  holder : C → Option K

inductive Move (C K : Type*) where
  | stay
  | acquire (c : C) (k : K)
  | release (c : C) (k : K)
  | abandon (c : C) (k : K)

/-- The move `m` leads from `s` to `t`. -/
def Moves [DecidableEq C] (s t : State C K) : Move C K → Prop
  | .stay => t = s
  | .acquire c k =>
    k ∉ s.flagged ∧ s.holder c = none ∧
      t = { flagged := insert k s.flagged, holder := Function.update s.holder c (some k) }
  | .release c k =>
    s.holder c = some k ∧ t = { flagged := s.flagged \ {k}, holder := Function.update s.holder c none }
  | .abandon c k => s.holder c = some k ∧ t = { s with holder := Function.update s.holder c none }

/-- What every move keeps: a held resource is flagged and has one holder. -/
structure Inv (s : State C K) : Prop where
  flagged : ∀ c k, s.holder c = some k → k ∈ s.flagged
  unique : ∀ c d k, s.holder c = some k → s.holder d = some k → c = d

def Served (s : State C K) : Prop := ∀ k ∈ s.flagged, ∃ c, s.holder c = some k

variable [DecidableEq C] {s t : State C K} {m : Move C K} {c d : C} {k : K}

/-- Who holds something once `d` holds nothing is another client, and held it before. -/
theorem of_update_none {f : C → Option K} (h : Function.update f d none c = some k) : c ≠ d ∧ f c = some k := by
  rw [Function.update_apply] at h
  split at h
  · cases h
  · exact ⟨‹_›, h⟩

theorem of_update_some {f : C → Option K} {l : K} (h : Function.update f d (some l) c = some k) :
    (c = d ∧ k = l) ∨ f c = some k := by
  rw [Function.update_apply] at h
  split at h
  · exact Or.inl ⟨‹_›, (Option.some.inj h).symm⟩
  · exact Or.inr h

theorem Inv.moves (h : Inv s) (hm : Moves s t m) : Inv t := by
  cases m with
  | stay => exact (show t = s from hm) ▸ h
  | acquire d l =>
    obtain ⟨hl, -, rfl⟩ := hm
    refine ⟨fun c k hc => ?_, fun c c' k hc hc' => ?_⟩
    · rcases of_update_some hc with ⟨-, rfl⟩ | hc
      · exact Or.inl rfl
      · exact Or.inr (h.flagged c k hc)
    · rcases of_update_some hc with ⟨rfl, rfl⟩ | hs <;> rcases of_update_some hc' with ⟨rfl, he⟩ | hs'
      · rfl
      · exact absurd (h.flagged c' k hs') hl
      · exact absurd (h.flagged c k hs) (he ▸ hl)
      · exact h.unique c c' k hs hs'
  | release d l =>
    obtain ⟨hd, rfl⟩ := hm
    refine ⟨fun c k hc => ?_, fun c c' k hc hc' => ?_⟩
    · obtain ⟨hne, hs⟩ := of_update_none hc
      refine ⟨h.flagged c k hs, fun he => hne ?_⟩
      obtain rfl : k = l := he
      exact h.unique c d k hs hd
    · exact h.unique c c' k (of_update_none hc).2 (of_update_none hc').2
  | abandon d l =>
    obtain ⟨-, rfl⟩ := hm
    exact ⟨fun c k hc => h.flagged c k (of_update_none hc).2,
      fun c c' k hc hc' => h.unique c c' k (of_update_none hc).2 (of_update_none hc').2⟩

/-- An abandoned resource stays flagged without a holder. -/
theorem Inv.not_served (h : Inv s) (hm : Moves s t (.abandon c k)) : ¬Served t := by
  obtain ⟨hc, rfl⟩ := hm
  intro hserved
  obtain ⟨d, hd⟩ := hserved k (h.flagged c k hc)
  obtain ⟨hne, hd⟩ := of_update_none hd
  exact hne (h.unique d c k hd hc)

/-- No other move leaves a resource flagged without a holder. -/
theorem Inv.served_iff (h : Inv s) (hs : Served s) (hm : Moves s t m) :
    Served t ↔ ∀ c k, m ≠ .abandon c k := by
  cases m with
  | stay => exact ⟨fun _ => nofun, fun _ => (show t = s from hm) ▸ hs⟩
  | acquire d l =>
    obtain ⟨hl, hd, rfl⟩ := hm
    refine ⟨fun _ => nofun, fun _ k hk => ?_⟩
    rcases hk with rfl | hk
    · exact ⟨d, Function.update_self _ _ _⟩
    · obtain ⟨c, hc⟩ := hs k hk
      have hne : c ≠ d := by
        intro he
        subst he
        rw [hd] at hc
        cases hc
      exact ⟨c, (Function.update_of_ne hne _ _).trans hc⟩
  | release d l =>
    obtain ⟨hd, rfl⟩ := hm
    refine ⟨fun _ => nofun, fun _ k hk => ?_⟩
    obtain ⟨c, hc⟩ := hs k hk.1
    have hne : c ≠ d := by
      intro he
      subst he
      exact hk.2 (Option.some.inj (hc.symm.trans hd))
    exact ⟨c, (Function.update_of_ne hne _ _).trans hc⟩
  | abandon d l => exact ⟨fun hserved => absurd hserved (h.not_served hm), fun hne => absurd rfl (hne d l)⟩

/-- A flag falls only when its holder releases it. -/
theorem Moves.lowered (hm : Moves s t m) (hk : k ∈ s.flagged) (hk' : k ∉ t.flagged) :
    ∃ c, m = .release c k ∧ s.holder c = some k := by
  cases m with
  | stay => exact absurd ((show t = s from hm) ▸ hk) hk'
  | acquire d l =>
    obtain ⟨-, -, rfl⟩ := hm
    exact absurd (Or.inr hk) hk'
  | release d l =>
    obtain ⟨hd, rfl⟩ := hm
    obtain rfl : k = l := by
      by_contra hne
      exact hk' ⟨hk, hne⟩
    exact ⟨d, rfl, hd⟩
  | abandon d l =>
    obtain ⟨-, rfl⟩ := hm
    exact absurd hk hk'

theorem Moves.obtained (hm : Moves s t m) (hc : t.holder c = some k) : s.holder c = some k ∨ m = .acquire c k := by
  cases m with
  | stay => exact Or.inl ((show t = s from hm) ▸ hc)
  | acquire d l =>
    obtain ⟨-, -, rfl⟩ := hm
    rcases of_update_some hc with ⟨rfl, rfl⟩ | hc
    · exact Or.inr rfl
    · exact Or.inl hc
  | release d l =>
    obtain ⟨-, rfl⟩ := hm
    exact Or.inl (of_update_none hc).2
  | abandon d l =>
    obtain ⟨-, rfl⟩ := hm
    exact Or.inl (of_update_none hc).2

/-- A flag rises only when a client acquires it. -/
theorem Moves.raised (hm : Moves s t m) (hk : k ∉ s.flagged) (hk' : k ∈ t.flagged) : ∃ c, m = .acquire c k := by
  cases m with
  | stay => exact absurd ((show t = s from hm) ▸ hk') hk
  | acquire d l =>
    obtain ⟨-, -, rfl⟩ := hm
    rcases hk' with rfl | hk'
    · exact ⟨d, rfl⟩
    · exact absurd hk' hk
  | release d l =>
    obtain ⟨-, rfl⟩ := hm
    exact absurd hk'.1 hk
  | abandon d l =>
    obtain ⟨-, rfl⟩ := hm
    exact absurd hk' hk

end Reservation

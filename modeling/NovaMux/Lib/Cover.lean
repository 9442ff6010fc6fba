import Mathlib.Data.Set.Prod
import Mathlib.Order.CompletePartialOrder
import Mathlib.Data.List.Pairwise
import Mathlib.Order.Interval.Set.Disjoint

/-! Exact covers of a set by a list of pieces: the pieces are disjoint and together make up the set. A box
    cut along one of its sides is exactly covered by exact covers of its two parts. -/

namespace Cover

open Set

variable {α β : Type*} {A B : Set α} {L M : List (Set α)}

/-- The pieces `L` cover `A` exactly: each point of `A` is in one piece, and no piece leaves `A`. -/
structure Exact (A : Set α) (L : List (Set α)) : Prop where
  disjoint : L.Pairwise Disjoint
  covers : ∀ x, x ∈ A ↔ ∃ B ∈ L, x ∈ B

namespace Exact

theorem single (A : Set α) : Exact A [A] where
  disjoint := List.pairwise_singleton _ _
  covers x := by simp

theorem subset (h : Exact A L) (hB : B ∈ L) : B ⊆ A := fun x hx => (h.covers x).mpr ⟨B, hB, hx⟩

theorem append (hA : Exact A L) (hB : Exact B M) (hd : Disjoint A B) : Exact (A ∪ B) (L ++ M) where
  disjoint := by
    refine List.pairwise_append.mpr ⟨hA.disjoint, hB.disjoint, fun C hC D hD => ?_⟩
    exact hd.mono (hA.subset hC) (hB.subset hD)
  covers x := by
    simp only [mem_union, List.mem_append, or_and_right, exists_or]
    exact or_congr (hA.covers x) (hB.covers x)

theorem congr (h : Exact A L) (hAB : A = B) (hLM : L = M) : Exact B M := hAB ▸ hLM ▸ h

end Exact

/-- A test that holds of at most one of any two elements holds of at most one element. -/
theorem countP_le_one {ι : Type*} {p : ι → Bool} {l : List ι}
    (h : l.Pairwise fun i j => ¬(p i = true ∧ p j = true)) : l.countP p ≤ 1 := by
  induction l with
  | nil => simp
  | cons i l ih =>
    obtain ⟨hi, hl⟩ := List.pairwise_cons.mp h
    by_cases hp : p i = true
    · have hnone : l.countP p = 0 := List.countP_eq_zero.mpr fun j hj hpj => hi j hj ⟨hp, hpj⟩
      rw [List.countP_cons_of_pos hp, hnone]
    · rw [List.countP_cons_of_neg hp]
      exact ih hl

/-- The number of pieces a point is in, for pieces named by the elements of a list. -/
theorem Exact.countP_eq_ite {ι : Type*} {pieces : List ι} {f : ι → Set α} {p : ι → Bool} {x : α}
    [Decidable (x ∈ A)] (h : Exact A (pieces.map f)) (hp : ∀ i ∈ pieces, p i = true ↔ x ∈ f i) :
    pieces.countP p = if x ∈ A then 1 else 0 := by
  have hle : pieces.countP p ≤ 1 := by
    refine countP_le_one ((List.pairwise_map.mp h.disjoint).imp_of_mem fun hi hj hd hpij => ?_)
    exact Set.disjoint_left.mp hd ((hp _ hi).mp hpij.1) ((hp _ hj).mp hpij.2)
  have hpos : 0 < pieces.countP p ↔ x ∈ A := by
    rw [List.countP_pos_iff, h.covers x]
    simp only [List.mem_map, exists_exists_and_eq_and]
    exact exists_congr fun i => and_congr_right fun hi => hp i hi
  split
  · have := hpos.mpr ‹_›
    omega
  · have : ¬0 < pieces.countP p := fun h => ‹x ∉ A› (hpos.mp h)
    omega

/-! ### Boxes -/

section Boxes
variable [LinearOrder α] {a m b : α} {S : Set β} {L M : List (Set (α × β))} {L' M' : List (Set (β × α))}

/-- A box cut at `m` along its first side. -/
theorem Exact.cut_fst (h₁ : a ≤ m) (h₂ : m ≤ b) (hL : Exact (Ico a m ×ˢ S) L) (hM : Exact (Ico m b ×ˢ S) M) :
    Exact (Ico a b ×ˢ S) (L ++ M) := by
  have hd : Disjoint (Ico a m ×ˢ S) (Ico m b ×ˢ S) := (Ico_disjoint_Ico_same).set_prod_left S S
  exact (hL.append hM hd).congr (by rw [← union_prod, Ico_union_Ico_eq_Ico h₁ h₂]) rfl

theorem Exact.cut_snd (h₁ : a ≤ m) (h₂ : m ≤ b) (hL : Exact (S ×ˢ Ico a m) L') (hM : Exact (S ×ˢ Ico m b) M') :
    Exact (S ×ˢ Ico a b) (L' ++ M') := by
  have hd : Disjoint (S ×ˢ Ico a m) (S ×ˢ Ico m b) := (Ico_disjoint_Ico_same).set_prod_right S S
  exact (hL.append hM hd).congr (by rw [← prod_union, Ico_union_Ico_eq_Ico h₁ h₂]) rfl

end Boxes

end Cover

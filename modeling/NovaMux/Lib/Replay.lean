import Mathlib.Data.List.Perm.Basic
import Mathlib.Data.List.Nodup

/-! Folds over reordered lists. A fold gives the same result on a reordering of its list when every two actions that
    have changed places commute, and the same up to a relation when the actions that are left out keep it. -/

namespace Replay

variable {A S : Type*} {step : S → A → S} {s t : S} {a b : A} {as bs : List A}

/-- `a` stands before `b`. -/
abbrev Precedes (as : List A) (a b : A) : Prop := [a, b].Sublist as

theorem Precedes.map {B : Type*} (f : A → B) (h : Precedes as a b) : Precedes (as.map f) (f a) (f b) :=
  List.Sublist.map f h

/-- In a list without repetitions no action stands on both sides of another. -/
theorem not_precedes (hn : as.Nodup) (h : Precedes as a b) : ¬Precedes as b a := by
  intro h'
  induction as with
  | nil => cases h
  | cons c as ih =>
    obtain ⟨hc, hn⟩ := List.nodup_cons.mp hn
    cases h with
    | cons _ h =>
      cases h' with
      | cons _ h' => exact ih hn h h'
      | cons_cons _ h' => exact hc (h.subset (List.mem_cons_of_mem _ List.mem_cons_self))
    | cons_cons _ h =>
      cases h' with
      | cons _ h' => exact hc (h'.subset (List.mem_cons_of_mem _ List.mem_cons_self))
      | cons_cons _ h' => exact hc (h.subset List.mem_cons_self)

/-- An action moves to the front of a list past actions that it commutes with. -/
theorem foldl_front (h : ∀ b ∈ as, ∀ s, step (step s a) b = step (step s b) a) (s : S) :
    (as ++ a :: bs).foldl step s = (a :: as ++ bs).foldl step s := by
  induction as generalizing s with
  | nil => rfl
  | cons b as ih =>
    obtain ⟨hb, has⟩ := List.forall_mem_cons.mp h
    calc (b :: as ++ a :: bs).foldl step s = (as ++ a :: bs).foldl step (step s b) := rfl
      _ = (as ++ bs).foldl step (step (step s b) a) := ih has _
      _ = (as ++ bs).foldl step (step (step s a) b) := by rw [hb]
      _ = (a :: (b :: as) ++ bs).foldl step s := rfl

/-- The fold of a reordering, when the actions that have changed places commute. -/
theorem foldl_perm (hp : as.Perm bs)
    (h : ∀ a b, Precedes as a b → Precedes bs b a → ∀ s, step (step s a) b = step (step s b) a) (s : S) :
    as.foldl step s = bs.foldl step s := by
  induction as generalizing bs s with
  | nil => rw [hp.nil_eq]
  | cons a as ih =>
    obtain ⟨before, after, rfl⟩ := List.append_of_mem (hp.subset List.mem_cons_self)
    have hrest : as.Perm (before ++ after) := (hp.trans List.perm_middle).cons_inv
    have hfront : ∀ b ∈ before, ∀ s, step (step s a) b = step (step s b) a := by
      intro b hb
      refine h a b ?_ ?_
      · have hin : b ∈ as := hrest.symm.subset (List.mem_append_left _ hb)
        exact (List.singleton_sublist.mpr hin).cons_cons a
      · exact (List.singleton_sublist.mpr hb).append (List.singleton_sublist.mpr List.mem_cons_self)
    have hsub : (before ++ after).Sublist (before ++ a :: after) :=
      (List.Sublist.refl before).append (List.sublist_cons_self a after)
    calc (a :: as).foldl step s = (before ++ after).foldl step (step s a) :=
          ih hrest (fun b c hbc hcb => h b c (hbc.trans (List.sublist_cons_self a as)) (hcb.trans hsub)) _
      _ = (before ++ a :: after).foldl step s := (foldl_front hfront s).symm

/-- Actions that keep a relation on their own may be left out. -/
theorem foldl_filter {R : S → S → Prop} {keep : A → Bool}
    (hstep : ∀ s t a, R s t → keep a = true → R (step s a) (step t a))
    (hdrop : ∀ s t a, R s t → keep a = false → R (step s a) t) (hR : R s t) :
    R (as.foldl step s) ((as.filter keep).foldl step t) := by
  induction as generalizing s t with
  | nil => exact hR
  | cons a as ih =>
    cases hk : keep a with
    | true =>
      rw [List.filter_cons_of_pos hk]
      exact ih (hstep s t a hR hk)
    | false =>
      rw [List.filter_cons_of_neg (by simp [hk])]
      exact ih (hdrop s t a hR hk)

end Replay

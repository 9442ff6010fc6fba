import Mathlib.Data.List.Basic
import Mathlib.Tactic.Push
import Mathlib.Tactic.Ring

/-! Runs of a machine whose actions are partial: `step s a` is the state after `a`, or `none` when `a`
    is not enabled in `s`. An invariant of the steps is an invariant of the runs, and a property that
    each step keeps exactly under a condition holds all along a run exactly when each step of the run
    meets the condition. -/

namespace Machine

variable {S A : Type*}

/-- The state after the actions `as` in order, or `none` when one of them is not enabled. -/
def run (step : S → A → Option S) (s : S) : List A → Option S
  | [] => some s
  | a :: as => (step s a).bind fun t => run step t as

variable {step : S → A → Option S} {s t u : S} {a : A} {as bs : List A}

@[simp] theorem run_nil : run step s [] = some s := rfl

theorem run_cons : run step s (a :: as) = (step s a).bind fun t => run step t as := rfl

theorem run_cons_eq_some : run step s (a :: as) = some u ↔ ∃ t, step s a = some t ∧ run step t as = some u :=
  Option.bind_eq_some_iff

@[simp] theorem run_singleton : run step s [a] = step s a := by
  simp [run_cons]

theorem run_append : run step s (as ++ bs) = (run step s as).bind fun t => run step t bs := by
  induction as generalizing s with
  | nil => rfl
  | cons a as ih => simp only [List.cons_append, run_cons, Option.bind_assoc, ih]

theorem run_append_eq_some :
    run step s (as ++ bs) = some u ↔ ∃ t, run step s as = some t ∧ run step t bs = some u := by
  rw [run_append]
  exact Option.bind_eq_some_iff

/-- What every step keeps, every run keeps. -/
theorem run_invariant {I : S → Prop} (keep : ∀ s a t, I s → step s a = some t → I t) (h0 : I s)
    (hr : run step s as = some t) : I t := by
  induction as generalizing s with
  | nil => exact Option.some.inj hr ▸ h0
  | cons a as ih =>
    obtain ⟨u, hs, hr⟩ := run_cons_eq_some.mp hr
    exact ih (keep s a u h0 hs) hr

/-- An invariant may depend on the actions so far. -/
theorem run_past {R : List A → S → Prop} (keep : ∀ past s a t, R past s → step s a = some t → R (past ++ [a]) t)
    (h0 : R [] s) (hr : run step s as = some t) : R as t := by
  have general : ∀ (as past : List A) (s : S), R past s → run step s as = some t → R (past ++ as) t := by
    intro as
    induction as with
    | nil =>
      intro past s h hr
      cases hr
      exact (List.append_nil past).symm ▸ h
    | cons a as ih =>
      intro past s h hr
      obtain ⟨u, hs, hr⟩ := run_cons_eq_some.mp hr
      have hlast := ih (past ++ [a]) u (keep past s a u h hs) hr
      rwa [List.append_assoc] at hlast
  exact general as [] s h0 hr

/-! ### Properties of whole runs -/

/-- `P` holds in every state that the run of `as` from `s` goes through, both ends included. -/
def Throughout (step : S → A → Option S) (P : S → Prop) (s : S) (as : List A) : Prop :=
  ∀ pre post t, as = pre ++ post → run step s pre = some t → P t

/-- Every step of the run of `as` from `s` meets `C`, read on the state before it and its action. -/
def Along (step : S → A → Option S) (C : S → A → Prop) (s : S) (as : List A) : Prop :=
  ∀ pre a post t, as = pre ++ a :: post → run step s pre = some t → C t a

variable {P : S → Prop} {C : S → A → Prop}

@[simp] theorem throughout_nil : Throughout step P s [] ↔ P s := by
  refine ⟨fun h => h [] [] s rfl rfl, fun h pre post t he hr => ?_⟩
  obtain ⟨rfl, rfl⟩ := List.append_eq_nil_iff.mp he.symm
  exact Option.some.inj hr ▸ h

theorem throughout_cons :
    Throughout step P s (a :: as) ↔ P s ∧ ∀ t, step s a = some t → Throughout step P t as := by
  refine ⟨fun h => ?_, fun h pre post u he hr => ?_⟩
  · refine ⟨h [] (a :: as) s rfl rfl, fun t hs pre post u he hr => ?_⟩
    exact h (a :: pre) post u (by rw [he, List.cons_append]) (run_cons_eq_some.mpr ⟨t, hs, hr⟩)
  · obtain ⟨h0, h⟩ := h
    cases pre with
    | nil => exact Option.some.inj hr ▸ h0
    | cons b pre =>
      obtain ⟨rfl, rfl⟩ := List.cons.inj he
      obtain ⟨t, hs, hr⟩ := run_cons_eq_some.mp hr
      exact h t hs pre post u rfl hr

@[simp] theorem along_nil : Along step C s [] := by
  intro pre a post t he
  simp at he

theorem along_cons : Along step C s (a :: as) ↔ C s a ∧ ∀ t, step s a = some t → Along step C t as := by
  refine ⟨fun h => ?_, fun h pre b post u he hr => ?_⟩
  · refine ⟨h [] a as s rfl rfl, fun t hs pre b post u he hr => ?_⟩
    exact h (a :: pre) b post u (by rw [he, List.cons_append]) (run_cons_eq_some.mpr ⟨t, hs, hr⟩)
  · obtain ⟨h0, h⟩ := h
    cases pre with
    | nil =>
      obtain ⟨rfl, rfl⟩ := List.cons.inj he
      exact Option.some.inj hr ▸ h0
    | cons c pre =>
      obtain ⟨rfl, rfl⟩ := List.cons.inj he
      obtain ⟨t, hs, hr⟩ := run_cons_eq_some.mp hr
      exact h t hs pre b post u rfl hr

theorem Along.of_forall (h : ∀ t, ∀ a ∈ as, C t a) : Along step C s as := fun _ a _ t he _ => h t a (by simp [he])

theorem Along.append (h : Along step C s (as ++ bs)) (hr : run step s as = some t) : Along step C s as ∧ Along step C t bs := by
  refine ⟨fun pre a post u he hu => h pre a (post ++ bs) u ?_ hu, fun pre a post u he hu => h (as ++ pre) a post u ?_ ?_⟩
  · rw [he, List.append_assoc]
    rfl
  · rw [he, List.append_assoc]
  · exact run_append_eq_some.mpr ⟨t, hr, hu⟩

/-- In a run every action is taken. -/
theorem Throughout.along (h : Throughout step P s as) (hr : run step s as = some u)
    (hC : ∀ s a t, P s → step s a = some t → C s a) : Along step C s as := by
  intro pre a post t he ht
  rw [he] at hr
  obtain ⟨t', ht', hrest⟩ := run_append_eq_some.mp hr
  obtain ⟨v, hv, -⟩ := run_cons_eq_some.mp hrest
  rw [ht, Option.some.injEq] at ht'
  exact hC t a v (h pre (a :: post) t he ht) (ht' ▸ hv)

theorem Throughout.last (h : Throughout step P s as) (hr : run step s as = some t) : P t :=
  h as [] t (List.append_nil as).symm hr

/-- What every step from a `P` state keeps, a run through `P` states keeps. -/
theorem Throughout.run_invariant {I : S → Prop} (hP : Throughout step P s as)
    (keep : ∀ s a t, P s → I s → step s a = some t → I t) (h0 : I s) (hr : run step s as = some t) : I t := by
  induction as generalizing s with
  | nil => exact Option.some.inj hr ▸ h0
  | cons a as ih =>
    obtain ⟨u, hs, hr⟩ := run_cons_eq_some.mp hr
    obtain ⟨hPs, hP⟩ := throughout_cons.mp hP
    exact ih (hP u hs) (keep s a u hPs h0 hs) hr

theorem Throughout.imp {Q : S → Prop} (hPQ : ∀ s, P s → Q s) (h : Throughout step P s as) :
    Throughout step Q s as := fun pre post t he hr => hPQ t (h pre post t he hr)

/-- When, under the invariant `I`, a step from a `P` state leads to a `P` state exactly if it meets
    `C`, then `P` holds throughout a run exactly if every step of the run meets `C`. -/
theorem throughout_iff_along {I : S → Prop} (keep : ∀ s a t, I s → step s a = some t → I t)
    (exact_step : ∀ s a t, I s → P s → step s a = some t → (P t ↔ C s a)) (hI : I s) (hP : P s)
    (hr : run step s as = some u) : Throughout step P s as ↔ Along step C s as := by
  induction as generalizing s with
  | nil => simp [hP]
  | cons a as ih =>
    obtain ⟨t, hs, hr⟩ := run_cons_eq_some.mp hr
    have hstep := exact_step s a t hI hP hs
    have tail : P t → (Throughout step P t as ↔ Along step C t as) := fun hPt => ih (keep s a t hI hs) hPt hr
    simp only [throughout_cons, along_cons, hP, true_and, hs, Option.some.injEq, forall_eq']
    refine ⟨fun h => ?_, fun h => ?_⟩
    · have hPt : P t := h [] as t rfl rfl
      exact ⟨hstep.mp hPt, (tail hPt).mp h⟩
    · obtain ⟨hC, h⟩ := h
      exact (tail (hstep.mpr hC)).mpr h

/-- The same for a property `B` of steps: from a `P` state a step meets `B` exactly if it meets `C`,
    and then it leads to a `P` state. -/
theorem along_iff_along {I : S → Prop} {B : S → A → Prop} (keep : ∀ s a t, I s → step s a = some t → I t)
    (exact_step : ∀ s a t, I s → P s → step s a = some t → (B s a ↔ C s a))
    (good : ∀ s a t, I s → P s → step s a = some t → B s a → P t) (hI : I s) (hP : P s)
    (hr : run step s as = some u) : Along step B s as ↔ Along step C s as := by
  induction as generalizing s with
  | nil => simp
  | cons a as ih =>
    obtain ⟨t, hs, hr⟩ := run_cons_eq_some.mp hr
    have hstep := exact_step s a t hI hP hs
    have tail : B s a → (Along step B t as ↔ Along step C t as) := fun hB =>
      ih (keep s a t hI hs) (good s a t hI hP hs hB) hr
    simp only [along_cons, hs, Option.some.injEq, forall_eq']
    refine ⟨fun h => ?_, fun h => ?_⟩
    · obtain ⟨hB, h⟩ := h
      exact ⟨hstep.mp hB, (tail hB).mp h⟩
    · obtain ⟨hC, h⟩ := h
      exact ⟨hstep.mpr hC, (tail (hstep.mpr hC)).mpr h⟩

/-- A run from a `P` state stays in `P` states when each of its steps, if it meets `B`, keeps `P`. -/
theorem Along.throughout {I : S → Prop} {B : S → A → Prop} (keep : ∀ s a t, I s → step s a = some t → I t)
    (good : ∀ s a t, I s → P s → step s a = some t → B s a → P t) (hI : I s) (hP : P s)
    (h : Along step B s as) : Throughout step P s as := by
  induction as generalizing s with
  | nil => exact throughout_nil.mpr hP
  | cons a as ih =>
    obtain ⟨hB, h⟩ := along_cons.mp h
    refine throughout_cons.mpr ⟨hP, fun t hs => ?_⟩
    exact ih (keep s a t hI hs) (good s a t hI hP hs hB) (h t hs)

/-! ### Two machines side by side -/

section

variable {T U : Type*} {R : S → T → Prop}

theorem rel_bind {S' T' : Type*} {Q : S' → T' → Prop} {x : Option S} {y : Option T} {f : S → Option S'}
    {g : T → Option T'} (h : Option.Rel R x y) (hfg : ∀ s t, x = some s → y = some t → R s t → Option.Rel Q (f s) (g t)) :
    Option.Rel Q (x.bind f) (y.bind g) := by
  cases h with
  | none => exact .none
  | some hR => exact hfg _ _ rfl rfl hR

theorem rel_imp {Q : S → T → Prop} {x : Option S} {y : Option T} (h : Option.Rel R x y) (hRQ : ∀ s t, R s t → Q s t) :
    Option.Rel Q x y := by
  cases h with
  | none => exact .none
  | some hR => exact .some (hRQ _ _ hR)

theorem rel_some {x : Option S} {y : Option T} {s : S} (h : Option.Rel R x y) (hx : x = some s) :
    ∃ t, y = some t ∧ R s t := by
  subst hx
  cases h with
  | some hR => exact ⟨_, rfl, hR⟩

theorem rel_some_right {x : Option S} {y : Option T} {t : T} (h : Option.Rel R x y) (hy : y = some t) :
    ∃ s, x = some s ∧ R s t := by
  subst hy
  cases h with
  | some hR => exact ⟨_, rfl, hR⟩

theorem rel_none_right {x : Option S} {y : Option T} (h : Option.Rel R x y) (hy : y = none) : x = none := by
  subst hy
  cases h
  rfl

/-- The first of two computations goes on, and still ends with the second. -/
theorem rel_bind_left {S' : Type*} {Q : S' → T → Prop} {x : Option S} {y : Option T} {f : S → Option S'}
    (h : Option.Rel R x y) (hf : ∀ s t, y = some t → R s t → Option.Rel Q (f s) (some t)) :
    Option.Rel Q (x.bind f) y := by
  cases h with
  | none => exact .none
  | some hR => exact hf _ _ rfl hR

/-- Two machines whose steps, from related states and through `P` states of the first, are both disabled or
    lead to related states again run alike. -/
theorem run_rel {step' : T → A → Option T} {K : A → Prop}
    (sim : ∀ s t a, K a → R s t → P s → (∀ s', step s a = some s' → P s') → Option.Rel R (step s a) (step' t a))
    {t : T} (hR : R s t) (hP : Throughout step P s as) (hK : ∀ a ∈ as, K a) :
    Option.Rel R (run step s as) (run step' t as) := by
  induction as generalizing s t with
  | nil => exact .some hR
  | cons a as ih =>
    obtain ⟨hPs, htail⟩ := throughout_cons.mp hP
    obtain ⟨hKa, hKs⟩ := List.forall_mem_cons.mp hK
    have hstep := sim s t a hKa hR hPs fun s' hs => htail s' hs [] as s' rfl rfl
    exact rel_bind hstep fun s' t' hs _ hR' => ih hR' (htail s' hs) hKs

/-- What follows the same state is related. -/
theorem rel_of_both {Q : S → U → Prop} {Q' : T → U → Prop} {x : Option S} {y : Option T} {z : Option U}
    (hx : Option.Rel Q x z) (hy : Option.Rel Q' y z) : Option.Rel (fun s t => ∃ u, Q s u ∧ Q' t u) x y := by
  cases hx with
  | none =>
    cases hy
    exact .none
  | some hQ =>
    cases hy with
    | some hQ' => exact .some ⟨_, hQ, hQ'⟩

theorem Throughout.of_prefix {pre : List A} (h : Throughout step P s as) (hp : pre <+: as) :
    Throughout step P s pre := by
  obtain ⟨post, rfl⟩ := hp
  intro first rest t he hr
  exact h first (rest ++ post) t (by rw [he, List.append_assoc]) hr

end

/-! ### Translations -/

section

variable {T I B : Type*}

/-- Actions in the words of another machine, with a memory `i` of the actions so far. -/
def translate (next : I → A → I) (tr : I → A → B) : I → List A → List B
  | _, [] => []
  | i, a :: as => tr i a :: translate next tr (next i a) as

/-- When a step does to the view `f` of a state what the translated action does, then so does a run. A step that the
    memory `g` does not follow has to be the last one. -/
theorem map_run_translate {step' : T → B → Option T} {f : S → T} {g : S → I} {next : I → A → I} {tr : I → A → B}
    {K : A → Prop} (keep : ∀ s a t, K a → P s → step s a = some t → P t)
    (sim : ∀ s a, K a → P s → (step s a).map f = step' (f s) (tr (g s) a))
    (follow : ∀ s a t, K a → P s → step s a = some t → g t = next (g s) a ∨ ∀ b, step' (f t) b = none)
    (hP : P s) (hK : ∀ a ∈ as, K a) : (run step s as).map f = run step' (f s) (translate next tr (g s) as) := by
  induction as generalizing s with
  | nil => rfl
  | cons a as ih =>
    obtain ⟨hKa, hKs⟩ := List.forall_mem_cons.mp hK
    have hstep := sim s a hKa hP
    rw [translate, run_cons, run_cons, ← hstep]
    cases ht : step s a with
    | none => rfl
    | some t =>
      have hPt := keep s a t hKa hP ht
      have htail := ih hPt hKs
      simp only [Option.map_some, Option.bind_some]
      rcases follow s a t hKa hP ht with hmemory | hstuck
      · rw [← hmemory]
        exact htail
      · cases as with
        | nil => rfl
        | cons b bs =>
          have hend : step t b = none := Option.map_eq_none_iff.mp ((sim t b (hKs b List.mem_cons_self) hPt).trans (hstuck _))
          rw [translate, run_cons, run_cons, hend, hstuck]
          rfl

end

/-! ### Histories -/

section

variable {T B : Type*}

/-- What the steps of a run are to another machine, in order. -/
def history (step : S → A → Option S) (label : S → A → List B) : S → List A → List B
  | _, [] => []
  | s, a :: as => label s a ++ (step s a).elim [] fun t => history step label t as

variable {step' : T → B → Option T} {label : S → A → List B}

theorem history_cons (hs : step s a = some t) : history step label s (a :: as) = label s a ++ history step label t as := by
  rw [history, hs]
  rfl

theorem history_append (hr : run step s as = some t) :
    history step label s (as ++ bs) = history step label s as ++ history step label t bs := by
  induction as generalizing s with
  | nil =>
    cases hr
    rfl
  | cons a as ih =>
    obtain ⟨u, hs, hr⟩ := run_cons_eq_some.mp hr
    rw [List.cons_append, history_cons hs, history_cons hs, ih hr, List.append_assoc]

/-- When each step is simulated by what it is to the other machine, a run is simulated by its history. The relation may
    depend on the actions so far. -/
theorem run_history {R : List A → S → T → Prop}
    (sim : ∀ past s t a s', R past s t → step s a = some s' →
      ∃ t', run step' t (label s a) = some t' ∧ R (past ++ [a]) s' t')
    {s' : S} {t : T} (h0 : R [] s t) (hr : run step s as = some s') :
    ∃ t', run step' t (history step label s as) = some t' ∧ R as s' t' := by
  refine (run_past (R := fun past u => run step s past = some u ∧
    ∃ v, run step' t (history step label s past) = some v ∧ R past u v) ?_ ⟨rfl, t, rfl, h0⟩ hr).2
  rintro past u a w ⟨hpast, v, hv, hR⟩ hw
  obtain ⟨v', hv', hR'⟩ := sim past u v a w hR hw
  refine ⟨run_append_eq_some.mpr ⟨u, hpast, (run_singleton).trans hw⟩, v', ?_, hR'⟩
  rw [history_append hpast, history_cons hw, history, List.append_nil]
  exact run_append_eq_some.mpr ⟨v, hv, hv'⟩

end

/-! ### Potentials -/

section

variable {Φ : S → Nat}

/-- A run has paid for its steps when each step pays for itself. -/
theorem run_potential {cost gain : A → Nat} (pay : ∀ s a t, step s a = some t → cost a + Φ t ≤ Φ s + gain a)
    (hr : run step s as = some t) : (as.map cost).sum + Φ t ≤ Φ s + (as.map gain).sum := by
  induction as generalizing s with
  | nil =>
    cases hr
    simp
  | cons a as ih =>
    obtain ⟨u, hs, hr⟩ := run_cons_eq_some.mp hr
    have hfirst := pay s a u hs
    have hrest := ih hr
    simp only [List.map_cons, List.sum_cons]
    omega

/-- Steps of a kind that lower a potential lead to a state that has no such step. -/
theorem exists_run_stuck {I : S → Prop} {K : A → Prop}
    (lower : ∀ s a t, I s → K a → step s a = some t → I t ∧ Φ t < Φ s) (h0 : I s) :
    ∃ as t, (∀ a ∈ as, K a) ∧ run step s as = some t ∧ ∀ a, K a → step t a = none := by
  obtain ⟨n, hn⟩ : ∃ n, Φ s ≤ n := ⟨_, le_rfl⟩
  induction n generalizing s with
  | zero =>
    refine ⟨[], s, by simp, rfl, fun a ha => ?_⟩
    cases hs : step s a with
    | none => rfl
    | some t =>
      have hlow := (lower s a t h0 ha hs).2
      omega
  | succ n ih =>
    by_cases hstuck : ∀ a, K a → step s a = none
    · exact ⟨[], s, by simp, rfl, hstuck⟩
    · push Not at hstuck
      obtain ⟨a, ha, hs⟩ := hstuck
      obtain ⟨u, hs⟩ := Option.ne_none_iff_exists'.mp hs
      obtain ⟨hu, hlow⟩ := lower s a u h0 ha hs
      obtain ⟨as, t, hkind, hr, hstuck⟩ := ih hu (by omega)
      exact ⟨a :: as, t, List.forall_mem_cons.mpr ⟨ha, hkind⟩, run_cons_eq_some.mpr ⟨u, hs, hr⟩, hstuck⟩

end

end Machine

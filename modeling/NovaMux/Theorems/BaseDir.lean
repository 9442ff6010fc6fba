import NovaMux.Lib.Machine
import NovaMux.Runtime.BaseDir

/-! A runtime directory that has passed is private for good. Whatever other users do before, between and after the steps
    of the processes that look for it, one of them goes on only with a real directory that lets nobody else in; and then
    no one can change it any more. -/

namespace NovaMux

open Machine

/-- A real directory of the user that lets nobody else in. -/
structure DirEntry.Private (euid : Nat) (entry : DirEntry) : Prop where
  kind : entry.kind = .directory
  uid : entry.uid = euid
  closed : ∀ other, other ≠ euid → entry.admits other = false

theorem validateRuntimeMetadata_ok {euid : Nat} {entry : DirEntry} :
    validateRuntimeMetadata euid entry = .ok () ↔ entry.Private euid := by
  unfold validateRuntimeMetadata
  constructor
  · intro h
    split at h
    · cases h
    · next hkind =>
      split at h
      · cases h
      · next huid =>
        split at h
        · cases h
        · next hmode =>
          obtain rfl := not_not.mp huid
          exact ⟨not_not.mp hkind, rfl, fun other hne => by simpa [DirEntry.admits, hne] using hmode⟩
  · rintro ⟨hkind, huid, hclosed⟩
    have hmode : entry.mode &&& 0o077 = 0 := by
      have hother := hclosed (euid + 1) (by omega)
      simpa [DirEntry.admits, huid] using hother
    simp [hkind, huid, hmode]

namespace BaseDir

variable {n : Nat} {s t : BaseDir n} {a : Action n} {i j : Fin n}

theorem private_new (euid ino : Nat) (umask : UInt32) :
    DirEntry.Private euid { ino, kind := .directory, uid := euid, mode := 0o700 &&& ~~~umask } := by
  have hmode : (0o700 &&& ~~~umask) &&& 0o077 = (0 : UInt32) := by
    rw [UInt32.and_comm 0o700, UInt32.and_assoc]
    exact UInt32.and_zero
  refine ⟨rfl, rfl, fun other hne => ?_⟩
  simp [DirEntry.admits, hne, hmode]

@[simp] theorem move_entry (s : BaseDir n) (i : Fin n) (ensuring : Ensuring) : (s.move i ensuring).entry = s.entry := rfl

@[simp] theorem move_euid (s : BaseDir n) (i : Fin n) (ensuring : Ensuring) : (s.move i ensuring).euid = s.euid := rfl

theorem move_process (s : BaseDir n) (i j : Fin n) (ensuring : Ensuring) :
    (s.move i ensuring).process j = if j = i then ensuring else s.process j := by
  by_cases h : j = i
  · subst h
    simp [move]
  · simp [move, h]

/-- What an action can do: a process goes on, on the object as it is; it has made the directory; or another user acts. -/
inductive Steps (s : BaseDir n) : Action n → BaseDir n → Prop where
  | absent {i : Fin n} (hi : s.process i = .looking) (he : s.entry = none) : Steps s (.lstat i true) (s.move i .making)
  | vanished {i : Fin n} (hi : s.process i = .checking) (he : s.entry = none) :
    Steps s (.lstat i true) (s.move i (.refused (.io .notFound)))
  | accepted {i : Fin n} {entry : DirEntry} (hi : s.process i = .looking ∨ s.process i = .checking)
      (he : s.entry = some entry) (hp : entry.Private s.euid) : Steps s (.lstat i true) (s.move i .ready)
  | rejected {i : Fin n} {entry : DirEntry} {error : TransportError} (he : s.entry = some entry)
      (hp : ¬entry.Private s.euid) : Steps s (.lstat i true) (s.move i (.refused error))
  | failed {i : Fin n} {a : Action n} (ha : a = .lstat i false ∨ ∃ umask, a = .mkdir i false umask) :
    Steps s a (s.move i (.refused (.io .other)))
  | made {i : Fin n} {umask : UInt32} (hi : s.process i = .making) (he : s.entry = none) :
    Steps s (.mkdir i true umask) ((s.move i .checking).place .directory s.euid (0o700 &&& ~~~umask))
  | found {i : Fin n} {umask : UInt32} {entry : DirEntry} (hi : s.process i = .making) (he : s.entry = some entry) :
    Steps s (.mkdir i true umask) (s.move i .checking)
  | foreign {a : Action n} {next : Option DirEntry} {inodes : Nat}
    (ha : (∀ i ok, a ≠ .lstat i ok) ∧ ∀ i ok umask, a ≠ .mkdir i ok umask)
    (hf : s.sticky = true → ∀ entry, s.entry = some entry → entry.uid ≠ s.euid) :
    Steps s a { s with entry := next, inodes }

theorem validated_steps {entry : DirEntry} (hi : s.process i = .looking ∨ s.process i = .checking) (he : s.entry = some entry) :
    Steps s (.lstat i true) (s.validated i entry) := by
  unfold validated
  split
  · next hok => exact .accepted hi he (validateRuntimeMetadata_ok.mp hok)
  · next error herror =>
    refine .rejected he fun hp => ?_
    rw [validateRuntimeMetadata_ok.mpr hp] at herror
    cases herror

theorem step_steps (h : s.step a = some t) : Steps s a t := by
  cases a with
  | lstat i ok =>
    cases ok with
    | true =>
      simp only [step] at h
      split at h
      · next hi he =>
        cases h
        exact .absent hi he
      · next hi he =>
        cases h
        exact .vanished hi he
      · next hi he =>
        cases h
        exact validated_steps (Or.inl hi) he
      · next hi he =>
        cases h
        exact validated_steps (Or.inr hi) he
      · cases h
    | false =>
      simp only [step] at h
      split at h
      all_goals
        cases h
      all_goals
        exact .failed (Or.inl rfl)
  | mkdir i ok umask =>
    cases ok with
    | true =>
      simp only [step] at h
      split at h
      · next hi he =>
        cases h
        exact .made hi he
      · next hi he =>
        cases h
        exact .found hi he
      · cases h
    | false =>
      simp only [step] at h
      split at h
      · cases h
        exact .failed (Or.inr ⟨umask, rfl⟩)
      · cases h
  | plant uid kind mode =>
    simp only [step] at h
    split at h
    · next he =>
      obtain ⟨-, h⟩ := Option.ite_none_right_eq_some.mp h
      cases h
      exact .foreign ⟨by simp, by simp⟩ fun _ entry hentry => by simp [he] at hentry
    · cases h
  | chmod uid mode =>
    simp only [step] at h
    split at h
    · next entry he =>
      obtain ⟨⟨hne, huid⟩, h⟩ := Option.ite_none_right_eq_some.mp h
      cases h
      refine .foreign ⟨by simp, by simp⟩ fun _ other hother => ?_
      obtain rfl := Option.some.inj (he.symm.trans hother)
      rwa [huid]
    · cases h
  | unlink uid =>
    simp only [step] at h
    split at h
    · next entry he =>
      obtain ⟨⟨hne, huid⟩, h⟩ := Option.ite_none_right_eq_some.mp h
      cases h
      refine .foreign ⟨by simp, by simp⟩ fun hsticky other hother => ?_
      obtain rfl := Option.some.inj (he.symm.trans hother)
      rwa [huid hsticky]
    · cases h

theorem step_fixed (h : s.step a = some t) : t.euid = s.euid ∧ t.sticky = s.sticky := by
  cases step_steps h <;> exact ⟨rfl, rfl⟩

/-- Nobody changes a private directory where nobody can remove it. -/
theorem step_private {entry : DirEntry} (hsticky : s.sticky = true) (he : s.entry = some entry)
    (hp : entry.Private s.euid) (h : s.step a = some t) : t.entry = some entry := by
  cases step_steps h with
  | absent | vanished | accepted | rejected | failed | found => exact he
  | made _ hnone =>
    rw [he] at hnone
    cases hnone
  | foreign _ hf => exact absurd hp.uid (hf hsticky entry he)

/-- A process goes on where it finds a private directory, and only there. -/
theorem step_ready (h : s.step a = some t) (hbefore : s.process i ≠ .ready) (hi : t.process i = .ready) :
    ∃ entry, t.entry = some entry ∧ entry.Private s.euid := by
  cases step_steps h with
  | accepted _ he hp => exact ⟨_, he, hp⟩
  | absent | vanished | rejected | failed | found =>
    rw [move_process] at hi
    split at hi
    · cases hi
    · exact absurd hi hbefore
  | made =>
    simp only [place, move_process] at hi
    split at hi
    · cases hi
    · exact absurd hi hbefore
  | foreign => exact absurd hi hbefore

/-- Processes that have gone on have a private directory. -/
def Guarded (s : BaseDir n) : Prop := ∀ i, s.process i = .ready → ∃ entry, s.entry = some entry ∧ entry.Private s.euid

theorem guarded_start (n euid : Nat) (sticky : Bool) (entry : Option DirEntry) : (start n euid sticky entry).Guarded :=
  fun i hi => by cases hi

theorem Guarded.step (hs : s.Guarded) (hsticky : s.sticky = true) (h : s.step a = some t) : t.Guarded := by
  intro j hj
  rw [(step_fixed h).1]
  by_cases hbefore : s.process j = .ready
  · obtain ⟨entry, he, hp⟩ := hs j hbefore
    exact ⟨entry, step_private hsticky he hp h, hp⟩
  · exact step_ready h hbefore hj

theorem run_private {entry : DirEntry} {as : List (Action n)} (hsticky : s.sticky = true) (he : s.entry = some entry)
    (hp : entry.Private s.euid) (hr : run step s as = some t) : t.entry = some entry :=
  (run_invariant (I := fun u => u.entry = some entry ∧ u.euid = s.euid ∧ u.sticky = true)
    (fun u a u' hu h => by
      obtain ⟨hentry, heuid, hkept⟩ := hu
      obtain ⟨heuid', hkept'⟩ := step_fixed h
      exact ⟨step_private hkept hentry (heuid.symm ▸ hp) h, heuid'.trans heuid, hkept'.trans hkept⟩)
    ⟨he, rfl, hsticky⟩ hr).1

/-! ### Without other users -/

/-- The user's own processes, on a system that works. -/
def Action.own : Action n → Prop
  | .lstat _ ok | .mkdir _ ok _ => ok = true
  | .plant _ _ _ | .chmod _ _ | .unlink _ => False

/-- Nothing is wrong with the directory, if there is one, and nobody has been refused. -/
structure Undisturbed (s : BaseDir n) : Prop where
  entry : ∀ entry, s.entry = some entry → entry.Private s.euid
  checking : ∀ i, s.process i = .checking → s.entry.isSome
  accepted : ∀ i error, s.process i ≠ .refused error

theorem Undisturbed.step (hs : s.Undisturbed) (ha : a.own) (h : s.step a = some t) : t.Undisturbed := by
  obtain ⟨hentry, hchecking, haccepted⟩ := hs
  -- A step that leaves the path alone.
  have moved : ∀ (i : Fin n) (ensuring : Ensuring), (ensuring = .checking → s.entry.isSome) →
      (∀ error, ensuring ≠ .refused error) → (s.move i ensuring).Undisturbed := by
    intro i ensuring hc hr
    refine ⟨hentry, fun j hj => ?_, fun j error hj => ?_⟩
    all_goals
      rw [move_process] at hj
      split at hj
    · exact hc hj
    · exact hchecking j hj
    · exact hr error hj
    · exact haccepted j error hj
  cases step_steps h with
  | absent => exact moved _ _ (by simp) (by simp)
  | vanished hi he =>
    -- What a process has seen, or made, is there for good when nobody removes it.
    have hsome := hchecking _ hi
    rw [he] at hsome
    cases hsome
  | accepted => exact moved _ _ (by simp) (by simp)
  | rejected he hp => exact absurd (hentry _ he) hp
  | failed hfailed =>
    rcases hfailed with rfl | ⟨umask, rfl⟩
    all_goals cases ha
  | found _ he => exact moved _ _ (fun _ => by rw [he]; rfl) (by simp)
  | @made i umask =>
    refine ⟨fun entry he => ?_, fun _ _ => rfl, fun j error hj => ?_⟩
    · obtain rfl := Option.some.inj he
      exact private_new s.euid s.inodes umask
    · simp only [place, move_process] at hj
      split at hj
      · cases hj
      · exact haccepted j error hj
  | foreign hforeign =>
    cases a with
    | lstat i ok => exact absurd rfl (hforeign.1 i ok)
    | mkdir i ok umask => exact absurd rfl (hforeign.2 i ok umask)
    | plant | chmod | unlink => cases ha

theorem undisturbed_start (n euid : Nat) (sticky : Bool) : (start n euid sticky none).Undisturbed :=
  ⟨fun entry he => (by cases he), fun i hi => (by cases hi), fun i error hi => (by cases hi)⟩

theorem Undisturbed.run {as : List (Action n)} (hs : s.Undisturbed) (hown : ∀ a ∈ as, a.own)
    (hr : Machine.run BaseDir.step s as = some t) : t.Undisturbed := by
  induction as generalizing s with
  | nil =>
    cases hr
    exact hs
  | cons a as ih =>
    obtain ⟨u, h, hr⟩ := run_cons_eq_some.mp hr
    obtain ⟨ha, hown⟩ := List.forall_mem_cons.mp hown
    exact ih (hs.step ha h) hown hr

/-- Whatever stands at the path at first, and however other users act between the calls: a process goes on only in a
    state in which the path is a real directory of the user that lets nobody else in; and where nobody can remove what
    belongs to someone else, the path stays the same directory whatever happens later. And processes that start together
    where there is nothing do not disturb each other: without other users and failures none of them is refused. -/
theorem private_for_good (n euid : Nat) (sticky : Bool) (before : Option DirEntry) (as : List (Action n)) :
    (∀ s a t i, run step (start n euid sticky before) as = some s → s.step a = some t → s.process i ≠ .ready →
      t.process i = .ready → ∃ entry, t.entry = some entry ∧ entry.Private euid) ∧
    (sticky = true → ∀ s i, run step (start n euid sticky before) as = some s → s.process i = .ready →
      ∃ entry, s.entry = some entry ∧ entry.Private euid ∧
        ∀ bs t, run step s bs = some t → t.entry = some entry) ∧
    ((∀ a ∈ as, a.own) → ∀ s i error, run step (start n euid sticky none) as = some s → s.process i ≠ .refused error) := by
  have fixed : ∀ {s : BaseDir n}, run step (start n euid sticky before) as = some s → s.euid = euid ∧ s.sticky = sticky :=
    fun hr => run_invariant (I := fun u => u.euid = euid ∧ u.sticky = sticky) (fun u a u' hu h => by
      obtain ⟨heuid, hkept⟩ := step_fixed h
      exact ⟨heuid.trans hu.1, hkept.trans hu.2⟩) ⟨rfl, rfl⟩ hr
  refine ⟨fun s a t i hr h hbefore hi => ?_, fun hsticky s i hr hi => ?_, fun hown s i error hr => ?_⟩
  · have hready := step_ready h hbefore hi
    rwa [(fixed hr).1] at hready
  · have guarded : s.Guarded := (run_invariant (I := fun u => u.Guarded ∧ u.sticky = true)
      (fun u a u' hu h => ⟨hu.1.step hu.2 h, (step_fixed h).2.trans hu.2⟩)
      ⟨guarded_start n euid sticky before, hsticky⟩ hr).1
    obtain ⟨entry, he, hp⟩ := guarded i hi
    obtain ⟨heuid, hkept⟩ := fixed hr
    exact ⟨entry, he, heuid ▸ hp, fun bs t hrun => run_private (hkept.trans hsticky) he hp hrun⟩
  · exact ((undisturbed_start n euid sticky).run hown hr).accepted i error

end BaseDir

end NovaMux

import Mathlib.Algebra.BigOperators.Group.List.Basic
import NovaMux.Lib.Machine
import NovaMux.Runtime.Child

/-! A live pane leaves nothing of its shell behind. Whenever the shell, its reader and the calls of the system end or fail,
    no signal is sent to a process that may be another one by then, a termination that succeeds and every drop have waited
    for the reader, and the shell has been reaped unless the system has refused to wait for it. -/

namespace NovaMux

namespace ChildState

variable {child : ChildState} {fault : Option String} {status : UInt32}

theorem tryWait_some (h : (child.tryWait fault).1 = .ok (some status)) :
    (child.tryWait fault).2 = .reaped status := by
  unfold tryWait at h ⊢
  split at h <;> cases h <;> rfl

theorem tryWait_other (h : ∀ status, (child.tryWait fault).1 ≠ .ok (some status)) (status : UInt32) :
    (child.tryWait fault).2 ≠ .reaped status := by
  cases child with
  | running => cases fault <;> exact fun he => (by cases he)
  | exited status =>
    cases fault with
    | none => exact absurd rfl (h status)
    | some message => exact fun he => (by cases he)
  | reaped status => exact absurd rfl (h status)

theorem tryWait_reaped (fault : Option String) (h : child = .reaped status) :
    (child.tryWait fault).2 = .reaped status := by
  subst h
  rfl

theorem reap_of_ne (h : child ≠ .running) : ∃ status, child.reap = .reaped status := by
  cases child with
  | running => exact absurd rfl h
  | exited status | reaped status => exact ⟨status, rfl⟩

end ChildState

namespace PaneProcess

open ChildState

variable {s t : PaneProcess} {a : Action} {actions past : List Action}

/-! ### Steps -/

def Reaped (s : PaneProcess) : Prop := ∃ status, s.child = .reaped status

/-- The actions that begin to end the child. -/
def Action.begins : Action → Option Ending
  | .terminate _ => some .terminate
  | .drop _ => some .drop
  | _ => none

/-- Everything that a step can do. -/
inductive Moves (s : PaneProcess) : Action → PaneProcess → Prop where
  | exit (status : UInt32) (h : s.child = .running) : Moves s (.exit status) { s with child := .exited status }
  | readerEnds (result : Except String Unit) (h : s.reader = none) :
    Moves s (.readerEnds result) { s with reader := some result }
  | tryWait (fault : Option String) (h : s.owner = .idle) :
    Moves s (.tryWait fault) { s with child := (s.child.tryWait fault).2 }
  | refused (fault : Option String) (error : String) (h : s.owner = .idle) :
    Moves s (.terminate fault) ({ s with child := (s.child.tryWait fault).2 }.terminates (.error error))
  | lives {a : Action} (ending : Ending) (fault : Option String) (ha : a.begins = some ending) (h : s.owner = .idle)
    (hlives : ∀ status, (s.child.tryWait fault).2 ≠ .reaped status) :
    Moves s a { s with child := (s.child.tryWait fault).2, owner := .killing ending }
  | ended {a : Action} (ending : Ending) (fault : Option String) (ha : a.begins = some ending) (h : s.owner = .idle)
    (status : UInt32) (hended : (s.child.tryWait fault).2 = .reaped status) :
    Moves s a { s with child := (s.child.tryWait fault).2, owner := .joining ending }
  | unkilled (error : String) (h : s.owner = .killing .terminate) :
    Moves s (.kill (.error error)) (s.terminates (.error error))
  | killed (outcome : Except String (Option UInt32)) (ending : Ending) (child : ChildState)
    (h : s.owner = .killing ending) (hchild : s.Reaped → child = s.child) :
    Moves s (.kill outcome) { s with child, owner := .waiting ending }
  | unwaited (error : String) (h : s.owner = .waiting .terminate) :
    Moves s (.wait (some error)) (s.terminates (.error error))
  | lost (error : String) (h : s.owner = .waiting .drop) : Moves s (.wait (some error)) { s with owner := .joining .drop }
  | waited (ending : Ending) (h : s.owner = .waiting ending) (hended : s.child ≠ .running) :
    Moves s (.wait none) { s with child := s.child.reap, owner := .joining ending }
  | joined (result : Except String Unit) (h : s.owner = .joining .terminate)
    (hreader : s.readerThread = true → s.reader = some result) :
    Moves s .join ({ s with readerThread := false }.terminates result)
  | dropped (result : Except String Unit) (h : s.owner = .joining .drop)
    (hreader : s.readerThread = true → s.reader = some result) :
    Moves s .join { s with readerThread := false, owner := .dropped }

theorem step_moves (h : s.step a = some t) : s.Moves a t := by
  cases a with
  | exit status =>
    simp only [step] at h
    split at h
    · next hrunning =>
      cases h
      exact .exit status hrunning
    · cases h
  | readerEnds result =>
    simp only [step] at h
    split at h
    · next hnone =>
      cases h
      exact .readerEnds result hnone
    · cases h
  | tryWait fault =>
    simp only [step] at h
    split at h
    · next hidle =>
      cases h
      exact .tryWait fault hidle
    · cases h
  | terminate fault =>
    simp only [step] at h
    split at h
    · next hidle =>
      -- Whether the call ends here depends on what the first query of the shell says.
      rcases htry : s.child.tryWait fault with ⟨error | - | status, child⟩ <;> rw [htry] at h <;> cases h
      all_goals obtain rfl : child = (s.child.tryWait fault).2 := (congrArg Prod.snd htry).symm
      · exact .refused fault error hidle
      · exact .lives .terminate fault rfl hidle (tryWait_other fun status he => (by rw [htry] at he; cases he))
      · exact .ended .terminate fault rfl hidle status (tryWait_some (by rw [htry]))
    · cases h
  | drop fault =>
    simp only [step] at h
    split at h
    · next hidle =>
      rcases htry : s.child.tryWait fault with ⟨error | - | status, child⟩ <;> rw [htry] at h <;> cases h
      all_goals obtain rfl : child = (s.child.tryWait fault).2 := (congrArg Prod.snd htry).symm
      · exact .lives .drop fault rfl hidle (tryWait_other fun status he => (by rw [htry] at he; cases he))
      · exact .lives .drop fault rfl hidle (tryWait_other fun status he => (by rw [htry] at he; cases he))
      · exact .ended .drop fault rfl hidle status (tryWait_some (by rw [htry]))
    · cases h
  | kill outcome =>
    simp only [step] at h
    split at h
    · next hkilling =>
      cases h
      exact .unkilled _ hkilling
    · next hkilling =>
      cases h
      exact .killed _ .drop s.child hkilling fun _ => rfl
    · next ending hkilling =>
      cases h
      exact .killed _ ending s.child hkilling fun _ => rfl
    · next ending status hkilling =>
      cases h
      refine .killed _ ending _ hkilling fun ⟨status', hreaped⟩ => ?_
      rw [hreaped]
      rfl
    · cases h
  | wait fault =>
    simp only [step] at h
    split at h
    · next hwaiting =>
      cases h
      exact .unwaited _ hwaiting
    · next hwaiting =>
      cases h
      exact .lost _ hwaiting
    · next ending hwaiting =>
      split at h
      · cases h
      · next hended =>
        cases h
        exact .waited ending hwaiting hended
    · cases h
  | join =>
    simp only [step] at h
    split at h
    · next ending hjoining =>
      obtain ⟨result, hresult, rfl⟩ := Option.map_eq_some_iff.mp h
      have hreader : s.readerThread = true → s.reader = some result := by
        intro hthread
        rwa [if_pos hthread] at hresult
      cases ending with
      | terminate => exact .joined result hjoining hreader
      | drop => exact .dropped result hjoining hreader
    · cases h

/-! ### Runs -/

/-- How the calls that wait for the child have failed, if they have. -/
def waits (actions : List Action) : List (Option String) :=
  actions.filterMap fun
    | .wait fault => some fault
    | _ => none

/-- The child has been reaped, unless the last call that waits for it has failed. -/
def Settled (actions : List Action) (s : PaneProcess) : Prop :=
  s.Reaped ∨ ∃ message, (waits actions).getLast? = some (some message)

structure Sound (actions : List Action) (s : PaneProcess) : Prop where
  killing : ∀ ending, s.owner = .killing ending → ¬s.Reaped
  joined : s.readerThread = false → s.reader.isSome
  terminating : s.owner = .joining .terminate → s.Reaped
  terminated : s.terminated = some (.ok ()) → s.Reaped ∧ s.readerThread = false
  dropping : s.owner = .joining .drop → s.Settled actions
  dropped : s.owner = .dropped → s.Settled actions ∧ s.readerThread = false

theorem sound_spawned : Sound [] spawned where
  killing _ h := by cases h
  joined h := by cases h
  terminating h := by cases h
  terminated h := by cases h
  dropping h := by cases h
  dropped h := by cases h

theorem Reaped.step (h : s.Reaped) (hs : s.step a = some t) : t.Reaped := by
  obtain ⟨status, hstatus⟩ := h
  cases step_moves hs with
  | exit status' hrunning => cases hstatus.symm.trans hrunning
  | tryWait fault | refused fault | lives _ fault | ended _ fault => exact ⟨status, tryWait_reaped fault hstatus⟩
  | killed outcome ending child _ hchild => exact ⟨status, (hchild ⟨status, hstatus⟩).trans hstatus⟩
  | waited ending _ hended => exact reap_of_ne hended
  | readerEnds | unkilled | unwaited | lost | joined | dropped => exact ⟨status, hstatus⟩

theorem waits_same (ha : waits [a] = []) : waits (past ++ [a]) = waits past := by
  rw [waits, List.filterMap_append, ← waits, ← waits, ha, List.append_nil]

theorem Settled.step (h : s.Settled past) (hs : s.step a = some t) (ha : waits [a] = []) : t.Settled (past ++ [a]) := by
  rcases h with hreaped | ⟨message, hlast⟩
  · exact Or.inl (hreaped.step hs)
  · exact Or.inr ⟨message, by rwa [waits_same ha]⟩

/-- A step that leaves the reader to itself, by where it takes the owner. -/
theorem Sound.keep (h : s.Sound past) (hs : s.step a = some t) (hthread : t.readerThread = s.readerThread)
    (hreader : s.reader.isSome → t.reader.isSome)
    (hterminated : t.terminated = some (.ok ()) → s.terminated = some (.ok ()))
    (killing : ∀ ending, t.owner = .killing ending → ¬t.Reaped)
    (terminating : t.owner = .joining .terminate → t.Reaped)
    (dropping : t.owner = .joining .drop → t.Settled (past ++ [a]))
    (dropped : t.owner = .dropped → s.owner = .dropped ∧ waits [a] = []) : t.Sound (past ++ [a]) where
  killing := killing
  joined hjoined := hreader (h.joined (hthread ▸ hjoined))
  terminating := terminating
  terminated hok := by
    obtain ⟨hreaped, hjoined⟩ := h.terminated (hterminated hok)
    exact ⟨hreaped.step hs, hthread ▸ hjoined⟩
  dropping := dropping
  dropped hdropped := by
    obtain ⟨hbefore, hwaits⟩ := dropped hdropped
    obtain ⟨hsettled, hjoined⟩ := h.dropped hbefore
    exact ⟨hsettled.step hs hwaits, hthread ▸ hjoined⟩

/-- A step that does not take the owner anywhere. -/
theorem Sound.stay (h : s.Sound past) (hs : s.step a = some t) (hwaits : waits [a] = []) (howner : t.owner = s.owner)
    (hthread : t.readerThread = s.readerThread) (hreader : s.reader.isSome → t.reader.isSome)
    (hterminated : t.terminated = s.terminated) (killing : ∀ ending, s.owner = .killing ending → ¬t.Reaped) :
    t.Sound (past ++ [a]) := by
  refine h.keep hs hthread hreader (fun hok => hterminated ▸ hok) ?_ ?_ ?_ ?_ <;> rw [howner]
  · exact killing
  · intro hjoining
    exact (h.terminating hjoining).step hs
  · intro hjoining
    exact (h.dropping hjoining).step hs hwaits
  · intro hdropped
    exact ⟨hdropped, hwaits⟩

/-- A termination fails before it has come to the reader. -/
theorem Sound.refuse (h : s.Sound past) {child : ChildState} {error : String}
    (hs : s.step a = some ({ s with child }.terminates (.error error))) :
    ({ s with child }.terminates (.error error)).Sound (past ++ [a]) := by
  refine h.keep hs rfl id ?_ ?_ ?_ ?_ ?_
  · intro hok
    cases hok
  · intro ending hkilling
    cases hkilling
  · intro hjoining
    cases hjoining
  · intro hjoining
    cases hjoining
  · intro hdropped
    cases hdropped

theorem Sound.reader_isSome {result : Except String Unit} (h : s.Sound past)
    (hreader : s.readerThread = true → s.reader = some result) : s.reader.isSome := by
  cases hthread : s.readerThread with
  | true => rw [hreader hthread, Option.isSome_some]
  | false => exact h.joined hthread

theorem Sound.step (h : s.Sound past) (hs : s.step a = some t) : t.Sound (past ++ [a]) := by
  cases step_moves hs with
  | exit status hrunning =>
    refine h.stay hs rfl rfl rfl id rfl ?_
    rintro ending - ⟨status, hreaped⟩
    cases hreaped
  | readerEnds result hnone => exact h.stay hs rfl rfl rfl (fun _ => rfl) rfl h.killing
  | tryWait fault hidle =>
    refine h.stay hs rfl rfl rfl id rfl fun ending hkilling => ?_
    cases hidle.symm.trans hkilling
  | refused fault error hidle => exact h.refuse hs
  | unkilled error hkilling => exact h.refuse hs
  | unwaited error hwaiting => exact h.refuse hs
  | lives ending fault ha hidle hlives =>
    refine h.keep hs rfl id id ?_ (fun hj => (by cases hj)) (fun hj => (by cases hj)) (fun hd => (by cases hd))
    rintro - - ⟨status, hreaped⟩
    exact hlives status hreaped
  | ended ending fault ha hidle status hended =>
    exact h.keep hs rfl id id (fun _ hk => (by cases hk)) (fun _ => ⟨status, hended⟩)
      (fun _ => Or.inl ⟨status, hended⟩) (fun hd => (by cases hd))
  | killed outcome ending child hkilling hchild =>
    exact h.keep hs rfl id id (fun _ hk => (by cases hk)) (fun hj => (by cases hj)) (fun hj => (by cases hj))
      (fun hd => (by cases hd))
  -- The wait that has been refused is the last one, which is what a drop may settle for.
  | lost error hwaiting =>
    refine h.keep hs rfl id id (fun _ hk => (by cases hk)) (fun hj => (by cases hj)) (fun _ => Or.inr ⟨error, ?_⟩)
      (fun hd => (by cases hd))
    rw [waits, List.filterMap_append]
    exact List.getLast?_concat
  | waited ending hwaiting hended =>
    have hreaped : ∃ status, s.child.reap = .reaped status := reap_of_ne hended
    exact h.keep hs rfl id id (fun _ hk => (by cases hk)) (fun _ => hreaped) (fun _ => Or.inl hreaped)
      (fun hd => (by cases hd))
  -- A termination comes to the reader only behind a shell that it has reaped.
  | joined result hjoining hreader =>
    have hreaped : s.Reaped := h.terminating hjoining
    exact ⟨fun _ hk => (by cases hk), fun _ => h.reader_isSome hreader, fun hj => (by cases hj),
      fun _ => ⟨hreaped.step hs, rfl⟩, fun hj => (by cases hj), fun hd => (by cases hd)⟩
  | dropped result hjoining hreader =>
    have hsettled : s.Settled past := h.dropping hjoining
    exact ⟨fun _ hk => (by cases hk), fun _ => h.reader_isSome hreader, fun hj => (by cases hj),
      fun hok => ⟨(h.terminated hok).1.step hs, rfl⟩, fun hj => (by cases hj), fun _ => ⟨hsettled.step hs rfl, rfl⟩⟩

/-! ### Progress -/

/-- The calls of the system on the way to the end of a call. -/
def Action.work : Action → Nat
  | .kill _ | .wait _ | .join => 1
  | _ => 0

def Action.calls (a : Action) : Nat := a.begins.elim 0 fun _ => 1

/-- How much work is ahead of the owner. -/
def ahead : Owner → Nat
  | .idle | .dropped => 0
  | .joining _ => 1
  | .waiting _ => 2
  | .killing _ => 3

theorem begins_cost {ending : Ending} (ha : a.begins = some ending) : a.work = 0 ∧ a.calls = 1 := by
  cases a with
  | terminate | drop => exact ⟨rfl, rfl⟩
  | exit | readerEnds | tryWait | kill | wait | join => cases ha

theorem work_ahead (hs : s.step a = some t) : a.work + ahead t.owner ≤ ahead s.owner + 3 * a.calls := by
  cases step_moves hs with
  | exit | readerEnds | tryWait => exact (Nat.zero_add _).le
  | refused fault error hidle => exact Nat.zero_le _
  | lives ending fault ha hidle hlives =>
    obtain ⟨hwork, hcalls⟩ := begins_cost ha
    simp only [hwork, hcalls, ahead, hidle]
    omega
  | ended ending fault ha hidle status hended =>
    obtain ⟨hwork, hcalls⟩ := begins_cost ha
    simp only [hwork, hcalls, ahead, hidle]
    omega
  | unkilled error hkilling | killed outcome _ _ hkilling =>
    rw [hkilling]
    simp only [Action.work, terminates, ahead]
    omega
  | unwaited error hwaiting | lost error hwaiting | waited ending hwaiting =>
    rw [hwaiting]
    simp only [Action.work, terminates, ahead]
    omega
  | joined result hjoining | dropped result hjoining =>
    rw [hjoining]
    simp only [Action.work, terminates, ahead]
    omega

/-- Once the child and the reader have ended, nothing holds a call up. -/
theorem proceeds (hchild : s.child ≠ .running) (hreader : s.reader.isSome) (hidle : s.owner ≠ .idle)
    (hdropped : s.owner ≠ .dropped) : ∃ a t, a.work = 1 ∧ s.step a = some t := by
  cases howner : s.owner with
  | idle => exact absurd howner hidle
  | dropped => exact absurd howner hdropped
  | killing ending => exact ⟨.kill (.ok none), _, rfl, by simp only [PaneProcess.step, howner]; rfl⟩
  | waiting ending => exact ⟨.wait none, _, rfl, by simp only [PaneProcess.step, howner, if_neg hchild]; rfl⟩
  | joining ending =>
    have hjoin : (s.step .join).isSome := by
      simp only [PaneProcess.step, howner, Option.isSome_map]
      split
      · exact hreader
      · rfl
    obtain ⟨t, ht⟩ := Option.isSome_iff_exists.mp hjoin
    exact ⟨.join, t, rfl, ht⟩

/-- Between two calls, and behind the last one, there is the work of one call. -/
theorem work_between (h : Machine.run step spawned (past ++ actions) = some t) (hcalls : ∀ a ∈ actions, a.begins = none) :
    (actions.map Action.work).sum ≤ 3 := by
  obtain ⟨s, -, hactions⟩ := Machine.run_append_eq_some.mp h
  have hpaid := Machine.run_potential (Φ := fun s => ahead s.owner) (fun _ _ _ hs => work_ahead hs) hactions
  have hnone : (actions.map fun a => 3 * a.calls).sum = 0 := by
    refine List.sum_eq_zero fun n hn => ?_
    obtain ⟨a, ha, rfl⟩ := List.mem_map.mp hn
    rw [Action.calls, hcalls a ha, Option.elim_none, Nat.mul_zero]
  have hahead : ahead s.owner ≤ 3 := by
    cases s.owner <;> simp [ahead]
  omega

/-! ### Main result -/

/-- What becomes of a live pane. -/
structure Reclaimed (actions : List Action) (s : PaneProcess) : Prop where
  signals : ∀ outcome t, s.step (.kill outcome) = some t → ¬s.Reaped
  terminated : s.terminated = some (.ok ()) → s.Reaped ∧ s.readerThread = false ∧ s.reader.isSome
  dropped : s.owner = .dropped → s.Settled actions ∧ s.readerThread = false ∧ s.reader.isSome
  brief : ∀ past between after, actions = past ++ between ++ after → (∀ a ∈ between, a.begins = none) →
    (between.map Action.work).sum ≤ 3
  proceeds : s.child ≠ .running → s.reader.isSome → s.owner ≠ .idle → s.owner ≠ .dropped →
    ∃ a t, a.work = 1 ∧ s.step a = some t

theorem killing_of_step {outcome : Except String (Option UInt32)} (hs : s.step (.kill outcome) = some t) :
    ∃ ending, s.owner = .killing ending := by
  cases step_moves hs with
  | unkilled error hkilling => exact ⟨_, hkilling⟩
  | killed _ ending _ hkilling => exact ⟨ending, hkilling⟩
  | lives _ _ ha | ended _ _ ha => cases ha

/-- From its start on, whatever fails and whenever its shell and its reader end: a live pane never signals a process that
    has been reaped, whose identifier may be another's by then; a termination that succeeds has reaped the shell and has
    joined the reader, and so has a drop, unless the system has refused the last wait. Each of these calls takes at most
    three calls of the system that change or wait for anything, and waits for the shell and its reader only. -/
theorem reclaimed (h : Machine.run step spawned actions = some s) : s.Reclaimed actions := by
  have hsound : s.Sound actions := Machine.run_past (fun _ _ _ _ hsound hs => Sound.step hsound hs) sound_spawned h
  refine ⟨fun outcome t hs => ?_, fun hok => ?_, fun hdropped => ?_, fun past between after he hcalls => ?_, proceeds⟩
  · obtain ⟨ending, hkilling⟩ := killing_of_step hs
    exact hsound.killing ending hkilling
  · obtain ⟨hreaped, hjoined⟩ := hsound.terminated hok
    exact ⟨hreaped, hjoined, hsound.joined hjoined⟩
  · obtain ⟨hsettled, hjoined⟩ := hsound.dropped hdropped
    exact ⟨hsettled, hjoined, hsound.joined hjoined⟩
  · subst he
    obtain ⟨t, ht, -⟩ := Machine.run_append_eq_some.mp h
    exact work_between ht hcalls

/-- A pane whose termination has been refused is dropped all the same. -/
theorem reclaimed_refused : ∃ actions s, Machine.run step spawned actions = some s ∧
    s.terminated = some (.error "operation not permitted") ∧ s.owner = .dropped ∧ s.Reaped ∧ s.readerThread = false := by
  let actions : List Action :=
    [.terminate none, .kill (.error "operation not permitted"), .drop none, .kill (.ok none), .exit 129, .wait none,
      .readerEnds (.ok ()), .join]
  let s : PaneProcess :=
    { child := .reaped 129, reader := some (.ok ()), readerThread := false, owner := .dropped
      terminated := some (.error "operation not permitted") }
  have hrun : Machine.run step spawned actions = some s := by
    decide +kernel
  obtain ⟨hsettled, hjoined, -⟩ := (reclaimed hrun).dropped rfl
  refine ⟨actions, s, hrun, rfl, rfl, hsettled.resolve_right fun ⟨message, hlast⟩ => ?_, hjoined⟩
  cases hlast

end PaneProcess

end NovaMux

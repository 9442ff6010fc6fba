import NovaMux.Lib.Machine
import NovaMux.Runtime.Shell
import NovaMux.Theorems.Guards
import NovaMux.Theorems.Scrollback

/-! A shell without panes is the user's: in both directions bytes arrive in order and in whole, its PTY has the size of the
    terminal, its exit code is the one of the program, behind everything that it has printed, and the terminal is given
    back. The user's next key is not waited for. -/

namespace NovaMux

open ByteStream

/-! ### Threads -/

namespace Copier

variable {copier : Copier} {start : Output} {events : List Event}

/-- The thread is where the loop is behind some reads. -/
def Follows (copier : Copier) (start : Output) (events : List Event) : Prop :=
  copyAndFlush events start = (copier.ended, copier.sink)

theorem Follows.reads (h : copier.Follows start events) (hrunning : copier.running) (event : Event) :
    (copier.reads event).Follows start (events ++ [event]) := by
  have hnone : copier.ended = none := Option.isNone_iff_eq_none.mp (Bool.and_eq_true_iff.mp hrunning).2
  unfold Follows copyAndFlush at h ⊢
  rw [pump_append, h, hnone]
  rfl

/-- What a thread has written: in order what it has read, and all of it, flushed, unless the writer fails. -/
def Whole (copier : Copier) (start : Output) (events : List Event) : Prop :=
  ∃ copied, copied <+: arrived events ∧ copier.sink.written = start.written ++ copied ∧
    (copier.ended = ending events ∧ copied = arrived events ∧
        (copied ≠ [] → copier.sink.flushed = copier.sink.written) ∨
      ¬start.Reliable ∧ ∃ error, copier.ended = some (.error error))

theorem Follows.whole (h : copier.Follows start events) : copier.Whole start events := by
  have hwhole := copyAndFlush_whole events start
  rwa [h] at hwhole

theorem Whole.ended_isSome (h : copier.Whole start events) (hend : (ending events).isSome) : copier.ended.isSome := by
  obtain ⟨copied, -, -, hends⟩ := h
  rcases hends with ⟨hended, -, -⟩ | ⟨-, error, hended⟩
  · rwa [hended]
  · rw [hended]
    rfl

/-- A thread that ends well has come to the end of the stream. -/
theorem Whole.of_ok (h : copier.Whole start events) (hok : copier.ended = some (.ok ())) :
    ending events = some (.ok ()) ∧ copier.sink.written = start.written ++ arrived events ∧
      (arrived events ≠ [] → copier.sink.flushed = copier.sink.written) := by
  obtain ⟨copied, -, hwritten, hends⟩ := h
  rcases hends with ⟨hended, rfl, hflushed⟩ | ⟨-, error, hended⟩
  · exact ⟨hended.symm.trans hok, hwritten, hflushed⟩
  · cases hok.symm.trans hended

end Copier

namespace Shell

variable {s t : Shell} {a : Action} {actions past : List Action} {size : Option (UInt16 × UInt16)} {stdout pty : Output}

/-! ### What has happened -/

def printed (actions : List Action) : List Event :=
  actions.filterMap fun
    | .print event => some event
    | _ => none

def typed (actions : List Action) : List Event :=
  actions.filterMap fun
    | .type event => some event
    | _ => none

/-- The sizes that the terminal has been found to have. -/
def measured (actions : List Action) : List (Option (UInt16 × UInt16)) :=
  actions.filterMap fun
    | .measure size _ => some size
    | _ => none

/-- How the shell has been found to have ended. -/
def exits (actions : List Action) : List UInt32 :=
  actions.filterMap fun
    | .tryWait (.ok (some status)) => some status
    | _ => none

/-! ### Steps -/

/-- Everything that a step can do. -/
inductive Moves (s : Shell) : Action → Shell → Prop where
  | print (event : Event) (h : s.output.running) : Moves s (.print event) { s with output := s.output.reads event }
  | type (event : Event) (h : s.input.running) : Moves s (.type event) { s with input := s.input.reads event }
  | lost (error : String) (h : s.phase = .polling) : Moves s (.tryWait (.error error)) (s.finish (.error error))
  | exited (status : UInt32) (h : s.phase = .polling) :
    Moves s (.tryWait (.ok (some status))) { s with phase := .joining status }
  | alive (h : s.phase = .polling) : Moves s (.tryWait (.ok none)) { s with phase := .measuring }
  | fixed (size : Option (UInt16 × UInt16)) (error : String) (h : s.phase = .measuring) :
    Moves s (.measure size (some error)) (s.finish (.error error))
  | resized (size : Option (UInt16 × UInt16)) (h : s.phase = .measuring) :
    Moves s (.measure size none)
      { s with master := currentPtySize size, lastSize := currentPtySize size, phase := .polling }
  | same (size : Option (UInt16 × UInt16)) (fault : Option String) (h : s.phase = .measuring)
    (hsame : currentPtySize size = s.lastSize) : Moves s (.measure size fault) { s with phase := .polling }
  | joined (status : UInt32) (h : s.phase = .joining status) (hended : s.output.ended = some (.ok ())) :
    Moves s .join (s.finish (.ok (exitCode status)))
  | broken (status : UInt32) (error : IoError) (h : s.phase = .joining status) :
    Moves s .join (s.finish (.error (ioMessage error)))

theorem step_moves (h : s.step a = some t) : s.Moves a t := by
  cases a with
  | print event =>
    simp only [step] at h
    split at h
    · next hrunning =>
      cases h
      exact .print event hrunning
    · cases h
  | type event =>
    simp only [step] at h
    split at h
    · next hrunning =>
      cases h
      exact .type event hrunning
    · cases h
  | tryWait outcome =>
    simp only [step] at h
    split at h
    · next hphase =>
      split at h
      · cases h
        exact .lost _ hphase
      · cases h
        exact .exited _ hphase
      · cases h
        exact .alive hphase
    · cases h
  | measure size fault =>
    simp only [step] at h
    split at h
    · next hphase =>
      split at h
      · split at h
        · cases h
          exact .fixed size _ hphase
        · cases h
          exact .resized size hphase
      · next hsame =>
        cases h
        exact .same size fault hphase (not_not.mp hsame)
    · cases h
  | join =>
    simp only [step] at h
    split at h
    · next hphase hended =>
      cases h
      exact .joined _ hphase hended
    · next hphase _ =>
      cases h
      exact .broken _ _ hphase
    · cases h

/-! ### Runs -/

/-- Where the main thread is, by the ends of the shell that it has been told of. -/
def Located (actions : List Action) (s : Shell) : Prop :=
  match s.phase with
  | .polling | .measuring => exits actions = []
  | .joining status => exits actions = [status]
  | .returned (.ok code) =>
    s.output.ended = some (.ok ()) ∧ ∃ status, exits actions = [status] ∧ code = exitCode status
  | .returned (.error _) => True

/-- The size of the PTY is the one that has been found last. -/
def Sized (size : Option (UInt16 × UInt16)) (actions : List Action) (s : Shell) : Prop :=
  (∀ error, s.phase ≠ .returned (.error error)) →
    s.master = s.lastSize ∧ s.lastSize = currentPtySize ((measured actions).getLastD size)

/-- The terminal has been told nothing, or the first half of a guard, and the second half in the end. -/
def Guarded (s : Shell) : Prop :=
  (s.told = [] ∧ ∃ result, s.phase = .returned result) ∨
    ∃ entered, RawModeGuard.new s.interactive s.refusals = (.ok (), entered) ∧
      ((s.told = entered ∧ ∀ result, s.phase ≠ .returned result) ∨
        s.told = entered ++ RawModeGuard.drop s.interactive s.refusals ∧ ∃ result, s.phase = .returned result)

structure Tracked (size : Option (UInt16 × UInt16)) (stdout pty : Output) (actions : List Action) (s : Shell) : Prop where
  output : s.output.Follows stdout (printed actions)
  input : s.input.Follows pty (typed actions)
  located : s.Located actions
  sized : s.Sized size actions
  guarded : s.Guarded

theorem Guarded.finish (h : s.Guarded) (hphase : ∀ result, s.phase ≠ .returned result) (result : Except String UInt8) :
    (s.finish result).Guarded := by
  rcases h with ⟨-, result', hreturned⟩ | ⟨entered, hentered, ⟨rfl, -⟩ | ⟨-, result', hreturned⟩⟩
  · exact absurd hreturned (hphase result')
  · exact Or.inr ⟨s.told, hentered, Or.inr ⟨rfl, result, rfl⟩⟩
  · exact absurd hreturned (hphase result')

/-- A guard that is open stays open in every other phase that is not the last one. -/
theorem Guarded.keep (h : s.Guarded) (hphase : ∀ result, s.phase ≠ .returned result) (htold : t.told = s.told)
    (hinteractive : t.interactive = s.interactive) (hrefusals : t.refusals = s.refusals)
    (hnext : ∀ result, t.phase ≠ .returned result) : t.Guarded := by
  rcases h with ⟨-, result', hreturned⟩ | ⟨entered, hentered, ⟨hopen, -⟩ | ⟨-, result', hreturned⟩⟩
  · exact absurd hreturned (hphase result')
  · exact Or.inr ⟨entered, by rwa [hinteractive, hrefusals], Or.inl ⟨htold.trans hopen, hnext⟩⟩
  · exact absurd hreturned (hphase result')

theorem Sized.keep (h : s.Sized size past) (hphase : ∀ error, s.phase ≠ .returned (.error error))
    (hmaster : t.master = s.master) (hlast : t.lastSize = s.lastSize) (hmeasured : measured [a] = []) :
    t.Sized size (past ++ [a]) := by
  intro _
  obtain ⟨hsized, hlatest⟩ := h hphase
  refine ⟨by rw [hmaster, hlast, hsized], ?_⟩
  rw [measured, List.filterMap_append, ← measured, ← measured, hmeasured, List.append_nil, hlast, hlatest]

theorem Sized.measure (hmaster : t.master = t.lastSize) {size' : Option (UInt16 × UInt16)} {fault : Option String}
    (hlast : t.lastSize = currentPtySize size') : t.Sized size (past ++ [.measure size' fault]) := by
  intro _
  refine ⟨hmaster, ?_⟩
  rw [measured, List.filterMap_append, List.filterMap_cons, List.filterMap_nil, List.getLastD_concat, hlast]

theorem exits_same (h : exits [a] = []) : exits (past ++ [a]) = exits past := by
  rw [exits, List.filterMap_append, ← exits, ← exits, h, List.append_nil]

/-- What the main thread does is nothing to the other threads. -/
theorem Tracked.main (h : s.Tracked size stdout pty past) (houtput : t.output = s.output) (hinput : t.input = s.input)
    (hprinted : printed [a] = []) (htyped : typed [a] = []) (hlocated : t.Located (past ++ [a]))
    (hsized : t.Sized size (past ++ [a])) (hguarded : t.Guarded) : t.Tracked size stdout pty (past ++ [a]) := by
  refine ⟨?_, ?_, hlocated, hsized, hguarded⟩
  · rw [printed, List.filterMap_append, ← printed, ← printed, hprinted, List.append_nil, houtput]
    exact h.output
  · rw [typed, List.filterMap_append, ← typed, ← typed, htyped, List.append_nil, hinput]
    exact h.input

theorem Tracked.print (h : s.Tracked size stdout pty past) (event : Event) (hrunning : s.output.running) :
    Tracked size stdout pty (past ++ [.print event]) { s with output := s.output.reads event } := by
  obtain ⟨houtput, hinput, hlocated, hsized, hguarded⟩ := h
  refine ⟨?_, ?_, ?_, fun hphase => hsized.keep hphase rfl rfl rfl hphase, hguarded⟩
  · rw [printed, List.filterMap_append, ← printed]
    exact houtput.reads hrunning event
  · rw [typed, List.filterMap_append, ← typed]
    exact (List.append_nil _).symm ▸ hinput
  · unfold Located at hlocated ⊢
    rw [exits_same rfl]
    dsimp only
    split
    · next hphase => rwa [hphase] at hlocated
    · next hphase => rwa [hphase] at hlocated
    · next hphase => rwa [hphase] at hlocated
    · next hphase =>
      -- a thread that has ended does not read
      rw [hphase] at hlocated
      have hnone := (Bool.and_eq_true_iff.mp hrunning).2
      rw [hlocated.1] at hnone
      cases hnone
    · trivial

theorem Tracked.type (h : s.Tracked size stdout pty past) (event : Event) (hrunning : s.input.running) :
    Tracked size stdout pty (past ++ [.type event]) { s with input := s.input.reads event } := by
  obtain ⟨houtput, hinput, hlocated, hsized, hguarded⟩ := h
  refine ⟨?_, ?_, ?_, fun hphase => hsized.keep hphase rfl rfl rfl hphase, hguarded⟩
  · rw [printed, List.filterMap_append, ← printed]
    exact (List.append_nil _).symm ▸ houtput
  · rw [typed, List.filterMap_append, ← typed]
    exact hinput.reads hrunning event
  · unfold Located at hlocated ⊢
    rw [exits_same rfl]
    exact hlocated

/-- Behind a failure of the main thread only its guard matters. -/
theorem Tracked.fail (h : s.Tracked size stdout pty past) (hphase : ∀ result, s.phase ≠ .returned result)
    (hprinted : printed [a] = []) (htyped : typed [a] = []) (error : String) :
    (s.finish (.error error)).Tracked size stdout pty (past ++ [a]) :=
  h.main rfl rfl hprinted htyped trivial (fun hno => absurd rfl (hno error)) (h.guarded.finish hphase _)

theorem Tracked.step (h : s.Tracked size stdout pty past) (hs : s.step a = some t) :
    t.Tracked size stdout pty (past ++ [a]) := by
  have hlocated := h.located
  unfold Located at hlocated
  cases step_moves hs with
  | print event hrunning => exact h.print event hrunning
  | type event hrunning => exact h.type event hrunning
  | lost error hphase => exact h.fail (by simp [hphase]) rfl rfl error
  | fixed size' error hphase => exact h.fail (by simp [hphase]) rfl rfl error
  | broken status error hphase => exact h.fail (by simp [hphase]) rfl rfl (ioMessage error)
  | exited status hphase =>
    rw [hphase] at hlocated
    refine h.main rfl rfl rfl rfl ?_ (h.sized.keep (by simp [hphase]) rfl rfl rfl)
      (h.guarded.keep (by simp [hphase]) rfl rfl rfl (by simp))
    -- The end of the shell is noted once: until now the main thread was polling.
    have hexits : exits (past ++ [.tryWait (.ok (some status))]) = exits past ++ [status] := List.filterMap_append
    rw [Located, hexits, hlocated, List.nil_append]
  | alive hphase =>
    rw [hphase] at hlocated
    refine h.main rfl rfl rfl rfl ?_ (h.sized.keep (by simp [hphase]) rfl rfl rfl)
      (h.guarded.keep (by simp [hphase]) rfl rfl rfl (by simp))
    rw [Located, exits_same rfl, hlocated]
  | resized size' hphase =>
    rw [hphase] at hlocated
    refine h.main rfl rfl rfl rfl ?_ (Sized.measure rfl rfl) (h.guarded.keep (by simp [hphase]) rfl rfl rfl (by simp))
    rw [Located, exits_same rfl, hlocated]
  | same size' fault hphase hsame =>
    rw [hphase] at hlocated
    -- The PTY has this size already, from the start or from the measurement before.
    have hsized : Sized size (past ++ [.measure size' fault]) { s with phase := .polling } :=
      Sized.measure (t := { s with phase := .polling }) (h.sized (by simp [hphase])).1 hsame.symm
    refine h.main rfl rfl rfl rfl ?_ hsized (h.guarded.keep (by simp [hphase]) rfl rfl rfl (by simp))
    rw [Located, exits_same rfl, hlocated]
  | joined status hphase hended =>
    rw [hphase] at hlocated
    refine h.main rfl rfl rfl rfl ?_ (h.sized.keep (by simp [hphase]) rfl rfl rfl)
      (h.guarded.finish (by simp [hphase]) _)
    exact ⟨hended, status, by rw [exits_same rfl, hlocated], rfl⟩

theorem Tracked.start (interactive : Bool) (refusals : Refusals) (size : Option (UInt16 × UInt16)) (setup : Setup)
    (stdout pty : Output) : (start interactive refusals size setup stdout pty).Tracked size stdout pty [] := by
  have hnone : ∀ output : Output, copyAndFlush [] output = (none, output) := by
    intro output
    rw [copyAndFlush, pump]
  unfold Shell.start
  rcases hnew : RawModeGuard.new interactive refusals with ⟨error | ⟨⟩, told⟩
  · have htold : told = [] := by
      unfold RawModeGuard.new at hnew
      split at hnew
      · split at hnew
        · cases hnew
          rfl
        · cases hnew
      · cases hnew
    exact ⟨hnone stdout, hnone pty, trivial, fun hno => absurd rfl (hno error), Or.inl ⟨htold, _, rfl⟩⟩
  · cases setup with
    | ready => exact ⟨hnone stdout, hnone pty, rfl, fun _ => ⟨rfl, rfl⟩, Or.inr ⟨told, hnew, Or.inl ⟨rfl, by simp⟩⟩⟩
    | refused message =>
      exact ⟨hnone stdout, hnone pty, trivial, fun hno => absurd rfl (hno message),
        Or.inr ⟨told, hnew, Or.inr ⟨rfl, _, rfl⟩⟩⟩
    | halfway message =>
      exact ⟨hnone stdout, hnone pty, trivial, fun hno => absurd rfl (hno message),
        Or.inr ⟨told, hnew, Or.inr ⟨rfl, _, rfl⟩⟩⟩

/-! ### The terminal -/

theorem start_refusals (interactive : Bool) (refusals : Refusals) (size : Option (UInt16 × UInt16)) (setup : Setup)
    (stdout pty : Output) : (start interactive refusals size setup stdout pty).refusals = refusals := by
  unfold start
  rcases RawModeGuard.new interactive refusals with ⟨error | ⟨⟩, told⟩
  · rfl
  · cases setup <;> rfl

theorem step_refusals (h : s.step a = some t) : t.refusals = s.refusals := by
  cases step_moves h <;> rfl

theorem Guarded.back (h : s.Guarded) {result : Except String UInt8} (hphase : s.phase = .returned result)
    (hdisable : s.refusals.disable = none) {tty : Tty} (htty : tty.Free) : tty.run s.told = tty := by
  rcases h with ⟨htold, -⟩ | ⟨entered, hentered, ⟨-, hopen⟩ | ⟨htold, -⟩⟩
  · rw [htold]
    rfl
  · exact absurd hphase (hopen result)
  · obtain ⟨hprior, -, -⟩ := htty
    obtain ⟨raw, prior, visible, screen, main⟩ := tty
    subst hprior
    unfold RawModeGuard.new at hentered
    rw [htold]
    split at hentered
    · next hinteractive =>
      split at hentered
      · cases hentered
      · cases hentered
        rw [RawModeGuard.drop, if_pos hinteractive, Refusals.disableRawMode, hdisable]
        rfl
    · next hinteractive =>
      cases hentered
      rw [RawModeGuard.drop, if_neg hinteractive]
      rfl

/-! ### Whole runs -/

/-- What the user of a shell relies on, by the sizes, the bytes and the ends that there have been. -/
structure Served (refusals : Refusals) (size : Option (UInt16 × UInt16)) (stdout pty : Output) (actions : List Action)
    (s : Shell) : Prop where
  output : s.output.Whole stdout (printed actions)
  input : s.input.Whole pty (typed actions)
  sized : (∀ error, s.phase ≠ .returned (.error error)) →
    s.master = currentPtySize ((measured actions).getLastD size)
  /-- The main thread waits for what the shell has printed, and for nothing else. -/
  returns : ∀ status, s.phase = .joining status → (ending (printed actions)).isSome →
    ∃ t result, s.step .join = some t ∧ t.phase = .returned result
  code : ∀ code, s.phase = .returned (.ok code) →
    (∃ status, exits actions = [status] ∧ (Commands.runShell (.ok code)).code = exitCode status) ∧
      ending (printed actions) = some (.ok ()) ∧
      s.output.sink.written = stdout.written ++ arrived (printed actions) ∧
      (arrived (printed actions) ≠ [] → s.output.sink.flushed = s.output.sink.written)
  back : ∀ result, s.phase = .returned result → refusals.disable = none →
    ∀ tty : Tty, tty.Free → tty.run s.told = tty

theorem join_isSome {status : UInt32} (hphase : s.phase = .joining status) (hended : s.output.ended.isSome) :
    ∃ t result, s.step .join = some t ∧ t.phase = .returned result := by
  obtain ⟨error | ⟨⟩, hended⟩ := Option.isSome_iff_exists.mp hended
  · exact ⟨s.finish (.error (ioMessage error)), _, by simp only [Shell.step, hphase, hended], rfl⟩
  · exact ⟨s.finish (.ok (exitCode status)), _, by simp only [Shell.step, hphase, hended], rfl⟩

/-- However the threads interleave, the reads are cut and the calls fail: what the shell prints and what the user types
    arrives in order, and whole unless its writer fails; the PTY has the size that the terminal has been found to have
    last; the exit code is the one with which the shell has ended, behind the end of its output and with all of it on the
    terminal; and the terminal is as it was before. No key of the user is waited for. -/
theorem served {interactive : Bool} {refusals : Refusals} {setup : Setup}
    (h : Machine.run step (start interactive refusals size setup stdout pty) actions = some s) :
    s.Served refusals size stdout pty actions := by
  have htracked : s.Tracked size stdout pty actions :=
    Machine.run_past (fun _ _ _ _ htracked hs => Tracked.step htracked hs)
      (Tracked.start interactive refusals size setup stdout pty) h
  have hrefusals : s.refusals = refusals := Machine.run_invariant (I := fun s => s.refusals = refusals)
    (fun _ _ _ hkept hs => (step_refusals hs).trans hkept) (start_refusals interactive refusals size setup stdout pty) h
  have hwhole := htracked.output.whole
  refine ⟨hwhole, htracked.input.whole, fun hno => ?_, fun status hphase hend => ?_, fun code hphase => ?_,
    fun result hphase hdisable tty htty => htracked.guarded.back hphase (hrefusals ▸ hdisable) htty⟩
  · obtain ⟨hmaster, hlast⟩ := htracked.sized hno
    exact hmaster.trans hlast
  · exact join_isSome hphase (hwhole.ended_isSome hend)
  · have hlocated := htracked.located
    rw [Located, hphase] at hlocated
    exact ⟨hlocated.2, hwhole.of_ok hlocated.1⟩

/-- A shell whose user has made the terminal too narrow, and whose status has more than one byte. -/
theorem served_narrow : ∃ actions s,
    Machine.run step (start true ⟨none, none, none, none⟩ (some (10, 5)) .ready ⟨[], [], []⟩ ⟨[], [], []⟩) actions = some s ∧
      s.phase = .returned (.ok 1) ∧ s.output.sink.written = [104, 105] ∧ s.input.sink.written = [100] := by
  let actions : List Action :=
    [.print (.data [104, 105]), .type (.data [100]), .tryWait (.ok none), .measure (some (0, 40)) none,
      .tryWait (.ok (some 300)), .print (.data []), .join]
  have hprinted : Copier.reads ⟨true, none, ⟨[], [], []⟩⟩ (.data [104, 105]) =
      ⟨true, none, ⟨[104, 105], [104, 105], []⟩⟩ := by
    simp [Copier.reads, copyAndFlush, pump, Output.put, Output.writeAll, Output.flush, Output.attempt, bufferBytes]
  have htyped : Copier.reads ⟨true, none, ⟨[], [], []⟩⟩ (.data [100]) = ⟨true, none, ⟨[100], [100], []⟩⟩ := by
    simp [Copier.reads, copyAndFlush, pump, Output.put, Output.writeAll, Output.flush, Output.attempt, bufferBytes]
  have hend : Copier.reads ⟨true, none, ⟨[104, 105], [104, 105], []⟩⟩ (.data []) =
      ⟨true, some (.ok ()), ⟨[104, 105], [104, 105], []⟩⟩ := by
    rw [Copier.reads, copyAndFlush, pump]
  let s : Shell :=
    { interactive := true, refusals := ⟨none, none, none, none⟩, told := [.enableRawMode, .disableRawMode]
      master := ⟨40, 1⟩, lastSize := ⟨40, 1⟩, output := ⟨true, some (.ok ()), ⟨[104, 105], [104, 105], []⟩⟩
      input := ⟨true, none, ⟨[100], [100], []⟩⟩, phase := .returned (.ok 1) }
  have hrun : Machine.run step
      (start true ⟨none, none, none, none⟩ (some (10, 5)) .ready ⟨[], [], []⟩ ⟨[], [], []⟩) actions = some s := by
    have hsize : currentPtySize (some (0, 40)) ≠ currentPtySize (some (10, 5)) := by decide
    simp only [actions, Machine.run, Shell.step, start, RawModeGuard.new, Copier.running, hprinted, htyped, hend,
      if_pos, Bool.and_true, Option.isNone_none, Option.bind_some, if_pos hsize]
    rfl
  obtain ⟨-, -, hwritten, -⟩ := (served hrun).code 1 rfl
  exact ⟨actions, s, hrun, rfl, hwritten, rfl⟩

end Shell

end NovaMux

import NovaMux.Theorems.Hosted
import NovaMux.Lib.Machine
import Mathlib.Algebra.Group.Action.Defs

/-! When the screen of a hosted session can be sent. The texts share a fixed budget, so the number of panes
    decides: a snapshot is encoded exactly when it lists no more panes than the codec admits. -/

namespace NovaMux.HostedSession

open Machine

variable {hosted hosted' : HostedSession} {os os' : Os} {direction : SplitDirection} {cols rows : UInt16}
  {result : Except ServiceError Unit}

/-! ### Snapshots -/

theorem utf8ByteSize_suffixWithin (value : String) (maximum : Nat) :
    (suffixWithin value maximum).utf8ByteSize ≤ maximum := by
  induction maximum with
  | zero => simp [suffixWithin]
  | succ maximum ih =>
    rw [suffixWithin]
    split
    · rw [String.Slice.utf8ByteSize_copy, String.utf8ByteSize_sliceFrom]
      show value.utf8ByteSize - (value.utf8ByteSize - (maximum + 1)) ≤ maximum + 1
      omega
    · omega

theorem utf8ByteSize_truncateUtf8 (value : String) (maximum : Nat) :
    (truncateUtf8 value maximum).utf8ByteSize ≤ maximum := by
  rw [truncateUtf8]
  split
  · assumption
  · exact utf8ByteSize_suffixWithin value maximum

/-- A snapshot lists the panes of the layout, each with a text within the allowance. -/
theorem snapshotPanes_ok {allowance : Nat} {layout : List (PaneId × Rect)} {panes : List PaneSnapshot}
    (h : hosted.snapshotPanes allowance layout os = (.ok panes, os')) :
    panes.length = layout.length ∧ ∀ pane ∈ panes, pane.text.utf8ByteSize ≤ allowance := by
  induction layout generalizing os panes with
  | nil =>
    cases h
    exact ⟨rfl, nofun⟩
  | cons entry layout ih =>
    obtain ⟨pane, rect⟩ := entry
    simp only [snapshotPanes] at h
    split at h
    · cases h
    · split at h
      · cases h
      · next hrest =>
        cases h
        obtain ⟨hlen, htext⟩ := ih hrest
        exact ⟨by simp [hlen], List.forall_mem_cons.mpr ⟨utf8ByteSize_truncateUtf8 _ _, htext⟩⟩

theorem snapshotPanes_reliable (hosted : HostedSession) (h : os.Reliable) (allowance : Nat) (layout : List (PaneId × Rect)) :
    ∃ panes os', hosted.snapshotPanes allowance layout os = (.ok panes, os') ∧ os'.Reliable := by
  induction layout generalizing os with
  | nil => exact ⟨[], os, rfl, h⟩
  | cons entry layout ih =>
    obtain ⟨pane, rect⟩ := entry
    have htext : ∃ text os', hosted.paneText pane os = (.ok text, os') ∧ os'.Reliable := by
      unfold paneText
      split
      · exact ⟨_, _, rfl, h⟩
      · next runtime _ =>
        obtain ⟨text, os₁, ht, h₁⟩ := runtime.visibleText_reliable h
        simp only [ht]
        exact ⟨_, _, rfl, h₁⟩
    obtain ⟨text, os₁, ht, h₁⟩ := htext
    obtain ⟨panes, os₂, hp, h₂⟩ := ih h₁
    simp only [snapshotPanes, ht, hp]
    exact ⟨_, _, rfl, h₂⟩

theorem snapshot_reliable (h : os.Reliable) : ∃ panes os', hosted.snapshot os = (.ok (.screen panes), os') ∧
    os'.Reliable ∧ panes.length = hosted.session.panes.length ∧
      ∀ pane ∈ panes, pane.text.utf8ByteSize ≤ 6500 / max hosted.session.panes.length 1 := by
  obtain ⟨panes, os', hp, h'⟩ := snapshotPanes_reliable hosted h
    (6500 / max hosted.layout.length 1) hosted.layout
  have hlen : hosted.layout.length = hosted.session.panes.length := by
    rw [layout, Session.layout_eq, Session.panes_eq, ← Node.map_fst_rects, List.length_map]
  obtain ⟨hcount, htext⟩ := snapshotPanes_ok hp
  simp only [snapshot, hp]
  exact ⟨panes, os', rfl, h', hcount.trans hlen, hlen ▸ htext⟩

/-- The frame of a screen whose texts are bounded. -/
theorem frameLength_screen_le {panes : List PaneSnapshot} {allowance : Nat}
    (h : ∀ pane ∈ panes, pane.text.utf8ByteSize ≤ allowance) :
    (Response.screen panes).frameLength ≤ headerBytes + (1 + panes.length * (19 + allowance)) := by
  have hsum : (panes.map fun pane => 19 + (Utf8.bytes pane.text).length).sum ≤ panes.length * (19 + allowance) := by
    refine sum_map_le fun pane hp => ?_
    exact Nat.add_le_add_left (h pane hp) 19
  rw [Response.frameLength]
  omega

/-- Texts that share the budget of a screen fit in one frame. -/
theorem limits_screen {panes : List PaneSnapshot} (hcount : panes.length ≤ maxSnapshotPanes)
    (htext : ∀ pane ∈ panes, pane.text.utf8ByteSize ≤ 6500 / panes.length) : (Response.screen panes).Limits := by
  have hpanes : maxSnapshotPanes = 32 := rfl
  have hbudget : panes.length * (19 + 6500 / panes.length) ≤ 32 * 19 + 6500 := by
    rw [Nat.mul_add]
    exact Nat.add_le_add (Nat.mul_le_mul_right 19 (hpanes ▸ hcount)) (Nat.mul_div_le _ _)
  have hframe := frameLength_screen_le htext
  have hheader : headerBytes = 10 := rfl
  have hmax : maxFrameBytes = 8192 := rfl
  refine ⟨fun _ he => (by cases he), fun _ he => ?_, fun _ _ he => (by cases he), by omega⟩
  cases he
  exact hcount

/-- The screen of the session can be sent. -/
def Deliverable (s : HostedSession × Os) : Prop :=
  ∃ response os' bytes, s.1.snapshot s.2 = (.ok response, os') ∧ encodeResponse response = .ok bytes

/-- The screen of a session with few panes is sent. -/
theorem snapshot_sent (h : os.Reliable) (hcount : hosted.session.panes.length ≤ maxSnapshotPanes) :
    ∃ panes os' bytes, hosted.snapshot os = (.ok (.screen panes), os') ∧ os'.Reliable ∧
      encodeResponse (.screen panes) = .ok bytes := by
  obtain ⟨panes, os₁, hs, h₁, hlen, htext⟩ := hosted.snapshot_reliable h
  rw [max_eq_left hosted.session.length_panes_pos, ← hlen] at htext
  obtain ⟨bytes, he⟩ := (encodeResponse_isOk (.screen panes)).mpr (limits_screen (hlen ▸ hcount) htext)
  exact ⟨panes, os₁, bytes, hs, h₁, he⟩

theorem deliverable_iff (h : os.Reliable) :
    Deliverable (hosted, os) ↔ hosted.session.panes.length ≤ maxSnapshotPanes := by
  refine ⟨fun hd => ?_, fun hle => ?_⟩
  · obtain ⟨response, os', bytes, hs', he⟩ := hd
    obtain ⟨panes, os₁, hs, -, hlen, -⟩ := hosted.snapshot_reliable h
    rw [hs] at hs'
    cases hs'
    rw [← hlen]
    exact ((encodeResponse_isOk _).mp ⟨bytes, he⟩).panes panes rfl
  · obtain ⟨panes, os₁, bytes, hs, -, he⟩ := snapshot_sent h hle
    exact ⟨_, _, _, hs, he⟩

/-! ### Requests -/

theorem create_nextId {name : SessionName} (hc : create name os = (.ok hosted, os')) : hosted.session.nextId = 2 := by
  obtain ⟨-, panes, -, rfl⟩ := create_inv hc
  rfl

theorem create_reliable {name : SessionName} (h : os.Reliable) (hc : create name os = (.ok hosted, os')) :
    os'.Reliable ∧ hosted.session.panes.length = 1 := by
  obtain ⟨removed, panes, hr, rfl⟩ := create_inv hc
  obtain ⟨removed', panes', os₁, hrec, h₁⟩ := reconcile_reliable h PaneRegistry.new (Session.new name) (.new 24 80)
  rw [hr] at hrec
  cases hrec
  exact ⟨h₁, rfl⟩

theorem resize_reliable (h : os.Reliable) (hr : hosted.resize cols rows os = (result, hosted', os')) :
    os'.Reliable ∧ result = .ok () ∧ hosted'.session = hosted.session := by
  obtain ⟨outcome, panes, rfl, hres, rfl⟩ := resize_inv hr
  obtain ⟨panes', os₁, hres', h₁⟩ := resizeRuntimes_reliable h
    { hosted with viewport := (max cols 2, max rows 2), panes : HostedSession }.layout hosted.panes
  rw [hres] at hres'
  cases hres'
  exact ⟨h₁, rfl, rfl⟩

theorem input_reliable (h : os.Reliable) {bytes : List UInt8} (hi : hosted.input bytes os = (result, hosted', os')) :
    os'.Reliable ∧ hosted'.session = hosted.session := by
  unfold input at hi
  split at hi
  · cases hi
    exact ⟨h, rfl⟩
  · next runtime _ =>
    obtain ⟨runtime', os₁, hw, h₁⟩ := runtime.write_reliable h bytes
    simp only [hw] at hi
    cases hi
    exact ⟨h₁, rfl⟩

theorem split_reliable (ht : hosted.Tended) (h : os.Reliable)
    (hs : hosted.split direction os = some (result, hosted', os')) :
    os'.Reliable ∧ hosted'.session.panes.length = hosted.session.panes.length + 1 := by
  obtain ⟨id, candidate, hsplit, hcases⟩ := split_inv hs
  obtain ⟨removed, panes, os₁, hrec, h₁⟩ := reconcile_reliable h hosted.panes candidate (.new 2 2)
  rcases hcases with ⟨error, hrec', -⟩ | ⟨removed', panes', os₂, hrec', hres⟩
  · rw [hrec] at hrec'
    cases hrec'
  · rw [hrec] at hrec'
    cases hrec'
    obtain ⟨h₂, -, hsame⟩ := resize_reliable h₁ hres
    exact ⟨h₂, by rw [hsame, Session.length_panes_of_splitFocused ht.wf.focused hsplit]⟩

/-- While identifiers last, a split starts a pane. -/
theorem exists_split (ht : hosted.Tended) (h : os.Reliable) (hid : hosted.session.nextId.toNat + 1 < 2 ^ 64)
    (direction : SplitDirection) : ∃ hosted' os', hosted.split direction os = some (.ok (), hosted', os') ∧
      hosted'.session.nextId.toNat = hosted.session.nextId.toNat + 1 := by
  obtain ⟨id, candidate, hsplit⟩ := Session.splitFocused_isSome direction hid
  obtain ⟨removed, panes, os₁, hrec, h₁⟩ := reconcile_reliable h hosted.panes candidate (.new 2 2)
  rcases hres : { hosted with panes, session := candidate : HostedSession }.resize hosted.viewport.1
    hosted.viewport.2 os₁ with ⟨result, hosted', os'⟩
  obtain ⟨-, rfl, hsame⟩ := resize_reliable h₁ hres
  have hnext := (Session.splitFocused_inv ht.wf.focused hsplit).2.2.1
  refine ⟨hosted', os', ?_, by rw [hsame, hnext]⟩
  simp only [split, hsplit, hrec, Option.bind_eq_bind, Option.bind_some, hres, Option.pure_def]

theorem close_reliable (h : os.Reliable) (hc : hosted.close os = some (result, hosted', os')) :
    os'.Reliable ∧ hosted'.session.panes.length ≤ hosted.session.panes.length := by
  rcases close_inv hc with ⟨-, -, rfl, -, rfl⟩ | ⟨session, outcome, panes, os₁, hs, hrec, rfl, hend⟩
  · exact ⟨h, le_rfl⟩
  · obtain ⟨removed, panes', os₂, hrec', h₂⟩ := reconcile_reliable h hosted.panes session (.new 2 2)
    rw [hrec] at hrec'
    cases hrec'
    rcases hend with ⟨_, ⟨⟩, -⟩ | ⟨_, ended, ⟨⟩, hend, -⟩
    obtain ⟨os₃, hend', h₃⟩ := terminateRuntimes_reliable h₂ removed
    rw [hend] at hend'
    cases hend'
    rw [Session.panes_of_closeFocused hs]
    exact ⟨h₃, List.length_filter_le _ _⟩

theorem thenSnapshot_reliable {reply : Except ServiceError Response} {hosted₁ : HostedSession} {os₁ : Os}
    (h : os₁.Reliable) (he : thenSnapshot (result, hosted₁, os₁) = (reply, hosted', os')) :
    hosted₁ = hosted' ∧ os'.Reliable := by
  cases result with
  | error error =>
    cases he
    exact ⟨rfl, h⟩
  | ok =>
    obtain ⟨panes, os₂, hs, h₂, -⟩ := hosted₁.snapshot_reliable h
    simp only [thenSnapshot, hs] at he
    cases he
    exact ⟨rfl, h₂⟩

theorem command_reliable (ht : hosted.Tended) (h : os.Reliable) {code : UInt8}
    (hc : hosted.command code os = some (result, hosted', os')) :
    os'.Reliable ∧
      (code = 1 ∨ code = 2 → hosted'.session.panes.length = hosted.session.panes.length + 1) ∧
      (¬(code = 1 ∨ code = 2) → hosted'.session.panes.length ≤ hosted.session.panes.length) := by
  unfold command at hc
  split at hc
  · obtain ⟨h', hlen⟩ := split_reliable ht h hc
    exact ⟨h', fun _ => hlen, fun hn => absurd (Or.inl rfl) hn⟩
  · obtain ⟨h', hlen⟩ := split_reliable ht h hc
    exact ⟨h', fun _ => hlen, fun hn => absurd (Or.inr rfl) hn⟩
  · obtain ⟨session, hf, hc⟩ := Option.bind_eq_some_iff.mp hc
    obtain ⟨focused, -, rfl⟩ := Session.focusNext_inv hf
    cases hc
    exact ⟨h, fun hs => absurd hs (by decide), fun _ => le_rfl⟩
  · obtain ⟨h', hlen⟩ := close_reliable h hc
    exact ⟨h', fun hs => absurd hs (by decide), fun _ => hlen⟩
  · next hone htwo _ _ =>
    cases hc
    exact ⟨h, fun hs => (hs.elim hone htwo).elim, fun _ => le_rfl⟩

/-- A request to split the focused pane. -/
def Splits (request : Request) : Prop := request = .command 1 ∨ request = .command 2

/-- The number of panes grows by one at a request to split and by no other. -/
theorem respond_reliable (ht : hosted.Tended) (h : os.Reliable) {request : Request}
    {reply : Except ServiceError Response} (hr : hosted.respond request os = some (reply, hosted', os')) :
    os'.Reliable ∧
      (Splits request → hosted'.session.panes.length = hosted.session.panes.length + 1) ∧
      (¬Splits request → hosted'.session.panes.length ≤ hosted.session.panes.length) := by
  cases request with
  | snapshot =>
    obtain ⟨panes, os₁, hs, h₁, -⟩ := hosted.snapshot_reliable h
    simp only [respond, hs] at hr
    cases hr
    exact ⟨h₁, nofun, fun _ => le_rfl⟩
  | input bytes =>
    have he := Option.some.inj hr
    rcases hi : hosted.input bytes os with ⟨result, hosted₁, os₁⟩
    rw [hi] at he
    obtain ⟨h₁, hsame⟩ := input_reliable h hi
    obtain ⟨rfl, h'⟩ := thenSnapshot_reliable h₁ he
    rw [hsame]
    exact ⟨h', nofun, fun _ => le_rfl⟩
  | resize cols rows =>
    have he := Option.some.inj hr
    rcases hres : hosted.resize cols rows os with ⟨result, hosted₁, os₁⟩
    rw [hres] at he
    obtain ⟨h₁, -, hsame⟩ := resize_reliable h hres
    obtain ⟨rfl, h'⟩ := thenSnapshot_reliable h₁ he
    rw [hsame]
    exact ⟨h', nofun, fun _ => le_rfl⟩
  | command code =>
    obtain ⟨⟨result, hosted₁, os₁⟩, hc, he⟩ := Option.map_eq_some_iff.mp hr
    obtain ⟨h₁, hsplit, hother⟩ := command_reliable ht h hc
    obtain ⟨rfl, h'⟩ := thenSnapshot_reliable h₁ he
    -- Only a split adds a pane.
    have hsplits : Splits (.command code) ↔ code = 1 ∨ code = 2 := by simp [Splits]
    rw [hsplits]
    exact ⟨h', hsplit, hother⟩
  | create | list | attach | detach | ping =>
    cases hr
    exact ⟨h, nofun, fun _ => le_rfl⟩

/-! ### Runs of requests -/

/-- The session after a request, whatever the reply. -/
def serve (s : HostedSession × Os) (request : Request) : Option (HostedSession × Os) :=
  (s.1.respond request s.2).map (·.2)

/-- A run of requests to split adds a pane for each of them. -/
theorem run_splits (ht : hosted.Tended) (h : os.Reliable) (n : Nat) (hid : hosted.session.nextId.toNat + n < 2 ^ 64) :
    ∃ last, run serve (hosted, os) (List.replicate n (.command 1)) = some last ∧ last.2.Reliable ∧
      last.1.session.panes.length = hosted.session.panes.length + n := by
  induction n generalizing hosted os with
  | zero => exact ⟨_, rfl, h, rfl⟩
  | succ n ih =>
    obtain ⟨hosted₁, os₁, hs, hnext⟩ := exists_split ht h (by omega) .horizontal
    obtain ⟨h₁, hlen⟩ := split_reliable ht h hs
    obtain ⟨panes, os₂, hsnap, h₂, -⟩ := hosted₁.snapshot_reliable h₁
    have hserve : serve (hosted, os) (.command 1) = some (hosted₁, os₂) := by
      simp only [serve, respond, command, hs, Option.map_eq_map, Option.map_some, thenSnapshot, hsnap]
    obtain ⟨last, hr, hlast, hcount⟩ := ih (ht.split hs) h₂ (by omega)
    exact ⟨last, run_cons_eq_some.mpr ⟨_, hserve, hr⟩, hlast, by omega⟩

/-- The pane limit of a screen is not exceeded by a split. -/
def HasRoom (s : HostedSession × Os) (request : Request) : Prop :=
  Splits request → s.1.session.panes.length < maxSnapshotPanes

/-- With every PTY operation succeeding, the screen of a session can be sent all along a run of requests
    exactly when no split arrives while the session has as many panes as a screen admits. -/
theorem deliverable_throughout {name : SessionName} {os₀ : Os} (h : os₀.Reliable)
    (hc : create name os₀ = (.ok hosted, os)) {requests : List Request} {last : HostedSession × Os}
    (hr : run serve (hosted, os) requests = some last) :
    Throughout serve Deliverable (hosted, os) requests ↔ Along serve HasRoom (hosted, os) requests := by
  have hos : os.Reliable ∧ hosted.session.panes.length = 1 := create_reliable h hc
  have keep : ∀ (s : HostedSession × Os) (request : Request) (t : HostedSession × Os),
      s.1.Tended ∧ s.2.Reliable → serve s request = some t → t.1.Tended ∧ t.2.Reliable := by
    intro s request t h hs
    obtain ⟨ht, h⟩ := h
    obtain ⟨⟨reply, hosted', os'⟩, hr, rfl⟩ := Option.map_eq_some_iff.mp hs
    exact ⟨ht.respond hr, (respond_reliable ht h hr).1⟩
  refine throughout_iff_along keep ?_ ⟨Tended.create hc, hos.1⟩ ?_ hr
  · intro s request t h hP hs
    obtain ⟨ht, h⟩ := h
    obtain ⟨⟨reply, hosted', os'⟩, hr, rfl⟩ := Option.map_eq_some_iff.mp hs
    obtain ⟨h', hsplit, hother⟩ := respond_reliable ht h hr
    have hfew := (deliverable_iff h).mp hP
    rw [deliverable_iff h', HasRoom]
    by_cases hsp : Splits request
    · simp only [hsp, forall_const, hsplit hsp, Nat.succ_le_iff]
    · exact ⟨fun _ hsp' => absurd hsp' hsp, fun _ => (hother hsp).trans hfew⟩
  · rw [deliverable_iff hos.1, hos.2]
    decide

theorem deliverable_throughout_split : ∃ hosted os,
    create .work ⟨0, [], []⟩ = (.ok hosted, os) ∧
    Throughout serve Deliverable (hosted, os) [.command 1] := by
  obtain ⟨hosted, os, hc⟩ : ∃ hosted os,
      create .work ⟨0, [], []⟩ = (.ok hosted, os) := ⟨_, _, rfl⟩
  have quiet : Os.Reliable ⟨0, [], []⟩ := fun _ h => absurd h List.not_mem_nil
  obtain ⟨hrel, hlen⟩ := create_reliable quiet hc
  obtain ⟨last, hr, -⟩ := run_splits (Tended.create hc) hrel 1 (by rw [create_nextId hc]; decide)
  refine ⟨hosted, os, hc, (deliverable_throughout quiet hc hr).mpr ?_⟩
  refine along_cons.mpr ⟨fun _ => ?_, fun _ _ => along_nil⟩
  rw [hlen]
  decide

/-- After 32 splits there are 33 panes, and the screen is refused. -/
theorem deliverable_fails : ∃ hosted os last,
    create .work ⟨0, [], []⟩ = (.ok hosted, os) ∧
    run serve (hosted, os) (List.replicate 32 (.command 1)) = some last ∧ ¬Deliverable last := by
  obtain ⟨hosted, os, hc⟩ : ∃ hosted os,
      create .work ⟨0, [], []⟩ = (.ok hosted, os) := ⟨_, _, rfl⟩
  have quiet : Os.Reliable ⟨0, [], []⟩ := fun _ h => absurd h List.not_mem_nil
  obtain ⟨hrel, hlen⟩ := create_reliable quiet hc
  obtain ⟨last, hr, hlast, hcount⟩ := run_splits (Tended.create hc) hrel 32 (by rw [create_nextId hc]; decide)
  refine ⟨hosted, os, last, hc, hr, ?_⟩
  rw [deliverable_iff hlast, hcount, hlen]
  decide

end NovaMux.HostedSession

import NovaMux.Theorems.SessionRuns
import NovaMux.Theorems.Runtimes
import NovaMux.Theorems.Routing
import NovaMux.Core.Protocol
import NovaMux.Runtime.EventLoop

/-! What both event loops implement: a session, the bytes that each of its panes has been sent and the state
    of the keyboard, driven by the events of a terminal. Which process holds the shells, and how it is told
    what to do with them, is left open. -/

namespace NovaMux

/-! ### Bytes sent to panes -/

/-- The bytes that have been sent to each pane with a shell. -/
abbrev Written := PaneId → Option (List UInt8)

namespace Written

/-- The panes of the session keep what they have been sent; a new one has been sent nothing. -/
def kept (written : Written) (session : Session) : Written := fun pane =>
  if pane ∈ session.panes then some ((written pane).getD []) else none

def append (written : Written) (pane : PaneId) (bytes : List UInt8) : Written := fun other =>
  if other = pane then (written other).map (· ++ bytes) else written other

theorem kept_eq {written : Written} {session : Session} (h : ∀ pane, (written pane).isSome ↔ pane ∈ session.panes) :
    written.kept session = written := by
  funext pane
  unfold kept
  split
  · next hp =>
    obtain ⟨bytes, hb⟩ := Option.isSome_iff_exists.mp ((h pane).mpr hp)
    rw [hb]
    rfl
  · next hp => exact (Option.not_isSome_iff_eq_none.mp (mt (h pane).mp hp)).symm

end Written

def PaneRegistry.written (panes : PaneRegistry LivePty) : Written := fun pane => (panes.get pane).map LivePty.written

theorem PaneRegistry.written_new : PaneRegistry.written PaneRegistry.new = fun _ => none := by
  funext pane
  simp [PaneRegistry.written, PaneRegistry.new, PaneRegistry.get]

variable {session session' : Session} {panes panes' : PaneRegistry LivePty} {os os' : Os} {size : TerminalSize}

theorem Owned.kept_written (h : Owned session panes) : panes.written.kept session = panes.written := by
  refine Written.kept_eq fun pane => ?_
  rw [PaneRegistry.written, Option.isSome_map]
  exact h.owned pane

theorem creates_written {missing : List PaneId} {created : List (PaneId × LivePty)}
    (h : PaneRegistry.Creates (fun _ => LivePty.spawn size) missing os created os') :
    ∀ entry ∈ created, entry.2.written = [] := by
  induction h with
  | nil os => exact fun _ he => absurd he List.not_mem_nil
  | cons hspawn _ ih =>
    refine List.forall_mem_cons.mpr ⟨?_, ih⟩
    unfold LivePty.spawn at hspawn
    split at hspawn
    · cases hspawn
    · cases hspawn
      rfl

/-- The shells that a reconciliation starts have been sent nothing. -/
theorem written_reconcile {removed : List (PaneId × LivePty)}
    (hr : panes.reconcile session (fun _ => LivePty.spawn size) os = (.ok removed, panes', os')) :
    panes'.written = panes.written.kept session := by
  obtain ⟨missing, -, hmissing, ⟨created, os₁, removed₁, panes₁, hcreates, hrec, hexact⟩ |
      ⟨before, pane, after, created, os₁, error, os₂, -, -, -, hrec⟩⟩ :=
    panes.reconcile_exact session (fun _ => LivePty.spawn size) os
  · rw [hr] at hrec
    cases hrec
    funext pane
    simp only [PaneRegistry.written, Written.kept]
    split
    · next hp =>
      cases hbefore : panes.get pane with
      | some runtime =>
        rw [hexact.kept pane hp runtime hbefore]
        rfl
      | none =>
        have hin : pane ∈ created.map Prod.fst := hcreates.keys ▸ (hmissing pane).mpr ⟨hp, hbefore⟩
        obtain ⟨entry, hentry, rfl⟩ := List.mem_map.mp hin
        rw [hexact.created entry hentry, Option.map_some, creates_written hcreates entry hentry]
        rfl
    · next hp =>
      rw [Option.not_isSome_iff_eq_none.mp (mt (hexact.keys pane).mp hp)]
      rfl
  · rw [hr] at hrec
    cases hrec

theorem LivePty.resize_written (runtime : LivePty) (size : TerminalSize) (os : Os) :
    (runtime.resize size os).2.1.written = runtime.written := by
  unfold LivePty.resize
  split
  · rfl
  · simp only
    split <;> rfl

theorem written_resize {layout : List (PaneId × Rect)} {outcome : Except String Unit}
    (hr : resizeRuntimes layout panes os = (outcome, panes', os')) : panes'.written = panes.written := by
  funext pane
  have hmap := resizeRuntimes_map LivePty.resize_written layout panes os pane
  rw [hr] at hmap
  exact hmap

theorem written_set {pane : PaneId} {runtime : LivePty} (hget : panes.get pane = some runtime) (bytes : List UInt8) :
    (panes.set pane { runtime with written := runtime.written ++ bytes }).written = panes.written.append pane bytes := by
  funext other
  rw [PaneRegistry.written, PaneRegistry.get_set, Written.append, PaneRegistry.written]
  by_cases he : pane = other
  · rw [if_pos he, if_pos he.symm, ← he, hget]
    rfl
  · rw [if_neg he, if_neg (Ne.symm he)]

/-! ### Shells of a reliable system -/

theorem reconcile_succeeds (h : os.Reliable) (panes : PaneRegistry LivePty) (session : Session) (size : TerminalSize) :
    ∃ removed panes' os', panes.reconcile session (fun _ => LivePty.spawn size) os = (.ok removed, panes', os') ∧
      os'.Reliable ∧ panes'.written = panes.written.kept session := by
  obtain ⟨removed, panes', os', hr, h'⟩ := reconcile_reliable h panes session size
  exact ⟨removed, panes', os', hr, h', written_reconcile hr⟩

theorem resizeRuntimes_succeeds (h : os.Reliable) (layout : List (PaneId × Rect)) (panes : PaneRegistry LivePty) :
    ∃ panes' os', resizeRuntimes layout panes os = (.ok (), panes', os') ∧ os'.Reliable ∧
      panes'.written = panes.written := by
  obtain ⟨panes', os', hr, h'⟩ := resizeRuntimes_reliable h layout panes
  exact ⟨panes', os', hr, h', written_resize hr⟩

theorem write_succeeds (h : os.Reliable) (runtime : LivePty) (bytes : List UInt8) :
    ∃ os', runtime.write bytes os = (.ok (), { runtime with written := runtime.written ++ bytes }, os') ∧ os'.Reliable := by
  obtain ⟨os₁, ha, h₁⟩ := h.attempt
  exact ⟨os₁, by simp only [LivePty.write, ha], h₁⟩

/-! ### The multiplexer -/

theorem CopyMode.apply_active {mode : CopyMode} (h : mode.active = true) (action : CopyModeAction)
    (pageRows maximum : UInt64) : (mode.apply action pageRows maximum).active = decide (action ≠ .exit) := by
  cases action <;> simp [CopyMode.apply, h, CopyMode.exit]

structure Mux where
  session : Session
  size : UInt16 × UInt16
  written : Written
  router : InputRouter
  /-- Whether copy mode is active. -/
  copying : Bool
  status : Status

namespace Mux

/-- A shell is started for each new pane, and ended with its pane. -/
def perform (m : Mux) (op : SessionOp) : Option Mux := do
  let session ← m.session.step op
  some { m with session, written := m.written.kept session }

def command (m : Mux) : MultiplexerCommand → Option Mux
  | .splitHorizontal => m.perform (.splitFocused .horizontal)
  | .splitVertical => m.perform (.splitFocused .vertical)
  | .focusNext => m.perform .focusNext
  | .closeFocused => m.perform .closeFocused
  | .enterCopyMode => some { m with copying := true }
  | .detach | .quit => some { m with status := .left }

def act (m : Mux) : InputAction → Option Mux
  | .pending => some m
  | .forward bytes => some { m with written := m.written.append m.session.focused bytes }
  | .command command => m.command command

def byte (m : Mux) (byte : UInt8) : Option Mux :=
  { m with router := (m.router.route byte).2 }.act (m.router.route byte).1

/-- The bytes behind the command to leave are not looked at. -/
def keys : List UInt8 → Mux → Option Mux
  | [], m => some m
  | byte :: bytes, m => do
    let m ← m.byte byte
    if m.status = .running then keys bytes m else some m

def handle (m : Mux) : TerminalEvent → Option Mux
  | .key key =>
    if key.kind = .release then some m
    else if m.copying then some { m with copying := copyModeAction key ≠ some .exit }
    else m.keys (keyBytes key)
  | .resize cols rows => some { m with size := (cols, rows) }
  | .mouse | .other => some m

def step (m : Mux) (tick : Tick) : Option Mux :=
  if m.status = .running then tick.event.elim (some m) m.handle else none

def start (session : Session) (size : UInt16 × UInt16) : Mux where
  session := session
  size := size
  written := Written.kept (fun _ => none) session
  router := .new
  copying := false
  status := .running

variable {m t : Mux}

/-! ### What an event leaves alone -/

theorem perform_inv {op : SessionOp} (h : m.perform op = some t) :
    ∃ session, m.session.step op = some session ∧ t = { m with session, written := m.written.kept session } := by
  obtain ⟨session, hs, he⟩ := Option.bind_eq_some_iff.mp h
  exact ⟨session, hs, (Option.some.inj he).symm⟩

theorem command_size {command : MultiplexerCommand} (h : m.command command = some t) : t.size = m.size := by
  cases command with
  | splitHorizontal | splitVertical | focusNext | closeFocused =>
    obtain ⟨session, -, rfl⟩ := perform_inv h
    rfl
  | enterCopyMode | detach | quit =>
    cases h
    rfl

theorem byte_size {byte : UInt8} (h : m.byte byte = some t) : t.size = m.size := by
  unfold Mux.byte act at h
  split at h
  · cases h
    rfl
  · cases h
    rfl
  · have hsize := command_size h
    exact hsize

theorem keys_size {bytes : List UInt8} (h : m.keys bytes = some t) : t.size = m.size := by
  induction bytes generalizing m with
  | nil =>
    cases h
    rfl
  | cons byte bytes ih =>
    obtain ⟨u, hb, h⟩ := Option.bind_eq_some_iff.mp h
    split at h
    · exact (ih h).trans (byte_size hb)
    · cases h
      exact byte_size hb

/-- Only the event that tells the size of the terminal changes it. -/
theorem step_size {tick : Tick} (h : m.step tick = some t) : t.size = tick.sizeAfter m.size := by
  obtain ⟨event, exited, history⟩ := tick
  unfold Mux.step at h
  split at h
  · cases event with
    | none =>
      cases h
      rfl
    | some event =>
      cases event with
      | key key =>
        simp only [Option.elim_some, handle] at h
        split at h
        · cases h
          rfl
        · split at h
          · cases h
            rfl
          · exact keys_size h
      | resize | mouse | other =>
        cases h
        rfl
  · cases h

end Mux

/-! ### Keys of several bytes -/

/-- No command can end before the last of the bytes: there is only one, or none of them is the prefix and the
    first completes no command. -/
def Orderly (bytes : List UInt8) : Prop :=
  bytes.length ≤ 1 ∨ commandPrefix ∉ bytes ∧ ∀ byte ∈ bytes.head?, InputRouter.commandKey byte = none

theorem commandKey_eq_none {byte : UInt8} (h : 128 ≤ byte.toNat) : InputRouter.commandKey byte = none := by
  cases hk : InputRouter.commandKey byte with
  | none => rfl
  | some command =>
    rw [InputRouter.commandKey_eq_some.mp hk] at h
    cases command <;> exact absurd h (by decide)

theorem orderly_escape {bytes : List UInt8} (h : commandPrefix ∉ bytes) : Orderly (0x1b :: bytes) := by
  refine Or.inr ⟨fun hin => ?_, fun byte hb => ?_⟩
  · rcases List.mem_cons.mp hin with he | hin
    · exact absurd he (by decide)
    · exact h hin
  · obtain rfl := Option.some.inj hb
    rfl

theorem keyBytes_orderly (key : KeyEvent) : Orderly (keyBytes key) := by
  obtain ⟨code, control, kind⟩ := key
  cases code with
  | char character =>
    cases control with
    | true =>
      refine Or.inl ?_
      simp only [keyBytes, controlBytes, if_true]
      split <;> simp
    | false =>
      by_cases hc : character.val.toNat ≤ 127
      · refine Or.inl ?_
        simp [keyBytes, Utf8.encodeChar_of_le hc]
      · refine Or.inr ⟨fun hin => ?_, fun byte hb => ?_⟩
        · exact absurd (Utf8.ge_of_mem_encodeChar hc hin) (by decide)
        · exact commandKey_eq_none (Utf8.ge_of_mem_encodeChar hc (List.mem_of_mem_head? hb))
  | enter | tab | backspace | esc | pageUp | pageDown | other => exact Or.inl (by simp [keyBytes])
  | backTab | up | down | right | left | home | end_ | delete => exact orderly_escape (by decide)

namespace Mux

variable {m t : Mux}

/-- After each byte a screen has room for the panes. -/
def Roomy (m : Mux) : List UInt8 → Prop
  | [] => True
  | byte :: bytes => ∀ t, m.byte byte = some t → t.session.panes.length ≤ maxSnapshotPanes ∧ t.Roomy bytes

/-- A byte that completes no command is sent. -/
theorem byte_forward {byte : UInt8} (hb : byte ≠ commandPrefix)
    (hk : m.router.prefixPending = true → InputRouter.commandKey byte = none) (h : m.byte byte = some t) :
    t.session = m.session ∧ t.router.prefixPending = false := by
  obtain ⟨session, size, written, ⟨pending⟩, copying, status⟩ := m
  cases pending with
  | false =>
    simp only [Mux.byte, InputRouter.route_single hb] at h
    cases h
    exact ⟨rfl, rfl⟩
  | true =>
    simp only [Mux.byte, InputRouter.route_unknown (hk rfl)] at h
    cases h
    exact ⟨rfl, rfl⟩

theorem roomy_forward {bytes : List UInt8} (hp : commandPrefix ∉ bytes)
    (hk : m.router.prefixPending = true → ∀ byte ∈ bytes.head?, InputRouter.commandKey byte = none)
    (hm : m.session.panes.length ≤ maxSnapshotPanes) : m.Roomy bytes := by
  induction bytes generalizing m with
  | nil => trivial
  | cons byte bytes ih =>
    obtain ⟨hb, hp⟩ := not_or.mp (mt List.mem_cons.mpr hp)
    intro t ht
    obtain ⟨hsession, hrouter⟩ := byte_forward (Ne.symm hb) (fun hpending => hk hpending byte rfl) ht
    have hroom : t.session.panes.length ≤ maxSnapshotPanes := hsession ▸ hm
    refine ⟨hroom, ih hp (fun hpending => ?_) hroom⟩
    rw [hrouter] at hpending
    cases hpending

/-- A key leaves room after each of its bytes when it leaves room at its end. -/
theorem roomy_of_orderly {bytes : List UInt8} (ho : Orderly bytes) (hm : m.session.panes.length ≤ maxSnapshotPanes)
    (hend : ∀ t, m.keys bytes = some t → t.session.panes.length ≤ maxSnapshotPanes) : m.Roomy bytes := by
  rcases ho with hone | ⟨hp, hk⟩
  · cases bytes with
    | nil => trivial
    | cons byte bytes =>
      obtain rfl : bytes = [] := by simpa using hone
      intro t ht
      refine ⟨hend t ?_, trivial⟩
      simp [Mux.keys, ht]
  · exact roomy_forward hp (fun _ => hk) hm

/-! ### Progress -/

theorem perform_isSome (hw : m.session.Wf) (hid : m.session.nextId.toNat + 1 < 2 ^ 64) (op : SessionOp) :
    ∃ t, m.perform op = some t := by
  have hsplits : splits [op] ≤ 1 := List.countP_le_length
  obtain ⟨session, hs⟩ := Session.step_isSome hw op (by omega)
  exact ⟨{ m with session, written := m.written.kept session }, by simp [perform, hs]⟩

theorem command_isSome (hw : m.session.Wf) (hid : m.session.nextId.toNat + 1 < 2 ^ 64) (command : MultiplexerCommand) :
    ∃ t, m.command command = some t := by
  cases command with
  | splitHorizontal | splitVertical | focusNext | closeFocused => exact perform_isSome hw hid _
  | enterCopyMode | detach | quit => exact ⟨_, rfl⟩

theorem byte_isSome (hw : m.session.Wf) (hid : m.session.nextId.toNat + 1 < 2 ^ 64) (byte : UInt8) :
    ∃ t, m.byte byte = some t := by
  unfold Mux.byte act
  split
  · exact ⟨_, rfl⟩
  · exact ⟨_, rfl⟩
  · next command _ =>
    have routed : ({ m with router := (m.router.route byte).2 } : Mux).session.Wf := hw
    exact command_isSome routed hid command

theorem keys_isSome_forward {bytes : List UInt8} (hp : commandPrefix ∉ bytes)
    (hk : m.router.prefixPending = true → ∀ byte ∈ bytes.head?, InputRouter.commandKey byte = none)
    (hw : m.session.Wf) (hid : m.session.nextId.toNat + 1 < 2 ^ 64) : ∃ t, m.keys bytes = some t := by
  induction bytes generalizing m with
  | nil => exact ⟨m, rfl⟩
  | cons byte bytes ih =>
    obtain ⟨hb, hp⟩ := not_or.mp (mt List.mem_cons.mpr hp)
    obtain ⟨t, ht⟩ := byte_isSome hw hid byte
    obtain ⟨hsession, hrouter⟩ := byte_forward (Ne.symm hb) (fun hpending => hk hpending byte rfl) ht
    simp only [Mux.keys, ht, Option.bind_eq_bind, Option.bind_some]
    split
    · refine ih hp (fun hpending => ?_) (hsession ▸ hw) (hsession ▸ hid)
      rw [hrouter] at hpending
      cases hpending
    · exact ⟨t, rfl⟩

/-- As long as there are identifiers, a multiplexer that is running handles every event. -/
theorem step_isSome (hw : m.session.Wf) (hm : m.status = .running) (hid : m.session.nextId.toNat + 1 < 2 ^ 64)
    (tick : Tick) : ∃ t, m.step tick = some t := by
  rw [Mux.step, if_pos hm]
  cases tick.event with
  | none => exact ⟨m, rfl⟩
  | some event =>
    cases event with
    | key key =>
      simp only [Option.elim_some, handle]
      split
      · exact ⟨m, rfl⟩
      · split
        · exact ⟨_, rfl⟩
        · rcases keyBytes_orderly key with hone | ⟨hp, hk⟩
          · cases hbytes : keyBytes key with
            | nil => exact ⟨m, rfl⟩
            | cons byte bytes =>
              obtain rfl : bytes = [] := by simpa [hbytes] using hone
              obtain ⟨t, ht⟩ := byte_isSome hw hid byte
              exact ⟨t, by simp [Mux.keys, ht]⟩
          · exact keys_isSome_forward hp (fun _ => hk) hw hid
    | resize | mouse | other => exact ⟨_, rfl⟩

end Mux

end NovaMux

import NovaMux.Theorems.Resources
import NovaMux.Theorems.Exits
import NovaMux.Theorems.Screens

/-! What is typed at the local client reaches the shells. Which bytes are forwarded follows from the events alone; each
    of them goes to the one shell that is focused at the time, in order, whatever is split, closed, resized or refused
    meanwhile; only a key that dismisses the idle screen is not forwarded. Shells are told apart by their numbers. -/

namespace NovaMux

open Machine

/-! ### The keyboard -/

/-- What decides between forwarding a key and taking it for a command. -/
structure Keyboard where
  router : InputRouter
  /-- Whether copy mode is active. -/
  copying : Bool
deriving DecidableEq, Repr

namespace Keyboard

def new : Keyboard := ⟨.new, false⟩

/-- What a byte sends to the focused pane, whether it makes the client leave, and the keyboard behind it. -/
def byte (keyboard : Keyboard) (byte : UInt8) : List UInt8 × Bool × Keyboard :=
  let (action, router) := keyboard.router.route byte
  match action with
  | .pending => ([], false, { keyboard with router })
  | .forward bytes => (bytes, false, { keyboard with router })
  | .command command =>
    ([], command = .detach ∨ command = .quit, ⟨router, keyboard.copying ∨ command = .enterCopyMode⟩)

def keys : List UInt8 → Keyboard → List UInt8 × Bool × Keyboard
  | [], keyboard => ([], false, keyboard)
  | byte :: bytes, keyboard =>
    match keyboard.byte byte with
    | (sent, true, keyboard) => (sent, true, keyboard)
    | (sent, false, keyboard) =>
      let (rest, leave, keyboard) := keys bytes keyboard
      (sent ++ rest, leave, keyboard)

def event (keyboard : Keyboard) : Option TerminalEvent → List UInt8 × Bool × Keyboard
  | some (.key key) =>
    if key.kind = .release then ([], false, keyboard)
    else if keyboard.copying then ([], false, { keyboard with copying := copyModeAction key ≠ some .exit })
    else keys (keyBytes key) keyboard
  | _ => ([], false, keyboard)

/-- All that the events of the rounds send. -/
def typed (keyboard : Keyboard) : List Tick → List UInt8
  | [] => []
  | tick :: ticks => (keyboard.event tick.event).1 ++ typed (keyboard.event tick.event).2.2 ticks

end Keyboard

/-! ### Bytes sent to shells -/

/-- The bytes that each shell has been sent, by its number. -/
abbrev Received := Nat → List UInt8

/-- The bytes of a list of deliveries that are for a shell. -/
def Received.part (ledger : List (Option Nat × List UInt8)) : Received := fun shell =>
  (ledger.filter fun entry => entry.1 = some shell).flatMap Prod.snd

def Received.post (sent : Received) (shell : Nat) (bytes : List UInt8) : Received := fun other =>
  sent other ++ if other = shell then bytes else []

theorem Received.part_cons (shell : Nat) (bytes : List UInt8) (ledger : List (Option Nat × List UInt8)) (other : Nat) :
    Received.part ((some shell, bytes) :: ledger) other = (if other = shell then bytes else []) ++ Received.part ledger other := by
  by_cases he : other = shell
  · simp [Received.part, he]
  · simp [Received.part, he, Ne.symm he]

variable {sent : Received} {panes panes' : PaneRegistry LivePty} {os os' : Os} {session : Session} {size : TerminalSize}

theorem Received.post_post (sent : Received) (shell : Nat) (bytes rest : List UInt8) :
    (sent.post shell bytes).post shell rest = sent.post shell (bytes ++ rest) := by
  funext other
  simp only [Received.post, List.append_assoc]
  split <;> rfl

@[simp] theorem Received.post_nil (sent : Received) (shell : Nat) : sent.post shell [] = sent := by
  funext other
  simp [Received.post]

theorem Received.post_self (sent : Received) (shell : Nat) (bytes : List UInt8) : sent.post shell bytes shell = sent shell ++ bytes := by
  simp [Received.post]

theorem Received.post_of_ne {other shell : Nat} (h : other ≠ shell) (sent : Received) (bytes : List UInt8) :
    sent.post shell bytes other = sent other := by
  simp [Received.post, h]

/-- Each shell of a registry has been sent its bytes, and the shells to come have been sent none. -/
structure Received.Held (sent : Received) (panes : PaneRegistry LivePty) (os : Os) : Prop where
  written : ∀ pane runtime, panes.get pane = some runtime → runtime.written = sent runtime.child
  fresh : ∀ shell, os.spawned ≤ shell → sent shell = []

/-- No shell has been sent anything but a first part of its bytes. -/
def Received.Cut (sent : Received) (panes : PaneRegistry LivePty) : Prop :=
  ∀ pane runtime, panes.get pane = some runtime → runtime.written <+: sent runtime.child

theorem Received.Held.cut (h : sent.Held panes os) : sent.Cut panes := fun pane runtime hget => by
  rw [h.written pane runtime hget]

theorem Received.Cut.post (h : sent.Cut panes) (shell : Nat) (bytes : List UInt8) : (sent.post shell bytes).Cut panes :=
  fun pane runtime hget => (h pane runtime hget).trans (List.prefix_append _ _)

/-- Shells that stay keep their bytes, and new ones have been sent nothing. -/
structure Grown (panes : PaneRegistry LivePty) (os : Os) (panes' : PaneRegistry LivePty) (os' : Os) : Prop where
  spawned : os.spawned ≤ os'.spawned
  kept : ∀ pane runtime, panes'.get pane = some runtime →
    (∃ before, panes.get pane = some before ∧ before.child = runtime.child ∧ before.written = runtime.written) ∨
      os.spawned ≤ runtime.child ∧ runtime.written = []

theorem Grown.of_le (hle : os.spawned ≤ os'.spawned) : Grown panes os panes os' :=
  ⟨hle, fun _ runtime hget => Or.inl ⟨runtime, hget, rfl, rfl⟩⟩

theorem Grown.trans {panes'' : PaneRegistry LivePty} {os'' : Os} (h : Grown panes os panes' os')
    (h' : Grown panes' os' panes'' os'') : Grown panes os panes'' os'' := by
  refine ⟨h.spawned.trans h'.spawned, fun pane runtime hget => ?_⟩
  rcases h'.kept pane runtime hget with ⟨middle, hmiddle, hchild, hwritten⟩ | ⟨hnew, hnone⟩
  · rw [← hchild, ← hwritten]
    exact h.kept pane middle hmiddle
  · exact Or.inr ⟨h.spawned.trans hnew, hnone⟩

theorem Grown.resize {layout : List (PaneId × Rect)} {outcome : Except String Unit}
    (hr : resizeRuntimes layout panes os = (outcome, panes', os')) : Grown panes os panes' os' := by
  have hspawned := resizeRuntimes_spawned layout panes os
  rw [hr] at hspawned
  refine ⟨hspawned.ge, fun pane runtime hget => Or.inl ?_⟩
  have hmap := resizeRuntimes_map (f := fun runtime => (runtime.child, runtime.written))
    (fun runtime size os => Prod.ext (runtime.resize_child size os).1 (runtime.resize_written size os)) layout panes os pane
  rw [hr, hget] at hmap
  obtain ⟨before, hbefore, he⟩ := Option.map_eq_some_iff.mp hmap.symm
  exact ⟨before, hbefore, congrArg Prod.fst he, congrArg Prod.snd he⟩

/-- A reconciliation starts shells, and sends nothing. -/
theorem Grown.reconcile {outcome : Except String (List (PaneId × LivePty))}
    (hr : panes.reconcile session (fun _ => LivePty.spawn size) os = (outcome, panes', os')) : Grown panes os panes' os' := by
  have hle := reconcile_spawned hr
  obtain ⟨missing, -, hmissing, ⟨created, os₁, removed, panes₁, hcreates, hrec, hexact⟩ |
      ⟨-, -, -, -, -, error, os₁, -, -, -, hrec⟩⟩ := panes.reconcile_exact session (fun _ => LivePty.spawn size) os
  · rw [hr] at hrec
    cases hrec
    refine ⟨hle, fun pane runtime hget => ?_⟩
    have hp := (hexact.keys pane).mp (by rw [hget]; rfl)
    cases hbefore : panes.get pane with
    | some before =>
      rw [hexact.kept pane hp before hbefore] at hget
      obtain rfl := Option.some.inj hget
      exact Or.inl ⟨_, rfl, rfl, rfl⟩
    | none =>
      have hin : pane ∈ created.map Prod.fst := hcreates.keys ▸ (hmissing pane).mpr ⟨hp, hbefore⟩
      obtain ⟨entry, hentry, rfl⟩ := List.mem_map.mp hin
      rw [hexact.created entry hentry] at hget
      obtain rfl := Option.some.inj hget
      exact Or.inr ⟨((creates_spawn hcreates).2.1 entry hentry).1, creates_written hcreates entry hentry⟩
  · rw [hr] at hrec
    cases hrec
    exact Grown.of_le hle

theorem Grown.terminate (h : Grown panes os panes' os') (removed : List (PaneId × LivePty)) :
    Grown panes os panes' (terminateRuntimes removed os').2 :=
  h.trans (Grown.of_le (terminateRuntimes_spawned removed os').ge)

theorem Received.Held.grown (h : sent.Held panes os) (hg : Grown panes os panes' os') : sent.Held panes' os' := by
  refine ⟨fun pane runtime hget => ?_, fun shell hs => h.fresh shell (hg.spawned.trans hs)⟩
  rcases hg.kept pane runtime hget with ⟨before, hbefore, hchild, hwritten⟩ | ⟨hnew, hnone⟩
  · rw [← hwritten, ← hchild]
    exact h.written pane before hbefore
  · rw [hnone, h.fresh _ hnew]

/-- Writing to a shell sends to no other. -/
theorem Received.Held.write (h : sent.Held panes os) (hn : Numbered panes os) {pane : PaneId} {runtime : LivePty}
    (hget : panes.get pane = some runtime) (bytes : List UInt8) :
    (sent.post runtime.child bytes).Held (panes.set pane { runtime with written := runtime.written ++ bytes }) os := by
  refine ⟨fun other runtime' hget' => ?_, fun shell hs => ?_⟩
  · rw [PaneRegistry.get_set] at hget'
    split at hget'
    · obtain rfl := Option.some.inj hget'
      rw [Received.post_self, ← h.written pane runtime hget]
    · next hne =>
      rw [Received.post_of_ne fun he => hne (hn.distinct _ _ _ _ hget hget' he.symm)]
      exact h.written other runtime' hget'
  · have hne : shell ≠ runtime.child := fun he => (hn.started pane runtime hget).not_ge (he ▸ hs)
    rw [Received.post_of_ne hne]
    exact h.fresh shell hs

theorem Tracked.write (h : Tracked session panes os) {pane : PaneId} {runtime : LivePty}
    (hget : panes.get pane = some runtime) (bytes : List UInt8) :
    Tracked session (panes.set pane { runtime with written := runtime.written ++ bytes }) os := by
  have before : ∀ other runtime', (panes.set pane { runtime with written := runtime.written ++ bytes }).get other =
      some runtime' → ∃ kept, panes.get other = some kept ∧ kept.child = runtime'.child := fun other runtime' hget' => by
    rw [PaneRegistry.get_set] at hget'
    split at hget'
    · next he =>
      obtain rfl := Option.some.inj hget'
      exact ⟨runtime, he ▸ hget, rfl⟩
    · exact ⟨runtime', hget', rfl⟩
  refine ⟨Owned.set h.tended ((h.tended.owned pane).mp (by rw [hget]; rfl)) _, fun other runtime' hget' => ?_,
    fun pane₁ pane₂ runtime₁ runtime₂ hget₁ hget₂ he => ?_⟩
  · obtain ⟨kept, hkept, hchild⟩ := before other runtime' hget'
    exact hchild ▸ h.numbered.started other kept hkept
  · obtain ⟨kept₁, hkept₁, hchild₁⟩ := before pane₁ runtime₁ hget₁
    obtain ⟨kept₂, hkept₂, hchild₂⟩ := before pane₂ runtime₂ hget₂
    exact h.numbered.distinct pane₁ pane₂ kept₁ kept₂ hkept₁ hkept₂ (by rw [hchild₁, hchild₂, he])

/-! ### What the operations of the local client send -/

namespace App

variable {app app' : App} {dims : UInt16 × UInt16} {result : Except String Unit}

def keyboard (app : App) : Keyboard := ⟨app.router, app.copyMode.active⟩

/-- Shells have been sent their bytes, and the keyboard is as it should be. -/
structure Posted (sent : Received) (keyboard : Keyboard) (s : App × Os) : Prop where
  follows : Follows s
  held : sent.Held s.1.panes s.2
  keyboard : s.1.keyboard = keyboard

variable {keyboard : Keyboard}

theorem Posted.resizePanes (h : Posted sent keyboard (app, os)) (hr : app.resizePanes dims os = (result, app', os')) :
    Posted sent keyboard (app', os') := by
  have hfollows := (h.follows.resizePanes hr).1
  obtain ⟨panes, rfl, hres⟩ := resizePanes_inv hr
  exact ⟨hfollows, h.held.grown (.resize hres), h.keyboard⟩

theorem Posted.resized (h : Posted sent keyboard (app, os)) (hr : app.resized dims os = (result, app', os')) :
    Posted sent keyboard (app', os') := by
  unfold App.resized at hr
  split at hr
  · next hres =>
    cases hr
    exact h.resizePanes hres
  · next hres =>
    cases hr
    obtain ⟨hfollows, hheld, hkeyboard⟩ := h.resizePanes hres
    exact ⟨hfollows, hheld, hkeyboard⟩

theorem Posted.split (h : Posted sent keyboard (app, os)) {direction : SplitDirection}
    (hs : app.split direction dims os = some (result, app', os')) : Posted sent keyboard (app', os') := by
  rcases split_inv hs with ⟨id, candidate, hsplit, ⟨error, hrec, -, rfl⟩ | ⟨removed, panes, os₁, hrec, hres⟩⟩
  · exact ⟨(h.follows.split hs).1, h.held.grown (.of_le (reconcile_spawned hrec)), h.keyboard⟩
  · have started : Posted sent keyboard ({ app with panes, session := candidate }, os₁) :=
      ⟨(Tracked.reconcile h.follows.numbered (h.follows.tended.wf.splitFocused hsplit) hrec).1, h.held.grown (.reconcile hrec),
        h.keyboard⟩
    exact started.resizePanes hres

theorem Posted.closeFocused (h : Posted sent keyboard (app, os)) (hc : app.closeFocused os = some (result, app', os')) :
    Posted sent keyboard (app', os') := by
  have hfollows := (h.follows.closeFocused hc).1
  rcases closeFocused_inv hc with ⟨-, -, rfl, -, rfl⟩ | ⟨session, outcome, panes, os₁, hs, hrec, rfl, hend⟩
  · exact h
  · refine ⟨hfollows, ?_, h.keyboard⟩
    rcases hend with ⟨_, -, -, rfl⟩ | ⟨removed, -, hend⟩
    · exact h.held.grown (.reconcile hrec)
    · have hgrown := (Grown.reconcile hrec).terminate removed
      rw [hend] at hgrown
      exact h.held.grown hgrown

theorem Posted.focusNext (h : Posted sent keyboard (app, os)) {session : Session} (hf : app.session.focusNext = some session) :
    Posted sent keyboard ({ app with session }, os) := ⟨Tracked.focusNext h.follows hf, h.held, h.keyboard⟩

/-- A command sends nothing. -/
theorem Posted.command (h : Posted sent keyboard (app, os)) {command : MultiplexerCommand} {reply : Except String Bool}
    (hc : app.command command dims os = some (reply, app', os')) :
    Posted sent ⟨keyboard.router, keyboard.copying ∨ command = .enterCopyMode⟩ (app', os') ∧
      ∀ leave, reply = .ok leave → leave = decide (command = .detach ∨ command = .quit) := by
  have stay : command ≠ .enterCopyMode →
      keyboard = ⟨keyboard.router, keyboard.copying ∨ command = .enterCopyMode⟩ := fun hne => by simp [hne]
  have plain : ∀ outcome : Except String Unit, ∀ leave, (fun _ => false) <$> outcome = .ok leave → leave = false := by
    intro outcome leave he
    cases outcome
    all_goals
      cases he
    rfl
  cases command with
  | splitHorizontal | splitVertical =>
    obtain ⟨⟨outcome, app₁, os₁⟩, hs, he⟩ := Option.bind_eq_some_iff.mp hc
    cases he
    rw [← stay (by simp)]
    exact ⟨h.split hs, fun leave he => by simpa using plain outcome leave he⟩
  | focusNext =>
    obtain ⟨session, hf, he⟩ := Option.bind_eq_some_iff.mp hc
    cases he
    rw [← stay (by simp)]
    exact ⟨h.focusNext hf, fun leave he => by simpa using he.symm⟩
  | closeFocused =>
    obtain ⟨⟨outcome, app₁, os₁⟩, hcl, he⟩ := Option.bind_eq_some_iff.mp hc
    cases he
    rw [← stay (by simp)]
    exact ⟨h.closeFocused hcl, fun leave he => by simpa using plain outcome leave he⟩
  | enterCopyMode =>
    cases hc
    exact ⟨⟨h.follows, h.held, by simp [App.keyboard, CopyMode.enter, ← h.keyboard]⟩, fun leave he => by simpa using he.symm⟩
  | detach | quit =>
    cases hc
    rw [← stay (by simp)]
    exact ⟨h, fun leave he => by simpa using he.symm⟩

/-- A new client has sent nothing. -/
theorem Posted.new (h : App.new dims os = (.ok app, os')) : Posted (fun _ => []) .new (app, os') := by
  have empty : Received.Held (fun _ => []) (PaneRegistry.new : PaneRegistry LivePty) os :=
    ⟨fun pane runtime hget => by simp [PaneRegistry.new, PaneRegistry.get] at hget, fun _ _ => rfl⟩
  simp only [App.new] at h
  split at h
  · cases h
  · next removed panes os₁ hrec =>
    split at h
    · cases h
    · next hr =>
      cases h
      refine Posted.resizePanes ⟨?_, empty.grown (.reconcile hrec), rfl⟩ hr
      exact Tracked.start (Session.Wf.new _) hrec

/-- The number of the shell of the focused pane. -/
def shell (app : App) : Option Nat := (app.panes.get app.session.focused).map LivePty.child

theorem Follows.shell (h : Follows (app, os)) : ∃ shell < os.spawned, app.shell = some shell := by
  obtain ⟨runtime, hget⟩ := Option.isSome_iff_exists.mp ((h.tended.owned _).mpr h.tended.wf.focused)
  exact ⟨runtime.child, h.numbered.started _ runtime hget, by rw [App.shell, hget]; rfl⟩

/-- What has come of bytes for a shell: they have been sent, or after a failure perhaps a first part of them. -/
structure Typed (sent : Received) (shell : Nat) (out : List UInt8 × Bool × Keyboard) (r : Except String Bool × App × Os) :
    Prop where
  ok : ∀ leave, r.1 = .ok leave → leave = out.2.1 ∧ Posted (sent.post shell out.1) out.2.2 r.2
  cut : (sent.post shell out.1).Cut r.2.1.panes

theorem Posted.forward (h : Posted sent keyboard (app, os)) {shell : Nat} (hshell : app.shell = some shell)
    {bytes : List UInt8} (hf : app.forward bytes os = (result, app', os')) :
    (result = .ok () → Posted (sent.post shell bytes) keyboard (app', os')) ∧ (sent.post shell bytes).Cut app'.panes ∧
      app'.session = app.session ∧ app'.shell = some shell := by
  obtain ⟨runtime, hget, rfl⟩ := Option.map_eq_some_iff.mp hshell
  -- A refused write leaves a first part of the bytes with the shell.
  have after : ∀ taken, taken <+: bytes →
      (sent.post runtime.child bytes).Cut (app.panes.set app.session.focused { runtime with written := runtime.written ++ taken }) ∧
        App.shell { app with panes := app.panes.set app.session.focused { runtime with written := runtime.written ++ taken } } =
          some runtime.child := by
    intro taken ⟨rest, hrest⟩
    refine ⟨?_, by simp [App.shell]⟩
    rw [← hrest, ← Received.post_post]
    exact (h.held.write h.follows.numbered hget taken).cut.post _ _
  have hattempt := os.attempt_spawned
  unfold App.forward at hf
  rw [hget] at hf
  simp only [LivePty.write] at hf
  split at hf
  · next hw =>
    split at hw
    · cases hw
      cases hf
      obtain ⟨hcut, hshell⟩ := after _ (List.take_prefix _ bytes)
      exact ⟨fun he => (by cases he), hcut, rfl, hshell⟩
    · cases hw
  · next hw =>
    split at hw
    · cases hw
    · next ha =>
      cases hw
      cases hf
      rw [ha] at hattempt
      obtain ⟨hcut, hshell⟩ := after bytes List.prefix_rfl
      have hwrite := h.held.write h.follows.numbered hget bytes
      exact ⟨fun _ => ⟨(Tracked.write h.follows hget bytes).later hattempt.ge, hwrite.grown (.of_le hattempt.ge), h.keyboard⟩, hcut, rfl,
        hshell⟩

theorem Posted.byte (h : Posted sent keyboard (app, os)) {shell : Nat} (hshell : app.shell = some shell) {byte : UInt8}
    {r : Except String Bool × App × Os} (hb : app.byte dims byte os = some r) :
    Typed sent shell (keyboard.byte byte) r := by
  obtain ⟨hfollows, hheld, hkeyboard⟩ := h
  subst hkeyboard
  have routed : Posted sent ⟨(app.router.route byte).2, app.copyMode.active⟩
      ({ app with router := (app.router.route byte).2 }, os) := ⟨hfollows, hheld, rfl⟩
  simp only [App.byte] at hb
  simp only [Keyboard.byte, App.keyboard]
  generalize (app.router.route byte).1 = action at hb ⊢
  cases action with
  | pending =>
    cases hb
    rw [← Received.post_nil sent shell] at hheld routed
    exact ⟨fun leave he => ⟨(Except.ok.inj he).symm, routed⟩, hheld.cut⟩
  | forward bytes =>
    rcases hf : App.forward { app with router := (app.router.route byte).2 } bytes os with ⟨result, app', os'⟩
    simp only [hf] at hb
    cases hb
    obtain ⟨hok, hcut, -⟩ := routed.forward hshell hf
    refine ⟨fun leave he => ?_, hcut⟩
    obtain ⟨_, hresult, rfl⟩ := Except.map_eq_ok.mp he
    exact ⟨rfl, hok hresult⟩
  | command command =>
    obtain ⟨result, app', os'⟩ := r
    obtain ⟨hposted, hleave⟩ := routed.command hb
    rw [← Received.post_nil sent shell] at hposted
    exact ⟨fun leave he => ⟨hleave leave he, hposted⟩, hposted.held.cut⟩

/-- Where a byte is forwarded, the focus stays. -/
theorem Posted.byte_shell (h : Posted sent keyboard (app, os)) {shell : Nat} (hshell : app.shell = some shell) {byte : UInt8}
    {bytes : List UInt8} (hroute : (keyboard.router.route byte).1 = .forward bytes) {reply : Except String Bool}
    (hb : app.byte dims byte os = some (reply, app', os')) : app'.shell = some shell := by
  obtain ⟨hfollows, hheld, hkeyboard⟩ := h
  subst hkeyboard
  have routed : Posted sent ⟨(app.router.route byte).2, app.copyMode.active⟩
      ({ app with router := (app.router.route byte).2 }, os) := ⟨hfollows, hheld, rfl⟩
  have hforward : (app.router.route byte).1 = .forward bytes := hroute
  simp only [App.byte, hforward] at hb
  cases hb
  exact (routed.forward hshell rfl).2.2.2

theorem Posted.keys_cons (h : Posted sent keyboard (app, os)) {shell : Nat} (hshell : app.shell = some shell) {byte : UInt8}
    {bytes : List UInt8} {r : Except String Bool × App × Os} (hk : keys dims (byte :: bytes) app os = some r)
    (hrest : ∀ app₁ os₁, app.byte dims byte os = some (.ok false, app₁, os₁) →
      Posted (sent.post shell (keyboard.byte byte).1) (keyboard.byte byte).2.2 (app₁, os₁) →
      keys dims bytes app₁ os₁ = some r →
      Typed (sent.post shell (keyboard.byte byte).1) shell (Keyboard.keys bytes (keyboard.byte byte).2.2) r) :
    Typed sent shell (keyboard.keys (byte :: bytes)) r := by
  obtain ⟨⟨result, app₁, os₁⟩, hb, hk⟩ := Option.bind_eq_some_iff.mp hk
  have first := h.byte hshell hb
  rw [Keyboard.keys]
  rcases hout : keyboard.byte byte with ⟨out, leave, next⟩
  rw [hout] at first hrest
  cases result with
  | error error =>
    cases hk
    refine ⟨fun _ he => (by cases he), ?_⟩
    cases leave with
    | true => exact first.cut
    | false =>
      have hcut := first.cut.post shell (Keyboard.keys bytes next).1
      rwa [Received.post_post] at hcut
  | ok left =>
    obtain ⟨rfl, hposted⟩ := first.ok left rfl
    cases left with
    | true =>
      cases hk
      exact first
    | false =>
      obtain ⟨hok, hcut⟩ := hrest app₁ os₁ hb hposted hk
      rw [Received.post_post] at hok hcut
      exact ⟨hok, hcut⟩

/-- Bytes that complete no command go to one shell. -/
theorem Posted.keys_forward (h : Posted sent keyboard (app, os)) {shell : Nat} (hshell : app.shell = some shell)
    {bytes : List UInt8} (hp : commandPrefix ∉ bytes)
    (hn : keyboard.router.prefixPending = true → ∀ byte ∈ bytes.head?, InputRouter.commandKey byte = none)
    {r : Except String Bool × App × Os} (hk : keys dims bytes app os = some r) :
    Typed sent shell (keyboard.keys bytes) r := by
  induction bytes generalizing app os sent keyboard with
  | nil =>
    cases hk
    rw [← Received.post_nil sent shell] at h
    exact ⟨fun leave he => ⟨(Except.ok.inj he).symm, h⟩, h.held.cut⟩
  | cons byte bytes ih =>
    obtain ⟨hb, hp⟩ := not_or.mp (mt List.mem_cons.mpr hp)
    obtain ⟨out, hroute⟩ : ∃ out, keyboard.router.route byte = (.forward out, ⟨false⟩) := by
      obtain ⟨⟨pending⟩, copying⟩ := keyboard
      cases pending with
      | false => exact ⟨_, InputRouter.route_single (Ne.symm hb)⟩
      | true => exact ⟨_, InputRouter.route_unknown (hn rfl byte rfl)⟩
    refine h.keys_cons hshell hk fun app₁ os₁ hbyte hposted hk => ?_
    have hshell₁ := h.byte_shell hshell (congrArg Prod.fst hroute) hbyte
    refine ih hposted hshell₁ hp (fun hpending => ?_) hk
    simp only [Keyboard.byte, hroute] at hpending
    cases hpending

theorem Posted.keys (h : Posted sent keyboard (app, os)) {shell : Nat} (hshell : app.shell = some shell) (key : KeyEvent)
    {r : Except String Bool × App × Os} (hk : keys dims (keyBytes key) app os = some r) :
    Typed sent shell (keyboard.keys (keyBytes key)) r := by
  rcases keyBytes_orderly key with hone | ⟨hp, hn⟩
  · generalize keyBytes key = bytes at hone hk ⊢
    cases bytes with
    | nil => exact h.keys_forward hshell (List.not_mem_nil) (fun _ _ hb => (by cases hb)) hk
    | cons byte bytes =>
      obtain rfl : bytes = [] := by simpa using hone
      refine h.keys_cons hshell hk fun app₁ os₁ _ hposted hk => ?_
      cases hk
      rw [← Received.post_nil (sent.post shell (keyboard.byte byte).1) shell] at hposted
      exact ⟨fun leave he => ⟨(Except.ok.inj he).symm, hposted⟩, hposted.held.cut⟩
  · exact h.keys_forward hshell hp (fun _ => hn) hk

/-! ### What a round sends -/

theorem Posted.navigateCopyMode (h : Posted sent keyboard (app, os)) (hc : keyboard.copying = true) {key : KeyEvent}
    {history : UInt64} (hn : app.navigateCopyMode key dims history os = (result, app', os')) :
    (result = .ok () → Posted sent { keyboard with copying := copyModeAction key ≠ some .exit } (app', os')) ∧
      sent.Cut app'.panes := by
  obtain ⟨hfollows, hheld, hkeyboard⟩ := h
  subst hkeyboard
  have hactive : app.copyMode.active = true := hc
  have hattempt := os.attempt_spawned
  unfold App.navigateCopyMode at hn
  split at hn
  · next haction =>
    cases hn
    refine ⟨fun _ => ⟨hfollows, hheld, ?_⟩, hheld.cut⟩
    simp [App.keyboard, hactive, haction]
  · next action haction =>
    simp only at hn
    split at hn
    · cases hn
      refine ⟨fun _ => ⟨hfollows, hheld, ?_⟩, hheld.cut⟩
      simp [App.keyboard, CopyMode.apply_active hactive, haction]
    · split at hn
      · cases hn
        exact ⟨fun he => (by cases he), hheld.cut⟩
      · next ha =>
        rw [ha] at hattempt
        cases hn
        refine ⟨fun _ => ⟨Tracked.later hfollows hattempt.ge, hheld.grown (.of_le hattempt.ge), ?_⟩, hheld.cut⟩
        simp [App.keyboard, CopyMode.apply_active hactive, haction]

/-- As `Typed`, for an event. -/
structure Heard (sent : Received) (shell : Nat) (out : List UInt8 × Bool × Keyboard) (r : Except String Flow × App × Os) :
    Prop where
  ok : ∀ flow, r.1 = .ok flow → (flow = .leave ↔ out.2.1 = true) ∧ Posted (sent.post shell out.1) out.2.2 r.2
  cut : (sent.post shell out.1).Cut r.2.1.panes

theorem Posted.quiet (h : Posted sent keyboard (app, os)) (shell : Nat) : Heard sent shell ([], false, keyboard) (.ok .proceed, app, os) := by
  rw [← Received.post_nil sent shell] at h
  refine ⟨fun flow he => ?_, h.held.cut⟩
  obtain rfl := Except.ok.inj he
  exact ⟨by simp, h⟩

theorem Posted.handle (h : Posted sent keyboard (app, os)) {shell : Nat} (hshell : app.shell = some shell)
    {event : TerminalEvent} {history : UInt64} {r : Except String Flow × App × Os}
    (he : app.handle dims event history os = some r) : Heard sent shell (keyboard.event (some event)) r := by
  have hcopying : app.copyMode.active = keyboard.copying := congrArg Keyboard.copying h.keyboard
  cases event with
  | key key =>
    simp only [App.handle, hcopying] at he
    simp only [Keyboard.event]
    split at he
    · next hrelease =>
      cases he
      rw [if_pos hrelease]
      exact h.quiet shell
    · next hrelease =>
      rw [if_neg hrelease]
      split at he
      -- In copy mode a key moves the viewport, and is not forwarded.
      · next hc =>
        rw [if_pos hc]
        rcases hn : app.navigateCopyMode key dims history os with ⟨result, app', os'⟩
        rw [hn] at he
        cases he
        obtain ⟨hok, hcut⟩ := h.navigateCopyMode hc hn
        rw [← Received.post_nil sent shell] at hok hcut
        refine ⟨fun flow he => ?_, hcut⟩
        obtain ⟨_, hresult, rfl⟩ := Except.map_eq_ok.mp he
        exact ⟨by simp, hok hresult⟩
      · next hc =>
        rw [if_neg hc]
        obtain ⟨⟨result, app', os'⟩, hk, he⟩ := Option.bind_eq_some_iff.mp he
        cases he
        obtain ⟨hok, hcut⟩ := h.keys hshell key hk
        refine ⟨fun flow he => ?_, hcut⟩
        obtain ⟨leave, hresult, rfl⟩ := Except.map_eq_ok.mp he
        obtain ⟨hleave, hposted⟩ := hok leave hresult
        refine ⟨?_, hposted⟩
        rw [← hleave]
        cases leave <;> simp
  | resize cols rows =>
    rcases hr : app.resized (cols, rows) os with ⟨result, app', os'⟩
    simp only [App.handle, hr] at he
    cases he
    have resized := (h.resized hr).quiet shell
    refine ⟨fun flow he => ?_, resized.cut⟩
    obtain ⟨_, -, rfl⟩ := Except.map_eq_ok.mp he
    exact resized.ok _ rfl
  | mouse | other =>
    cases he
    exact h.quiet shell

theorem Posted.focusOn (h : Posted sent keyboard (app, os)) {pane : PaneId} {moves : Nat} {session : Session}
    (hf : App.focusOn pane moves app.session = some session) : Posted sent keyboard ({ app with session }, os) :=
  ⟨⟨focusOn_owned h.follows.tended hf, h.follows.numbered⟩, h.held, h.keyboard⟩

/-- Closing a pane whose shell has exited sends nothing. -/
theorem Posted.reap (h : Posted sent keyboard (app, os)) {exited panes : List PaneId}
    (hr : App.reap exited panes app os = some (result, app', os')) : Posted sent keyboard (app', os') := by
  induction panes with
  | nil =>
    cases hr
    exact h
  | cons pane panes ih =>
    rw [App.reap] at hr
    split at hr
    · obtain ⟨session, hf, hc⟩ := Option.bind_eq_some_iff.mp hr
      exact (h.focusOn hf).closeFocused hc
    · exact ih hr

theorem shell_resized (hr : app.resized dims os = (result, app', os')) : app'.shell = app.shell := by
  have shell_panes : ∀ {sized : App} {os₁ os₂ : Os} {result : Except String Unit},
      app.resizePanes dims os₁ = (result, sized, os₂) → sized.shell = app.shell := by
    intro sized os₁ os₂ result hs
    obtain ⟨panes, rfl, hres⟩ := resizePanes_inv hs
    have hchild := resizeRuntimes_child (app.layout dims) app.panes os₁ app.session.focused
    rw [hres] at hchild
    exact hchild
  unfold App.resized at hr
  split at hr
  all_goals
    next hs =>
      cases hr
      have hshell := shell_panes hs
      exact hshell

theorem Posted.round (h : Posted sent keyboard (app, os)) {shell : Nat} (hshell : app.shell = some shell) {tick : Tick}
    {r : Except String Bool × App × Os} (hr : app.round dims tick os = some r) :
    Typed sent shell (keyboard.event tick.event) r := by
  unfold App.round at hr
  -- The resize before the event sends nothing, and leaves the focus where it is.
  have settled : ∀ result app₁ os₁, (if dims ≠ app.lastSize then app.resized dims os else (.ok (), app, os)) =
      (result, app₁, os₁) → Posted sent keyboard (app₁, os₁) ∧ app₁.shell = some shell := by
    intro result app₁ os₁ hs
    split at hs
    · exact ⟨h.resized hs, (shell_resized hs).trans hshell⟩
    · cases hs
      exact ⟨h, hshell⟩
  split at hr
  · next hs =>
    cases hr
    exact ⟨fun _ he => (by cases he), (settled _ _ _ hs).1.held.cut.post _ _⟩
  · next app₁ os₁ hs =>
    obtain ⟨hposted, hshell₁⟩ := settled _ _ _ hs
    obtain ⟨⟨flow, app₂, os₂⟩, he, hr⟩ := Option.bind_eq_some_iff.mp hr
    have heard : Heard sent shell (keyboard.event tick.event) (flow, app₂, os₂) := by
      cases hevent : tick.event with
      | none =>
        rw [hevent] at he
        cases he
        exact hposted.quiet shell
      | some event =>
        rw [hevent] at he
        exact hposted.handle hshell₁ he
    cases flow with
    | error error =>
      cases hr
      exact ⟨fun _ he => (by cases he), heard.cut⟩
    | ok flow =>
      obtain ⟨hleave, hposted⟩ := heard.ok flow rfl
      cases flow with
      | leave =>
        cases hr
        refine ⟨fun leave he => ⟨?_, hposted⟩, heard.cut⟩
        rw [hleave.mp rfl, ← Except.ok.inj he]
      | skip =>
        cases hr
        refine ⟨fun leave he => ⟨?_, hposted⟩, heard.cut⟩
        rw [← Except.ok.inj he]
        simpa using hleave
      | proceed =>
        obtain ⟨⟨result, app₃, os₃⟩, hreap, hr⟩ := Option.bind_eq_some_iff.mp hr
        cases hr
        -- Closing the panes of shells that have exited sends nothing either.
        have reaped := hposted.reap hreap
        refine ⟨fun leave he => ⟨?_, reaped⟩, reaped.held.cut⟩
        obtain ⟨_, -, rfl⟩ := Except.map_eq_ok.mp he
        simpa using hleave

end App

/-! ### Runs -/

namespace Local

variable {l l' : Local} {tick : Tick} {ticks : List Tick}

/-- What the event of a round sends, and to which shell: that of the pane which is focused when the round begins. -/
def delivery (l : Local) (tick : Tick) : List (Option Nat × List UInt8) :=
  [(l.app.shell, (l.app.keyboard.event tick.event).1)]

/-- The deliveries of a run, one a round. -/
def ledger (l : Local) (ticks : List Tick) : List (Option Nat × List UInt8) := history Local.step delivery l ticks

/-- The client at the head of its loop has sent to its shells what `sent` tells, or has ended on the way. -/
structure Posted (sent : Received) (keyboard : Keyboard) (l : Local) : Prop where
  ok : l.status ≠ .failed → App.Posted sent keyboard (l.app, l.os)
  cut : sent.Cut l.app.panes

variable {sent : Received} {keyboard : Keyboard}

theorem Posted.step (h : Posted sent keyboard l) {shell : Nat} (hshell : l.app.shell = some shell)
    (hs : l.step tick = some l') :
    Posted (sent.post shell (keyboard.event tick.event).1) (keyboard.event tick.event).2.2 l' := by
  obtain ⟨hrunning, hs⟩ := Option.ite_none_right_eq_some.mp hs
  obtain ⟨⟨result, app, os⟩, hr, he⟩ := Option.bind_eq_some_iff.mp hs
  cases he
  have typed := (h.ok (by simp [hrunning])).round hshell hr
  refine ⟨fun hstatus => ?_, typed.cut⟩
  cases result with
  | error error => exact absurd rfl hstatus
  | ok leave => exact (typed.ok leave rfl).2

/-- What a run sends, over what has been sent before. -/
theorem Posted.run (h : Posted sent keyboard l) (hr : Machine.run Local.step l ticks = some l') :
    (l.ledger ticks).flatMap Prod.snd = keyboard.typed ticks ∧ (∀ entry ∈ l.ledger ticks, ∃ shell, entry.1 = some shell) ∧
      ∃ keyboard', Posted (fun shell => sent shell ++ Received.part (l.ledger ticks) shell) keyboard' l' := by
  induction ticks generalizing l sent keyboard with
  | nil =>
    cases hr
    exact ⟨rfl, fun entry he => absurd he List.not_mem_nil, keyboard, by simpa [ledger, history, Received.part] using h⟩
  | cons tick ticks ih =>
    obtain ⟨l₁, hs, hr⟩ := run_cons_eq_some.mp hr
    obtain ⟨hrunning, -⟩ := Option.ite_none_right_eq_some.mp hs
    have running := h.ok (by simp [hrunning])
    obtain ⟨shell, -, hshell⟩ := running.follows.shell
    obtain ⟨htext, haddressed, keyboard', hposted⟩ := ih (h.step hshell hs) hr
    have hcons : l.ledger (tick :: ticks) = (some shell, (keyboard.event tick.event).1) :: l₁.ledger ticks := by
      rw [ledger, history_cons hs, delivery, hshell, running.keyboard]
      rfl
    rw [hcons]
    refine ⟨?_, List.forall_mem_cons.mpr ⟨⟨shell, rfl⟩, haddressed⟩, keyboard', ?_⟩
    · rw [List.flatMap_cons, htext]
      rfl
    · have hpart : (fun other => sent other ++ Received.part ((some shell, (keyboard.event tick.event).1) :: l₁.ledger ticks) other) =
          fun other => sent.post shell (keyboard.event tick.event).1 other ++ Received.part (l₁.ledger ticks) other := by
        funext other
        rw [Received.part_cons, Received.post, List.append_assoc]
      rwa [hpart]

/-- In every run of the local client, whatever the system refuses and whichever shells exit, the bytes that the events
    send are those of the keyboard alone; each of them is for one shell, that of the pane with the focus when its round
    begins; and as long as the client has not failed each shell has been sent all that is for it, in order, and nothing
    else. The shells of a client that has failed have been sent a first part of it. -/
theorem keys_reach_shells {size : UInt16 × UInt16} {os₀ os : Os} {app : App} (hn : App.new size os₀ = (.ok app, os))
    (hr : Machine.run Local.step (.start app size os) ticks = some l) :
    ((Local.start app size os).ledger ticks).flatMap Prod.snd = Keyboard.new.typed ticks ∧
      (∀ entry ∈ (Local.start app size os).ledger ticks, ∃ shell, entry.1 = some shell) ∧
      ∀ pane runtime, l.app.panes.get pane = some runtime →
        runtime.written <+: Received.part ((Local.start app size os).ledger ticks) runtime.child ∧
          (l.status ≠ .failed → runtime.written = Received.part ((Local.start app size os).ledger ticks) runtime.child) := by
  have start := App.Posted.new hn
  obtain ⟨htext, haddressed, keyboard, hposted⟩ := Posted.run (l := .start app size os) ⟨fun _ => start, start.held.cut⟩ hr
  refine ⟨htext, haddressed, fun pane runtime hget => ?_⟩
  exact ⟨by simpa using hposted.cut pane runtime hget,
    fun hstatus => by simpa using (hposted.ok hstatus).held.written pane runtime hget⟩

end Local

/-! ### Behind the screen -/

namespace LocalScreen

/-- In every run of the local client with its screen, whatever the system refuses and whichever shells exit, the bytes that
    are sent are those of the keyboard alone, without the keys that dismiss the artwork; each of them is for one shell, that
    of the pane with the focus when its round begins; and as long as the client has not failed each shell has been sent all
    that is for it, in order, and nothing else. The shells of a client that has failed have been sent a first part of it. -/
theorem typing_reaches_shells {size : UInt16 × UInt16} {os₀ os : Os} {app : App} (hn : App.new size os₀ = (.ok app, os))
    {visuals : Visuals} {now : Nat} {rounds : List Round} {t : LocalScreen} (hread : ∀ round ∈ rounds, App.Readable round.view)
    (htime : Round.Timely visuals now rounds)
    (hr : Machine.run (step visuals) (start (.start app size os) now) rounds = some t) :
    let ticks := Round.heard visuals now [] rounds
    ((Local.start app size os).ledger ticks).flatMap Prod.snd = Keyboard.new.typed ticks ∧
      (∀ entry ∈ (Local.start app size os).ledger ticks, ∃ shell, entry.1 = some shell) ∧
      ∀ pane runtime, t.client.app.panes.get pane = some runtime →
        runtime.written <+: Received.part ((Local.start app size os).ledger ticks) runtime.child ∧
          (t.client.status ≠ .failed →
            runtime.written = Received.part ((Local.start app size os).ledger ticks) runtime.child) := by
  have hclient := run_client hread visuals (start (.start app size os) now)
  have hheard : Machine.translate (Round.next visuals) (Round.plain visuals) (.new now) rounds =
      Round.heard visuals now [] rounds := Round.plain_eq_heard htime
  rw [hr, Option.map_some] at hclient
  exact Local.keys_reach_shells hn (hheard ▸ hclient.symm)

/-- A key that dismisses the artwork, a letter for the first pane, a split, a letter for the second pane, the exit of the
    first shell, and another letter. -/
def typing : List Round :=
  dozing ++ [pressed (.char 'a') false, pressed (.char 'b') true, pressed (.char '%') false, pressed (.char 'é') false,
    { event := none, exited := [⟨1⟩], history := 0 }, pressed (.char 'c') false].map fun tick =>
      ⟨tick, ⟨13000000000, 13000000000, 13000000000⟩, fun _ => .ok ⟨"", fun _ => ""⟩⟩

theorem timely_typing : Round.Timely dozy 0 typing := by
  unfold Round.Timely IdleEvent.Ordered
  decide

theorem heard_typing : Round.heard dozy 0 [] typing = [⟨none, [], 0⟩, ⟨some .other, [], 0⟩, ⟨none, [], 0⟩] ++
    [pressed (.char 'a') false, pressed (.char 'b') true, pressed (.char '%') false, pressed (.char 'é') false,
      { event := none, exited := [⟨1⟩], history := 0 }, pressed (.char 'c') false] := by
  have hheard : Round.heard dozy 0 [] typing = Machine.translate (Round.next dozy) (Round.plain dozy) (.new 0) typing :=
    (Round.plain_eq_heard timely_typing).symm
  rw [hheard]
  decide +kernel

theorem typing_reaches_shells_dozing : ∃ app os t runtime, App.new (80, 24) ⟨0, [], []⟩ = (.ok app, os) ∧
    Machine.run (step dozy) (start (.start app (80, 24) os) 0) typing = some t ∧
    ((Local.start app (80, 24) os).ledger (Round.heard dozy 0 [] typing)).flatMap Prod.snd =
      ['a'.toUInt8, 0xc3, 0xa9, 'c'.toUInt8] ∧
    t.client.app.panes.get ⟨2⟩ = some runtime ∧
    Received.part ((Local.start app (80, 24) os).ledger (Round.heard dozy 0 [] typing)) runtime.child =
      [0xc3, 0xa9, 'c'.toUInt8] := by
  obtain ⟨app, os, hn⟩ : ∃ app os, App.new (80, 24) ⟨0, [], []⟩ = (.ok app, os) := ⟨_, _, rfl⟩
  have hplain : ((App.new (80, 24) ⟨0, [], []⟩).1.toOption.bind fun app =>
      (Machine.run Local.step (.start app (80, 24) (App.new (80, 24) ⟨0, [], []⟩).2)
        (Machine.translate (Round.next dozy) (Round.plain dozy) (.new 0) typing)).map fun l =>
          (l.status, (l.app.panes.get ⟨2⟩).map LivePty.written)) =
      some (.running, some [0xc3, 0xa9, 'c'.toUInt8]) := by decide +kernel
  rw [hn] at hplain
  obtain ⟨l, hl, he⟩ := Option.map_eq_some_iff.mp hplain
  obtain ⟨hstatus, hpane⟩ := Prod.mk.inj he
  obtain ⟨runtime, hget, hwritten⟩ := Option.map_eq_some_iff.mp hpane
  have hread : ∀ round ∈ typing, App.Readable round.view := by
    intro round hr
    simp only [typing, dozing, List.cons_append, List.nil_append, List.map_cons, List.map_nil, List.mem_cons,
      List.not_mem_nil, or_false] at hr
    rcases hr with rfl | rfl | rfl | rfl | rfl | rfl | rfl | rfl | rfl
    all_goals exact fun _ => ⟨_, rfl⟩
  -- Behind the screen the run is that of the plain rounds.
  obtain ⟨t, ht, rfl⟩ := Option.map_eq_some_iff.mp
    ((run_client hread dozy (start (.start app (80, 24) os) 0)).trans hl)
  obtain ⟨htext, -, hsent⟩ := typing_reaches_shells hn hread timely_typing ht
  refine ⟨app, os, t, runtime, hn, ht, ?_, hget, ?_⟩
  · rw [htext, heard_typing]
    decide +kernel
  · rw [← (hsent _ _ hget).2 (by rw [hstatus]; simp)]
    exact hwritten

end LocalScreen

end NovaMux

import NovaMux.Lib.Machine
import NovaMux.Theorems.PaneTree

/-! Runs of the pane operations of a session. Every run from a new session that splits fewer than
    `2 ^ 64 - 2` times succeeds, keeps the panes distinct with the focus among them, and issues an
    identifier that no earlier state of the run contains. -/

namespace NovaMux

inductive SessionOp where
  | splitFocused (direction : SplitDirection)
  | focusNext
  | closeFocused
deriving DecidableEq, Repr

namespace Session

def step (s : Session) : SessionOp → Option Session
  | .splitFocused direction => (s.splitFocused direction).map (·.2)
  | .focusNext => s.focusNext
  | .closeFocused => s.closeFocused.map (·.2)

/-- What the operations rely on and keep. -/
structure Wf (s : Session) : Prop where
  nodup : s.panes.Nodup
  focused : s.focused ∈ s.panes
  below : ∀ id ∈ s.panes, id.get < s.nextId

variable {s t : Session} {direction : SplitDirection} {id : PaneId}

theorem Wf.new (name : SessionName) : (Session.new name).Wf where
  nodup := by simp [Session.new, Node.leaves]
  focused := by simp [Session.new, Node.leaves]
  below := by simp [Session.new, Node.leaves]

theorem panes_ne_nil (s : Session) : s.panes ≠ [] := by
  rw [panes_eq]
  exact s.root.leaves_ne_nil

theorem length_panes_pos (s : Session) : 0 < s.panes.length := List.length_pos_iff.mpr s.panes_ne_nil

/-! ### What each operation does -/

/-- The pane a split creates, the tree it leaves and what it keeps. -/
theorem splitFocused_inv (hf : s.focused ∈ s.panes) (h : s.splitFocused direction = some (id, t)) :
    id = ⟨s.nextId⟩ ∧ t.focused = id ∧ t.nextId.toNat = s.nextId.toNat + 1 ∧ t.name = s.name ∧
      ∃ before after, s.panes = before ++ s.focused :: after ∧ s.focused ∉ before ∧
        t.panes = before ++ s.focused :: id :: after := by
  simp only [splitFocused, Option.bind_eq_bind, Option.bind_eq_some_iff, Option.some.injEq, Prod.mk.injEq] at h
  obtain ⟨nextId, hnext, rfl, rfl⟩ := h
  obtain ⟨-, before, after, hl, hb, hn⟩ :=
    splitNode_of_mem ⟨s.nextId⟩ direction (s.panes_eq ▸ hf)
  refine ⟨rfl, rfl, ?_, rfl, before, after, by rw [panes_eq, hl], hb, by rw [panes_eq]; exact hn⟩
  simpa using (UInt64.checkedAdd_eq_some.mp hnext).symm

theorem splitFocused_mem (hf : s.focused ∈ s.panes) (h : s.splitFocused direction = some (id, t)) : id ∈ t.panes := by
  obtain ⟨-, -, -, -, before, after, -, -, hp'⟩ := splitFocused_inv hf h
  rw [hp']
  exact List.mem_append_right before (List.mem_cons_of_mem _ List.mem_cons_self)

theorem length_panes_of_splitFocused (hf : s.focused ∈ s.panes) (h : s.splitFocused direction = some (id, t)) :
    t.panes.length = s.panes.length + 1 := by
  obtain ⟨-, -, -, -, before, after, hp, -, hp'⟩ := splitFocused_inv hf h
  rw [hp, hp']
  simp only [List.length_append, List.length_cons]
  omega

theorem splitFocused_isSome (direction : SplitDirection) (h : s.nextId.toNat + 1 < 2 ^ 64) :
    ∃ id t, s.splitFocused direction = some (id, t) := by
  have hnext : s.nextId.checkedAdd 1 = some (s.nextId + 1) := if_pos h
  simp only [splitFocused, hnext, Option.bind_eq_bind, Option.bind_some]
  exact ⟨_, _, rfl⟩

/-- Focusing the next pane moves the focus to a pane and changes nothing else. -/
theorem focusNext_inv (h : s.focusNext = some t) : ∃ focused ∈ s.panes, t = { s with focused } := by
  simp only [focusNext, Option.bind_eq_bind, Option.bind_eq_some_iff, Option.some.injEq] at h
  obtain ⟨current, -, focused, hget, rfl⟩ := h
  exact ⟨focused, List.mem_of_getElem? hget, rfl⟩

theorem focusNext_isSome (hf : s.focused ∈ s.panes) : ∃ t, s.focusNext = some t := by
  obtain ⟨current, hidx⟩ := Option.isSome_iff_exists.mp (List.isSome_idxOf?.mpr hf)
  have hlt : (current + 1) % s.panes.length < s.panes.length := Nat.mod_lt _ s.length_panes_pos
  exact ⟨{ s with focused := s.panes[(current + 1) % s.panes.length] }, by
    simp [focusNext, -panes_eq, hidx, List.getElem?_eq_getElem hlt]⟩

/-- A close leaves the last pane alone; otherwise it removes the focused pane and focuses a neighbour. -/
theorem closeFocused_inv {removed : Bool} (h : s.closeFocused = some (removed, t)) :
    (removed = false ∧ s.panes.length = 1 ∧ t = s) ∨
    (removed = true ∧ s.panes.length ≠ 1 ∧ ∃ current nextFocus root, s.panes.idxOf? s.focused = some current ∧
      s.panes[if current = 0 then 1 else current - 1]? = some nextFocus ∧
      removePane s.focused s.root = some root ∧ t = { s with root, focused := nextFocus }) := by
  simp only [closeFocused] at h
  split at h
  · obtain ⟨rfl, rfl⟩ := Prod.mk.inj (Option.some.inj h)
    exact Or.inl ⟨rfl, ‹_›, rfl⟩
  · simp only [Option.bind_eq_bind, Option.bind_eq_some_iff, Option.some.injEq, Prod.mk.injEq] at h
    obtain ⟨current, hidx, nextFocus, hget, root, hroot, rfl, rfl⟩ := h
    exact Or.inr ⟨rfl, ‹_›, current, nextFocus, root, hidx, hget, hroot, rfl⟩

theorem panes_of_closeFocused (h : s.closeFocused = some (true, t)) : t.panes = s.panes.filter (· ≠ s.focused) := by
  rcases closeFocused_inv h with ⟨hf, -⟩ | ⟨-, -, current, nextFocus, root, -, -, hroot, rfl⟩
  · cases hf
  · rw [panes_eq, panes_eq, leaves_of_removePane hroot]

/-- The neighbour that a close focuses is another pane. -/
theorem nextFocus_ne (hn : s.panes.Nodup) {current : Nat} {nextFocus : PaneId}
    (hidx : s.panes.idxOf? s.focused = some current)
    (hget : s.panes[if current = 0 then 1 else current - 1]? = some nextFocus) : nextFocus ≠ s.focused := by
  obtain ⟨hlt, hcur, -⟩ := List.idxOf?_eq_some_iff.mp hidx
  obtain ⟨hlt', hnext⟩ := List.getElem?_eq_some_iff.mp hget
  intro he
  have hidx' : (if current = 0 then 1 else current - 1) = current :=
    (List.Nodup.getElem_inj_iff hn).mp (by rw [hnext, hcur, he])
  split at hidx' <;> omega

theorem closeFocused_isSome (hn : s.panes.Nodup) (hf : s.focused ∈ s.panes) :
    ∃ removed t, s.closeFocused = some (removed, t) := by
  by_cases hone : s.panes.length = 1
  · exact ⟨false, s, if_pos hone⟩
  have htwo : 1 < s.panes.length := by
    have := s.length_panes_pos
    omega
  obtain ⟨current, hidx⟩ := Option.isSome_iff_exists.mp (List.isSome_idxOf?.mpr hf)
  obtain ⟨hcur, -⟩ := List.idxOf?_eq_some_iff.mp hidx
  have hlt : (if current = 0 then 1 else current - 1) < s.panes.length := by split <;> omega
  have hget := List.getElem?_eq_getElem hlt
  obtain ⟨root, hroot⟩ := exists_removePane s.focused s.root
    ⟨_, s.panes_eq ▸ List.getElem_mem hlt, nextFocus_ne hn hidx hget⟩
  exact ⟨true, { s with root, focused := s.panes[if current = 0 then 1 else current - 1] }, by
    simp only [closeFocused, if_neg hone, hidx, hget, hroot, Option.bind_eq_bind, Option.bind_some]⟩

/-! ### The invariant -/

theorem Wf.splitFocused (h : s.Wf) (hs : s.splitFocused direction = some (id, t)) : t.Wf := by
  obtain ⟨rfl, hfoc, hnext, -, before, after, hp, -, hp'⟩ := splitFocused_inv h.focused hs
  have hmem : ∀ x, x ∈ t.panes ↔ x = ⟨s.nextId⟩ ∨ x ∈ s.panes := by
    intro x
    rw [hp, hp', List.mem_append, List.mem_append, List.mem_cons, List.mem_cons, List.mem_cons,
      @or_left_comm (x = s.focused), @or_left_comm (x ∈ before)]
  have hlt : s.nextId < t.nextId := UInt64.lt_iff_toNat_lt.mpr (by omega)
  have hfresh : (⟨s.nextId⟩ : PaneId) ∉ s.panes := fun hin => (UInt64.lt_irrefl _) (h.below _ hin)
  constructor
  · have hn := h.nodup
    rw [hp] at hn hfresh
    rw [hp', ← List.singleton_append, ← List.append_assoc]
    refine List.nodup_middle.mpr (List.nodup_cons.mpr ⟨?_, ?_⟩)
    · simpa [List.append_assoc] using hfresh
    · simpa [List.append_assoc] using hn
  · exact (hmem _).mpr (Or.inl hfoc)
  · intro x hx
    rcases (hmem x).mp hx with rfl | hx
    · exact hlt
    · exact UInt64.lt_trans (h.below x hx) hlt

theorem Wf.focusNext (h : s.Wf) (hs : s.focusNext = some t) : t.Wf := by
  obtain ⟨focused, hf, rfl⟩ := focusNext_inv hs
  exact ⟨h.nodup, hf, h.below⟩

theorem Wf.closeFocused (h : s.Wf) {removed : Bool} (hs : s.closeFocused = some (removed, t)) : t.Wf := by
  rcases closeFocused_inv hs with ⟨-, -, rfl⟩ | ⟨-, -, current, nextFocus, root, hidx, hget, hroot, rfl⟩
  · exact h
  · have hp : root.leaves = s.panes.filter (· ≠ s.focused) := by rw [panes_eq, leaves_of_removePane hroot]
    refine ⟨?_, ?_, fun id hid => h.below id ?_⟩
    · rw [panes_eq, hp]
      exact h.nodup.filter _
    · rw [panes_eq, hp]
      exact List.mem_filter.mpr ⟨List.mem_of_getElem? hget, by simpa using nextFocus_ne h.nodup hidx hget⟩
    · rw [panes_eq, hp] at hid
      exact (List.mem_filter.mp hid).1

theorem Wf.step (h : s.Wf) {op : SessionOp} (hs : s.step op = some t) : t.Wf := by
  cases op with
  | splitFocused direction =>
    obtain ⟨⟨id, u⟩, hsplit, rfl⟩ := Option.map_eq_some_iff.mp hs
    exact h.splitFocused hsplit
  | focusNext => exact h.focusNext hs
  | closeFocused =>
    obtain ⟨⟨removed, u⟩, hclose, rfl⟩ := Option.map_eq_some_iff.mp hs
    exact h.closeFocused hclose

/-! ### Whole runs -/

end Session

def SessionOp.isSplit : SessionOp → Bool
  | .splitFocused _ => true
  | _ => false

def splits (ops : List SessionOp) : Nat := ops.countP SessionOp.isSplit

theorem splits_cons (op : SessionOp) (ops : List SessionOp) :
    splits (op :: ops) = splits ops + if op.isSplit then 1 else 0 := List.countP_cons

theorem splits_append (ops ops' : List SessionOp) : splits (ops ++ ops') = splits ops + splits ops' :=
  List.countP_append

namespace Session

variable {s t : Session}

theorem step_nextId (hf : s.focused ∈ s.panes) {op : SessionOp} (hs : s.step op = some t) :
    t.nextId.toNat = s.nextId.toNat + if op.isSplit then 1 else 0 := by
  cases op with
  | splitFocused direction =>
    obtain ⟨⟨id, u⟩, hsplit, rfl⟩ := Option.map_eq_some_iff.mp hs
    exact (splitFocused_inv hf hsplit).2.2.1
  | focusNext =>
    obtain ⟨-, -, rfl⟩ := focusNext_inv hs
    rfl
  | closeFocused =>
    obtain ⟨⟨removed, u⟩, hclose, rfl⟩ := Option.map_eq_some_iff.mp hs
    rcases closeFocused_inv hclose with ⟨-, -, rfl⟩ | ⟨-, -, -, -, -, -, -, -, rfl⟩ <;> rfl

theorem step_isSome (h : s.Wf) (op : SessionOp) (hid : s.nextId.toNat + splits [op] < 2 ^ 64) :
    ∃ t, s.step op = some t := by
  cases op with
  | splitFocused direction =>
    obtain ⟨id, t, hs⟩ := splitFocused_isSome direction hid
    exact ⟨t, by simp [step, hs]⟩
  | focusNext => exact focusNext_isSome h.focused
  | closeFocused =>
    obtain ⟨removed, t, hs⟩ := closeFocused_isSome h.nodup h.focused
    exact ⟨t, by simp [step, hs]⟩

/-- A run that has identifiers for its splits succeeds, and each split uses one up. -/
theorem Wf.run (h : s.Wf) (ops : List SessionOp) (hid : s.nextId.toNat + splits ops < 2 ^ 64) :
    ∃ t, Machine.run Session.step s ops = some t ∧ t.Wf ∧ t.nextId.toNat = s.nextId.toNat + splits ops := by
  induction ops generalizing s with
  | nil => exact ⟨s, rfl, h, rfl⟩
  | cons op ops ih =>
    have hcons := splits_cons op ops
    have hone : splits [op] = 0 + if op.isSplit then 1 else 0 := splits_cons op []
    obtain ⟨u, hs⟩ := step_isSome h op (by omega)
    have hnext := step_nextId h.focused hs
    obtain ⟨t, hr, ht, htn⟩ := ih (h.step hs) (by omega)
    exact ⟨t, Machine.run_cons_eq_some.mpr ⟨u, hs, hr⟩, ht, by omega⟩

theorem wf_of_run {name : SessionName} {ops : List SessionOp}
    (h : Machine.run Session.step (Session.new name) ops = some s) : s.Wf :=
  Machine.run_invariant (fun _ _ _ h hs => h.step hs) (Wf.new name) h

/-- Runs of the pane operations from a new session succeed and keep the session's invariant, and a split
    returns an identifier of its new tree that no state before it has and no split before it has returned. -/
theorem run_new (name : SessionName) (ops : List SessionOp) (h : splits ops < 2 ^ 64 - 2) :
    ∃ s, Machine.run step (Session.new name) ops = some s ∧
      s.panes ≠ [] ∧ s.panes.Nodup ∧ s.focused ∈ s.panes ∧ (∀ id ∈ s.panes, id.get < s.nextId) ∧
      ∀ pre direction post, ops = pre ++ .splitFocused direction :: post →
        ∃ u id v, Machine.run step (Session.new name) pre = some u ∧ u.splitFocused direction = some (id, v) ∧
          id ∈ v.panes ∧
          (∀ earlier later w, pre = earlier ++ later → Machine.run step (Session.new name) earlier = some w →
            id ∉ w.panes) ∧
          ∀ earlier direction' later w id' w', pre = earlier ++ .splitFocused direction' :: later →
            Machine.run step (Session.new name) earlier = some w → w.splitFocused direction' = some (id', w') →
              id ≠ id' := by
  have start : (Session.new name).nextId.toNat = 2 := rfl
  obtain ⟨s, hr, hs, -⟩ := (Wf.new name).run ops (by omega)
  refine ⟨s, hr, s.panes_ne_nil, hs.nodup, hs.focused, hs.below, ?_⟩
  intro pre direction post he
  subst he
  rw [splits_append, splits_cons] at h
  simp only [SessionOp.isSplit, if_true] at h
  obtain ⟨u, hru, hu, hun⟩ := (Wf.new name).run pre (by omega)
  obtain ⟨id, v, hsplit⟩ := splitFocused_isSome (s := u) direction (by omega)
  have hfresh : ∀ earlier later w, pre = earlier ++ later → Machine.run step (Session.new name) earlier = some w →
      id ∉ w.panes := by
    intro earlier later w he hrw hmem
    subst he
    rw [splits_append] at h hun
    obtain ⟨w', hrw', hw, hwn⟩ := (Wf.new name).run earlier (by omega)
    obtain rfl : w' = w := Option.some.inj (hrw'.symm.trans hrw)
    -- The identifier is the counter of `u`, which no earlier counter exceeds.
    obtain ⟨rfl, -⟩ := splitFocused_inv hu.focused hsplit
    have hlt : u.nextId.toNat < w'.nextId.toNat := UInt64.lt_iff_toNat_lt.mp (hw.below _ hmem)
    omega
  refine ⟨u, id, v, hru, hsplit, splitFocused_mem hu.focused hsplit, hfresh, ?_⟩
  intro earlier direction' later w id' w' he hrw hsplit' hsame
  -- What an earlier split has returned was in the tree behind it.
  have hstep : w.step (.splitFocused direction') = some w' := by
    rw [step, hsplit', Option.map_some]
  have hrw' : Machine.run step (Session.new name) (earlier ++ [.splitFocused direction']) = some w' :=
    Machine.run_append_eq_some.mpr ⟨w, hrw, Machine.run_singleton.trans hstep⟩
  have hmem : id' ∈ w'.panes := splitFocused_mem (wf_of_run hrw).focused hsplit'
  refine hfresh (earlier ++ [.splitFocused direction']) later w' ?_ hrw' (hsame ▸ hmem)
  rw [he, List.append_assoc, List.singleton_append]

theorem run_new_split_close_split : ∃ s t u id v,
    Machine.run step (Session.new .work)
      [.splitFocused .horizontal, .closeFocused, .splitFocused .vertical] = some s ∧
    s.panes.Nodup ∧ s.focused ∈ s.panes ∧
    (Session.new .work).splitFocused .horizontal = some (⟨2⟩, t) ∧
    Machine.run step (Session.new .work) [.splitFocused .horizontal, .closeFocused] = some u ∧
    u.splitFocused .vertical = some (id, v) ∧ id ∈ v.panes ∧ id ∉ u.panes ∧ id ≠ ⟨2⟩ := by
  obtain ⟨t, ht⟩ : ∃ t, (Session.new .work).splitFocused .horizontal = some (⟨2⟩, t) := ⟨_, rfl⟩
  obtain ⟨s, hr, -, hn, hf, -, hsplits⟩ := run_new .work
    [.splitFocused .horizontal, .closeFocused, .splitFocused .vertical] (by decide)
  obtain ⟨u, id, v, hu, hsplit, hin, hfresh, hdistinct⟩ :=
    hsplits [.splitFocused .horizontal, .closeFocused] .vertical [] rfl
  have hnew : id ∉ u.panes := hfresh _ [] u (List.append_nil _).symm hu
  have hne : id ≠ ⟨2⟩ := hdistinct [] .horizontal [.closeFocused] (Session.new .work) ⟨2⟩ t rfl rfl ht
  exact ⟨s, t, u, id, v, hr, hn, hf, ht, hu, hsplit, hin, hnew, hne⟩

end Session

end NovaMux

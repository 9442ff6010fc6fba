import NovaMux.Theorems.TreeContext

/-! What a split and a close change, in the order of the panes and on the screen. Both replace one subtree: a
    split puts a pair of panes where the focused one was, and a close puts the sibling of the focused pane
    where the pair of them was. -/

namespace NovaMux

open Machine

/-! ### Rectangles by pane -/

namespace Rect

/-- No side of `r` is longer than that of `r'`. -/
structure NoLarger (r r' : Rect) : Prop where
  width : r.width ≤ r'.width
  height : r.height ≤ r'.height

theorem NoLarger.refl (r : Rect) : r.NoLarger r := ⟨UInt16.le_refl _, UInt16.le_refl _⟩

theorem NoLarger.trans {a b c : Rect} (h₁ : a.NoLarger b) (h₂ : b.NoLarger c) : a.NoLarger c :=
  ⟨UInt16.le_trans h₁.width h₂.width, UInt16.le_trans h₁.height h₂.height⟩

/-- The rounded halves of a side are no longer than the side. -/
theorem splitRect_noLarger (area : Rect) (direction : SplitDirection) :
    (splitRect area direction).1.NoLarger area ∧ (splitRect area direction).2.NoLarger area := by
  cases direction <;>
    constructor <;> constructor <;>
      simp only [splitRect, UInt16.le_iff_toNat_le, toNat_half, UInt16.toNat_saturatingSub] <;>
      omega

/-- Of a larger area each part is larger, also where the rounding saturates. -/
theorem NoLarger.splitRect {a b : Rect} (h : a.NoLarger b) (direction : SplitDirection) :
    (splitRect a direction).1.NoLarger (splitRect b direction).1 ∧
      (splitRect a direction).2.NoLarger (splitRect b direction).2 := by
  obtain ⟨hw, hh⟩ := h
  rw [UInt16.le_iff_toNat_le] at hw hh
  have hb := b.width.toNat_lt
  have hb' := b.height.toNat_lt
  cases direction <;>
    constructor <;> constructor <;>
      simp only [NovaMux.splitRect, UInt16.le_iff_toNat_le, toNat_half, UInt16.toNat_saturatingSub] <;>
      omega

end Rect

namespace Node

variable {c : Context} {node node' parent survivor : Node} {pane target : PaneId} {area a b : Rect}

/-- The rectangle of a pane, if the tree has the pane. -/
def rect? (node : Node) (area : Rect) (pane : PaneId) : Option Rect := (node.rects area).lookup pane

theorem rect?_pane (target : PaneId) (area : Rect) : (Node.pane target).rect? area target = some area := by
  simp [rect?, rects]

theorem rect?_split (direction : SplitDirection) (first second : Node) (area : Rect) (pane : PaneId) :
    (Node.split direction first second).rect? area pane =
      (first.rect? (splitRect area direction).1 pane).or (second.rect? (splitRect area direction).2 pane) := by
  rw [rect?, rects, List.lookup_append]
  rfl

theorem rect?_isSome (area : Rect) : (node.rect? area pane).isSome ↔ pane ∈ node.leaves := by
  rw [rect?, List.lookup_isSome_iff, ← node.map_fst_rects area, List.mem_map]
  simp only [beq_iff_eq]
  exact exists_congr fun _ => and_congr_right fun _ => eq_comm

theorem rect?_eq_none (area : Rect) : node.rect? area pane = none ↔ pane ∉ node.leaves := by
  rw [← rect?_isSome area, Option.not_isSome_iff_eq_none]

theorem rect?_fill (h : pane ∈ node.leaves) (hb : pane ∉ c.before) :
    (c.fill node).rect? area pane = node.rect? (c.part area) pane := by
  have hnone : (c.rectsBefore area).lookup pane = none := by
    rw [List.lookup_eq_none_iff]
    intro e he
    have hin : e.1 ∈ c.before := c.map_fst_rectsBefore area ▸ List.mem_map_of_mem he
    simpa using fun he' : pane = e.1 => hb (he' ▸ hin)
  obtain ⟨rect, hrect⟩ := Option.isSome_iff_exists.mp ((rect?_isSome _).mpr h)
  rw [hrect]
  rw [rect?] at hrect
  rw [rect?, c.rects_fill, List.lookup_append, List.lookup_append, hnone, hrect]
  rfl

/-- A pane outside of the hole has its rectangle whatever fills the hole. -/
theorem rect?_fill_congr (h : pane ∉ node.leaves) (h' : pane ∉ node'.leaves) :
    (c.fill node).rect? area pane = (c.fill node').rect? area pane := by
  rw [← rect?_eq_none (c.part area), rect?] at h h'
  simp only [rect?, c.rects_fill, List.lookup_append, h, h']

/-- In a larger area every pane has a larger rectangle. -/
theorem rect?_mono (h : a.NoLarger b) :
    ∀ r, node.rect? a pane = some r → ∃ r', node.rect? b pane = some r' ∧ r.NoLarger r' := by
  induction node generalizing a b with
  | pane id =>
    intro r hr
    have hid : pane = id := by simpa [leaves] using (rect?_isSome _).mp (Option.isSome_iff_exists.mpr ⟨r, hr⟩)
    subst hid
    rw [rect?_pane] at hr
    exact ⟨b, rect?_pane _ _, Option.some.inj hr ▸ h⟩
  | split direction first second ihf ihs =>
    intro r hr
    obtain ⟨h₁, h₂⟩ := h.splitRect direction
    rw [rect?_split] at hr ⊢
    by_cases hf : pane ∈ first.leaves
    · obtain ⟨rf, hrf⟩ := Option.isSome_iff_exists.mp ((rect?_isSome (splitRect a direction).1).mpr hf)
      rw [hrf] at hr
      obtain ⟨r', hr', hle⟩ := ihf h₁ rf hrf
      rw [hr']
      exact ⟨r', rfl, Option.some.inj hr ▸ hle⟩
    · rw [(rect?_eq_none _).mpr hf, Option.none_or] at hr
      rw [(rect?_eq_none _).mpr hf, Option.none_or]
      exact ihs h₂ r hr

/-- A sibling that takes the place of the pair has larger rectangles. -/
theorem Beside.grows (h : Beside target survivor parent) (hn : target ∉ survivor.leaves)
    (hp : pane ∈ survivor.leaves) :
    ∃ r r', parent.rect? area pane = some r ∧ survivor.rect? area pane = some r' ∧ r.NoLarger r' := by
  have hne : pane ∉ (Node.pane target).leaves := by
    intro hin
    rw [leaves, List.mem_singleton] at hin
    exact hn (hin ▸ hp)
  have grown : ∀ inner : Rect, inner.NoLarger area → ∃ r r', survivor.rect? inner pane = some r ∧
      survivor.rect? area pane = some r' ∧ r.NoLarger r' := by
    intro inner hle
    obtain ⟨r, hr⟩ := Option.isSome_iff_exists.mp ((rect?_isSome inner).mpr hp)
    obtain ⟨r', hr', hle'⟩ := rect?_mono hle r hr
    exact ⟨r, r', hr, hr', hle'⟩
  cases h with
  | first direction =>
    rw [rect?_split, (rect?_eq_none _).mpr hne, Option.none_or]
    exact grown _ (Rect.splitRect_noLarger area direction).2
  | second direction =>
    rw [rect?_split, (rect?_eq_none _).mpr hne, Option.or_none]
    exact grown _ (Rect.splitRect_noLarger area direction).1

end Node

/-! ### Splits and closes of a session -/

namespace Session

variable {s t : Session} {direction : SplitDirection} {id : PaneId} {name : SessionName} {ops : List SessionOp}

/-- A split fails just when the identifier space is exhausted. -/
theorem splitFocused_eq_none : s.splitFocused direction = none ↔ s.nextId.toNat + 1 = 2 ^ 64 := by
  have hlt := s.nextId.toNat_lt
  refine ⟨fun h => ?_, fun h => ?_⟩
  · by_contra hne
    obtain ⟨id, t, hs⟩ := splitFocused_isSome (s := s) direction (by omega)
    rw [h] at hs
    cases hs
  · have hnext : s.nextId.checkedAdd 1 = none := if_neg (by rw [show (1 : UInt64).toNat = 1 from rfl]; omega)
    simp only [splitFocused, hnext, Option.bind_eq_bind, Option.bind_none]

theorem splitFocused_fill {c : Node.Context} (hc : s.root = c.fill (.pane s.focused)) (hb : s.focused ∉ c.before)
    (h : s.splitFocused direction = some (id, t)) :
    t = { s with root := c.fill (.split direction (.pane s.focused) (.pane id)), focused := id, nextId := t.nextId } ∧
      id = ⟨s.nextId⟩ ∧ t.nextId.toNat = s.nextId.toNat + 1 := by
  simp only [splitFocused, Option.bind_eq_bind, Option.bind_eq_some_iff, Option.some.injEq, Prod.mk.injEq] at h
  obtain ⟨nextId, hnext, rfl, rfl⟩ := h
  rw [hc, Node.Context.splitNode_fill hb]
  exact ⟨rfl, rfl, (UInt64.checkedAdd_eq_some.mp hnext).symm⟩

/-- A close focuses the pane before the closed one, or the first one behind it. -/
theorem closeFocused_of_removePane {before after : List PaneId} {root : Node}
    (hp : s.panes = before ++ s.focused :: after) (hb : s.focused ∉ before) (htwo : s.panes.length ≠ 1)
    (hr : removePane s.focused s.root = some root) :
    ∃ focused, s.closeFocused = some (true, { s with root, focused }) ∧
      before.getLast?.or after.head? = some focused := by
  have hidx : s.panes.idxOf? s.focused = some before.length := by
    rw [List.idxOf?_eq_some_iff, hp]
    refine ⟨by simp, by simp, fun i hi => ?_⟩
    simpa [List.getElem_append_left hi] using fun he : before[i] = s.focused => hb (he ▸ List.getElem_mem hi)
  have hget : s.panes[if before.length = 0 then 1 else before.length - 1]? = before.getLast?.or after.head? := by
    rw [hp]
    rcases List.eq_nil_or_concat before with rfl | ⟨init, last, rfl⟩
    · simp [List.head?_eq_getElem?]
    · simp
  obtain ⟨focused, hf⟩ : ∃ focused, before.getLast?.or after.head? = some focused := by
    rcases List.eq_nil_or_concat before with rfl | ⟨init, last, rfl⟩
    · cases after with
      | nil => exact absurd (by rw [hp]; rfl) htwo
      | cons pane after => exact ⟨pane, rfl⟩
    · exact ⟨last, by simp⟩
  refine ⟨focused, ?_, hf⟩
  rw [hf] at hget
  simp only [closeFocused, if_neg htwo, hidx, hget, hr, Option.bind_eq_bind, Option.bind_some]

/-- The place of the focused pane, and what a split puts there. -/
theorem Wf.split_fill (h : s.Wf) (hs : s.splitFocused direction = some (id, t)) : ∃ c : Node.Context,
    s.root = c.fill (.pane s.focused) ∧ s.focused ∉ c.before ∧
      t = { s with root := c.fill (.split direction (.pane s.focused) (.pane id)), focused := id, nextId := t.nextId } ∧
      id ∉ s.panes := by
  obtain ⟨c, hc, hb⟩ := Node.Context.exists_of_mem (s.panes_eq ▸ h.focused)
  obtain ⟨ht, rfl, -⟩ := splitFocused_fill hc hb hs
  exact ⟨c, hc, hb, ht, fun hin => UInt64.lt_irrefl _ (h.below _ hin)⟩

theorem Wf.focused_notMem (h : s.Wf) {before after : List PaneId} (hp : s.panes = before ++ s.focused :: after) :
    s.focused ∉ before ∧ s.focused ∉ after := by
  have hn := h.nodup
  rw [hp] at hn
  obtain ⟨-, hrest, hdisjoint⟩ := List.nodup_append.mp hn
  exact ⟨fun hin => hdisjoint _ hin _ List.mem_cons_self rfl, (List.nodup_cons.mp hrest).1⟩

/-- The place of the focused pane and its sibling, and what a close puts there. -/
theorem Wf.close_fill (h : s.Wf) (htwo : 2 ≤ s.panes.length) : ∃ (c : Node.Context) (parent survivor : Node),
    s.root = c.fill parent ∧ Node.Beside s.focused survivor parent ∧ s.focused ∉ survivor.leaves ∧
      s.focused ∉ c.before ∧ s.focused ∉ c.after ∧ removePane s.focused s.root = some (c.fill survivor) := by
  have hn : s.root.leaves.Nodup := s.panes_eq ▸ h.nodup
  rcases Node.exists_beside (s.panes_eq ▸ h.focused) with hone | ⟨c, parent, survivor, hc, hbeside⟩
  · rw [panes_eq, hone, Node.leaves, List.length_singleton] at htwo
    omega
  rw [hc, Node.Context.leaves_fill] at hn
  obtain ⟨hleft, -, hright⟩ := List.nodup_append.mp hn
  obtain ⟨-, hinner, hdisjoint⟩ := List.nodup_append.mp hleft
  have hb : s.focused ∉ c.before := fun hb => hdisjoint _ hb _ hbeside.mem_target rfl
  have ha : s.focused ∉ c.after := fun ha =>
    hright _ (List.mem_append_right _ hbeside.mem_target) _ ha rfl
  have hsurvivor : s.focused ∉ survivor.leaves := by
    cases hbeside with
    | first direction => exact (List.nodup_cons.mp hinner).1
    | second direction => exact fun hin => (List.nodup_append.mp hinner).2.2 _ hin _ (List.mem_singleton.mpr rfl) rfl
  refine ⟨c, parent, survivor, hc, hbeside, hsurvivor, hb, ha, ?_⟩
  rw [hc]
  exact Node.removePane_fill (hbeside.removePane hsurvivor) hb ha

theorem Wf.closeFocused_panes (h : s.Wf) {before after : List PaneId} (hp : s.panes = before ++ s.focused :: after)
    (htwo : 2 ≤ s.panes.length) {root : Node} (hr : removePane s.focused s.root = some root) : ∃ focused,
    s.closeFocused = some (true, { s with root, focused }) ∧ root.leaves = before ++ after ∧
      before.getLast?.or after.head? = some focused := by
  obtain ⟨hbefore, hafter⟩ := h.focused_notMem hp
  obtain ⟨focused, hclose, hfocus⟩ := closeFocused_of_removePane hp hbefore (by omega) hr
  refine ⟨focused, hclose, ?_, hfocus⟩
  have keep : ∀ panes : List PaneId, s.focused ∉ panes → panes.filter (· ≠ s.focused) = panes := fun panes hnot =>
    List.filter_eq_self.mpr fun pane hin => by simpa using fun he : pane = s.focused => hnot (he ▸ hin)
  rw [leaves_of_removePane hr, ← panes_eq, hp, List.filter_append, List.filter_cons_of_neg (by simp),
    keep _ hbefore, keep _ hafter]

/-- A close takes the focused pane out and focuses the one before it, or else the first one behind it. -/
theorem Wf.closeFocused_exact (h : s.Wf) {before after : List PaneId} (hp : s.panes = before ++ s.focused :: after)
    (htwo : 2 ≤ s.panes.length) : ∃ t, s.closeFocused = some (true, t) ∧ t.panes = before ++ after ∧
      before.getLast?.or after.head? = some t.focused := by
  obtain ⟨c, parent, survivor, -, -, -, -, -, hr⟩ := h.close_fill htwo
  obtain ⟨focused, hclose, hp', hfocus⟩ := h.closeFocused_panes hp htwo hr
  exact ⟨_, hclose, (panes_eq _).trans hp', hfocus⟩

/-- A close undoes a split, but for the identifier that was used up. -/
theorem Wf.closeFocused_split (h : s.Wf) (hs : s.splitFocused direction = some (id, t)) :
    t.closeFocused = some (true, { s with nextId := t.nextId }) := by
  obtain ⟨c, hc, hb, ht, hnew⟩ := h.split_fill hs
  have hid : t.focused = id := by rw [ht]
  have hroot : t.root = c.fill (.split direction (.pane s.focused) (.pane id)) := by rw [ht]
  have hout : id ∉ c.before ∧ id ≠ s.focused ∧ id ∉ c.after := by
    rw [panes_eq, hc, Node.Context.leaves_fill, Node.leaves] at hnew
    simpa [not_or, and_assoc] using hnew
  obtain ⟨hbefore, hne, hafter⟩ := hout
  have hpanes : t.panes = (c.before ++ [s.focused]) ++ t.focused :: c.after := by
    rw [panes_eq, hroot, Node.Context.leaves_fill, hid]
    simp [Node.leaves]
  have hr : removePane t.focused t.root = some (c.fill (.pane s.focused)) := by
    have hsibling : id ∉ (Node.pane s.focused).leaves := by simpa [Node.leaves] using hne
    rw [hroot, hid]
    exact Node.removePane_fill (Node.Beside.removePane (.second direction) hsibling) hbefore hafter
  have htwo : t.panes.length ≠ 1 := by
    rw [hpanes]
    simp
    omega
  obtain ⟨focused, hclose, hfocus⟩ := closeFocused_of_removePane hpanes (by simp [hid, hbefore, hne]) htwo hr
  obtain rfl : focused = s.focused := by simpa using hfocus.symm
  rw [hclose, ← hc, ht]

/-- The rectangle that the layout gives to a pane. -/
def rect? (s : Session) (area : Rect) (pane : PaneId) : Option Rect := (s.layout area).lookup pane

theorem rect?_eq (s : Session) (area : Rect) (pane : PaneId) : s.rect? area pane = s.root.rect? area pane := by
  rw [rect?, layout_eq, Node.rect?]

theorem Wf.split_local (h : s.Wf) (hs : s.splitFocused direction = some (id, t)) (area : Rect) :
    (∀ pane ∈ s.panes, pane ≠ s.focused → t.rect? area pane = s.rect? area pane) ∧
      ∃ old, s.rect? area s.focused = some old ∧ t.rect? area s.focused = some (splitRect old direction).1 ∧
        t.rect? area id = some (splitRect old direction).2 := by
  obtain ⟨c, hc, hb, ht, hnew⟩ := h.split_fill hs
  have hroot : t.root = c.fill (.split direction (.pane s.focused) (.pane id)) := by rw [ht]
  have hid : id ∉ c.before ∧ id ≠ s.focused := by
    rw [panes_eq, hc, Node.Context.leaves_fill, Node.leaves] at hnew
    simp only [List.mem_append, List.mem_singleton, not_or] at hnew
    exact hnew.1
  simp only [rect?_eq, hroot, hc]
  refine ⟨fun pane hp hne => ?_, c.part area, ?_, ?_, ?_⟩
  · have hpid : pane ≠ id := fun he => hnew (he ▸ hp)
    exact Node.rect?_fill_congr (by simp [Node.leaves, hne, hpid]) (by simp [Node.leaves, hne])
  · rw [Node.rect?_fill (by simp [Node.leaves]) hb, Node.rect?_pane]
  · rw [Node.rect?_fill (by simp [Node.leaves]) hb, Node.rect?_split, Node.rect?_pane]
    rfl
  · have hnone : (Node.pane s.focused).rect? (splitRect (c.part area) direction).1 id = none :=
      (Node.rect?_eq_none _).mpr (by simpa [Node.leaves] using hid.2)
    rw [Node.rect?_fill (by simp [Node.leaves]) hid.1, Node.rect?_split, hnone, Node.rect?_pane]
    rfl

/-- Outside of the sibling a close moves nothing, and the sibling only grows. -/
theorem Wf.close_local (h : s.Wf) (htwo : 2 ≤ s.panes.length) (area : Rect) : ∃ t sibling,
    s.closeFocused = some (true, t) ∧ s.root.sibling s.focused = some sibling ∧
      (∀ pane ∈ t.panes, pane ∉ sibling.leaves → t.rect? area pane = s.rect? area pane) ∧
      ∀ pane ∈ sibling.leaves, ∃ r r', s.rect? area pane = some r ∧ t.rect? area pane = some r' ∧ r.NoLarger r' := by
  obtain ⟨c, parent, survivor, hc, hbeside, hsurvivor, hb, ha, hr⟩ := h.close_fill htwo
  obtain ⟨before, after, hp⟩ := List.append_of_mem h.focused
  obtain ⟨focused, hclose, -, -⟩ := h.closeFocused_panes hp htwo hr
  refine ⟨_, survivor, hclose, ?_, ?_, ?_⟩
  · rw [hc]
    exact Node.sibling_fill hbeside hsurvivor hb ha
  · intro pane hp hnot
    have hne : pane ≠ s.focused := by
      rintro rfl
      rw [panes_of_closeFocused hclose] at hp
      simpa using (List.mem_filter.mp hp).2
    simp only [rect?_eq, hc]
    exact Node.rect?_fill_congr hnot (fun hin => (hbeside.mem_leaves.mp hin).elim hne hnot)
  · intro pane hp
    have hn : s.root.leaves.Nodup := s.panes_eq ▸ h.nodup
    rw [hc, Node.Context.leaves_fill] at hn
    have hin : pane ∈ parent.leaves := hbeside.mem_leaves.mpr (.inr hp)
    have hpb : pane ∉ c.before := fun hb => (List.nodup_append.mp (List.nodup_append.mp hn).1).2.2 _ hb _ hin rfl
    simp only [rect?_eq, hc]
    rw [Node.rect?_fill hin hpb, Node.rect?_fill hp hpb]
    exact hbeside.grows hsurvivor hp

/-! ### Reachable sessions -/

/-- A split puts a fresh pane right behind the focused one, a close takes the focused pane out and focuses the
    one before it, or else the new first one, and a close undoes a split but for the identifier counter. -/
theorem split_close (hr : run step (Session.new name) ops = some s) :
    (∀ direction, (s.splitFocused direction = none ↔ s.nextId.toNat + 1 = 2 ^ 64) ∧
      ∀ id t, s.splitFocused direction = some (id, t) →
        id = ⟨s.nextId⟩ ∧ id ∉ s.panes ∧ t.focused = id ∧
        (∃ before after, s.panes = before ++ s.focused :: after ∧ t.panes = before ++ s.focused :: id :: after) ∧
        ∃ u, t.closeFocused = some (true, u) ∧ u = { s with nextId := t.nextId } ∧
          ∀ area, u.layout area = s.layout area) ∧
    (2 ≤ s.panes.length → ∃ t before after, s.closeFocused = some (true, t) ∧
      s.panes = before ++ s.focused :: after ∧ t.panes = before ++ after ∧
      before.getLast?.or after.head? = some t.focused) := by
  have h := wf_of_run hr
  refine ⟨fun direction => ⟨splitFocused_eq_none, fun id t hs => ?_⟩, fun htwo => ?_⟩
  · obtain ⟨hid, hfocused, -, -, before, after, hp, -, hp'⟩ := splitFocused_inv h.focused hs
    obtain ⟨c, -, -, -, hnew⟩ := h.split_fill hs
    exact ⟨hid, hnew, hfocused, ⟨before, after, hp, hp'⟩, _, h.closeFocused_split hs, rfl, fun area => rfl⟩
  · obtain ⟨before, after, hp⟩ := List.append_of_mem h.focused
    obtain ⟨t, hclose, hp', hfocus⟩ := h.closeFocused_exact hp htwo
    exact ⟨t, before, after, hclose, hp, hp', hfocus⟩

theorem split_close_two : ∃ s,
    run step (Session.new .work) [.splitFocused .horizontal] = some s ∧
    ∃ t, s.closeFocused = some (true, t) ∧ t.panes = [⟨1⟩] := by
  obtain ⟨s, hr, hp⟩ : ∃ s, run step (Session.new .work) [.splitFocused .horizontal] = some s ∧
      s.panes = [⟨1⟩, ⟨2⟩] := ⟨_, rfl, rfl⟩
  have hf : s.focused = ⟨2⟩ := by
    cases hr
    rfl
  obtain ⟨t, before, after, hclose, hp', hpt, -⟩ := (split_close hr).2 (by rw [hp]; decide)
  refine ⟨s, hr, t, hclose, ?_⟩
  rw [panes_of_closeFocused hclose, hp, hf]
  decide

/-- On the screen a split divides the rectangle of the focused pane and moves nothing else; a close moves only
    the panes in the sibling of the closed one, none of which gets smaller. -/
theorem edits_local (hr : run step (Session.new name) ops = some s) (area : Rect) :
    (∀ direction id t, s.splitFocused direction = some (id, t) →
      (∀ pane ∈ s.panes, pane ≠ s.focused → t.rect? area pane = s.rect? area pane) ∧
      ∃ old, s.rect? area s.focused = some old ∧ t.rect? area s.focused = some (splitRect old direction).1 ∧
        t.rect? area id = some (splitRect old direction).2) ∧
    (2 ≤ s.panes.length → ∃ t sibling, s.closeFocused = some (true, t) ∧
      s.root.sibling s.focused = some sibling ∧
      (∀ pane ∈ t.panes, pane ∉ sibling.leaves → t.rect? area pane = s.rect? area pane) ∧
      ∀ pane ∈ sibling.leaves, ∃ r r', s.rect? area pane = some r ∧ t.rect? area pane = some r' ∧ r.NoLarger r') := by
  have h := wf_of_run hr
  exact ⟨fun direction id t hs => h.split_local hs area, fun htwo => h.close_local htwo area⟩

theorem edits_local_widest : ∃ s t sibling,
    run step (Session.new .work) [.splitFocused .horizontal] = some s ∧ s.closeFocused = some (true, t) ∧
    s.root.sibling s.focused = some sibling ∧ ∀ pane ∈ sibling.leaves, ∃ r r',
      s.rect? ⟨0, 0, 65535, 24⟩ pane = some r ∧ t.rect? ⟨0, 0, 65535, 24⟩ pane = some r' ∧ r.NoLarger r' := by
  obtain ⟨s, hr, hp⟩ : ∃ s, run step (Session.new .work) [.splitFocused .horizontal] = some s ∧
      s.panes = [⟨1⟩, ⟨2⟩] := ⟨_, rfl, rfl⟩
  obtain ⟨t, sibling, hclose, hsibling, -, hgrow⟩ := (edits_local hr ⟨0, 0, 65535, 24⟩).2 (by rw [hp]; decide)
  exact ⟨s, t, sibling, hr, hclose, hsibling, hgrow⟩

end Session

end NovaMux

import NovaMux.Theorems.Layout

/-! Pane trees with a hole. A split or a close works at one place of a tree: what is around the place keeps its
    panes and their rectangles, whatever stands there. -/

namespace NovaMux

namespace Node

/-- A pane tree in which one subtree is missing. -/
inductive Context where
  | hole
  | first (direction : SplitDirection) (context : Context) (sibling : Node)
  | second (direction : SplitDirection) (sibling : Node) (context : Context)

namespace Context

def fill : Context → Node → Node
  | .hole, node => node
  | .first direction context sibling, node => .split direction (context.fill node) sibling
  | .second direction sibling context, node => .split direction sibling (context.fill node)

/-- The panes to the left of the hole. -/
def before : Context → List PaneId
  | .hole => []
  | .first _ context _ => context.before
  | .second _ sibling context => sibling.leaves ++ context.before

/-- The panes to the right of the hole. -/
def after : Context → List PaneId
  | .hole => []
  | .first _ context sibling => context.after ++ sibling.leaves
  | .second _ _ context => context.after

/-- The part of an area that is left to the hole. -/
def part : Context → Rect → Rect
  | .hole, area => area
  | .first direction context _, area => context.part (splitRect area direction).1
  | .second direction _ context, area => context.part (splitRect area direction).2

def rectsBefore : Context → Rect → List (PaneId × Rect)
  | .hole, _ => []
  | .first direction context _, area => context.rectsBefore (splitRect area direction).1
  | .second direction sibling context, area =>
    sibling.rects (splitRect area direction).1 ++ context.rectsBefore (splitRect area direction).2

def rectsAfter : Context → Rect → List (PaneId × Rect)
  | .hole, _ => []
  | .first direction context sibling, area =>
    context.rectsAfter (splitRect area direction).1 ++ sibling.rects (splitRect area direction).2
  | .second direction _ context, area => context.rectsAfter (splitRect area direction).2

variable {c : Context} {node : Node} {target newPane : PaneId} {direction : SplitDirection}

@[simp] theorem leaves_fill (c : Context) (node : Node) :
    (c.fill node).leaves = c.before ++ node.leaves ++ c.after := by
  induction c with
  | hole => simp [fill, before, after]
  | first direction context sibling ih => simp [fill, before, after, leaves, ih]
  | second direction sibling context ih => simp [fill, before, after, leaves, ih]

theorem rects_fill (c : Context) (node : Node) (area : Rect) :
    (c.fill node).rects area = c.rectsBefore area ++ node.rects (c.part area) ++ c.rectsAfter area := by
  induction c generalizing area with
  | hole => simp [fill, part, rectsBefore, rectsAfter]
  | first direction context sibling ih => simp [fill, part, rectsBefore, rectsAfter, rects, ih]
  | second direction sibling context ih => simp [fill, part, rectsBefore, rectsAfter, rects, ih]

theorem map_fst_rectsBefore (c : Context) (area : Rect) : (c.rectsBefore area).map Prod.fst = c.before := by
  induction c generalizing area with
  | hole => rfl
  | first direction context sibling ih => rw [rectsBefore, ih, before]
  | second direction sibling context ih => rw [rectsBefore, List.map_append, map_fst_rects, ih, before]

/-! ### Splitting at the hole -/

theorem splitNode_fill (h : target ∉ c.before) :
    splitNode target newPane direction (c.fill (.pane target)) =
      (c.fill (.split direction (.pane target) (.pane newPane)), true) := by
  induction c with
  | hole => simp [fill, splitNode]
  | first d context sibling ih => simp only [fill, splitNode, ih h]
  | second d sibling context ih =>
    rw [before, List.mem_append, not_or] at h
    simp only [fill, splitNode, splitNode_of_notMem h.1, ih h.2]

/-- The first occurrence of a pane, with what is around it. -/
theorem exists_of_mem (h : target ∈ node.leaves) :
    ∃ c : Context, node = c.fill (.pane target) ∧ target ∉ c.before := by
  induction node with
  | pane id =>
    obtain rfl : target = id := by simpa [leaves] using h
    exact ⟨.hole, rfl, List.not_mem_nil⟩
  | split d first second ihf ihs =>
    by_cases hf : target ∈ first.leaves
    · obtain ⟨c, rfl, hc⟩ := ihf hf
      exact ⟨.first d c second, rfl, hc⟩
    · rw [leaves, List.mem_append] at h
      obtain ⟨c, rfl, hc⟩ := ihs (h.resolve_left hf)
      exact ⟨.second d first c, rfl, fun hb => (List.mem_append.mp hb).elim hf hc⟩

end Context

/-! ### Removing at the hole -/

/-- A split of a pane and a sibling, in either order. -/
inductive Beside (target : PaneId) (sibling : Node) : Node → Prop where
  | first (direction : SplitDirection) : Beside target sibling (.split direction (.pane target) sibling)
  | second (direction : SplitDirection) : Beside target sibling (.split direction sibling (.pane target))

/-- The subtree that shares a split with a pane. -/
def sibling (target : PaneId) : Node → Option Node
  | .pane _ => none
  | .split _ first second =>
    if first = .pane target then some second
    else if second = .pane target then some first
    else (first.sibling target).or (second.sibling target)

variable {c : Context} {node parent survivor : Node} {target : PaneId}

theorem removePane_of_notMem (h : target ∉ node.leaves) : removePane target node = some node := by
  induction node with
  | pane id =>
    have hne : id ≠ target := fun he => h (by simp [leaves, he])
    rw [removePane, if_pos hne]
  | split direction first second ihf ihs =>
    rw [leaves, List.mem_append, not_or] at h
    simp only [removePane, ihf h.1, ihs h.2]

theorem sibling_of_notMem (h : target ∉ node.leaves) : node.sibling target = none := by
  induction node with
  | pane id => rfl
  | split direction first second ihf ihs =>
    rw [leaves, List.mem_append, not_or] at h
    obtain ⟨hf, hs⟩ := h
    have hfirst : first ≠ .pane target := fun he => hf (by simp [he, leaves])
    have hsecond : second ≠ .pane target := fun he => hs (by simp [he, leaves])
    rw [sibling, if_neg hfirst, if_neg hsecond, ihf hf, ihs hs]
    rfl

theorem Beside.removePane (h : Beside target survivor parent) (hn : target ∉ survivor.leaves) :
    removePane target parent = some survivor := by
  cases h <;> simp [NovaMux.removePane, removePane_of_notMem hn]

theorem Beside.sibling (h : Beside target survivor parent) (hn : target ∉ survivor.leaves) :
    parent.sibling target = some survivor := by
  have hne : survivor ≠ .pane target := fun he => hn (by simp [he, leaves])
  cases h <;> simp [Node.sibling, hne]

theorem Beside.ne_pane (h : Beside target survivor parent) (id : PaneId) : parent ≠ .pane id := by
  cases h <;> exact fun he => (by cases he)

theorem Beside.mem_leaves (h : Beside target survivor parent) {pane : PaneId} :
    pane ∈ parent.leaves ↔ pane = target ∨ pane ∈ survivor.leaves := by
  cases h <;> simp [leaves, or_comm]

theorem Beside.mem_target (h : Beside target survivor parent) : target ∈ parent.leaves := h.mem_leaves.mpr (.inl rfl)

/-- Around the hole a removal changes nothing. -/
theorem removePane_fill (h : removePane target parent = some survivor) (hb : target ∉ c.before)
    (ha : target ∉ c.after) : removePane target (c.fill parent) = some (c.fill survivor) := by
  induction c with
  | hole => exact h
  | first direction context sibling ih =>
    rw [Context.after, List.mem_append, not_or] at ha
    simp only [Context.fill, removePane, ih hb ha.1, removePane_of_notMem ha.2]
  | second direction sibling context ih =>
    rw [Context.before, List.mem_append, not_or] at hb
    simp only [Context.fill, removePane, ih hb.2 ha, removePane_of_notMem hb.1]

theorem sibling_fill (h : Beside target survivor parent) (hn : target ∉ survivor.leaves) (hb : target ∉ c.before)
    (ha : target ∉ c.after) : (c.fill parent).sibling target = some survivor := by
  have inner : ∀ context : Context, context.fill parent ≠ .pane target := by
    intro context
    cases context with
    | hole => exact h.ne_pane target
    | first | second => exact fun he => (by cases he)
  induction c with
  | hole => exact h.sibling hn
  | first direction context sibling ih =>
    rw [Context.after, List.mem_append, not_or] at ha
    have hne : sibling ≠ .pane target := fun he => ha.2 (by simp [he, leaves])
    rw [Context.fill, Node.sibling, if_neg (inner context), if_neg hne, ih hb ha.1]
    rfl
  | second direction sibling context ih =>
    rw [Context.before, List.mem_append, not_or] at hb
    have hne : sibling ≠ .pane target := fun he => hb.1 (by simp [he, leaves])
    rw [Context.fill, Node.sibling, if_neg hne, if_neg (inner context), sibling_of_notMem hb.1, ih hb.2 ha]
    rfl

/-- A pane is the whole tree or shares a split with a sibling. -/
theorem exists_beside (h : target ∈ node.leaves) :
    node = .pane target ∨ ∃ (c : Context) (parent survivor : Node), node = c.fill parent ∧ Beside target survivor parent := by
  induction node with
  | pane id =>
    obtain rfl : target = id := by simpa [leaves] using h
    exact Or.inl rfl
  | split direction first second ihf ihs =>
    refine Or.inr ?_
    rcases List.mem_append.mp h with hf | hs
    · rcases ihf hf with rfl | ⟨c, parent, survivor, rfl, hbeside⟩
      · exact ⟨.hole, _, second, rfl, .first direction⟩
      · exact ⟨.first direction c second, parent, survivor, rfl, hbeside⟩
    · rcases ihs hs with rfl | ⟨c, parent, survivor, rfl, hbeside⟩
      · exact ⟨.hole, _, first, rfl, .second direction⟩
      · exact ⟨.second direction first c, parent, survivor, rfl, hbeside⟩

end Node

end NovaMux

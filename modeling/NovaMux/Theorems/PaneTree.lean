import NovaMux.Core.Session
import Mathlib.Data.List.Nodup

/-! Pane trees as lists of panes. Flattening reads the leaves from left to right, a split puts the new pane
    right after its target, and a removal filters the target out. -/

namespace NovaMux

def Node.leaves : Node → List PaneId
  | .pane id => [id]
  | .split _ first second => first.leaves ++ second.leaves

theorem Node.leaves_ne_nil (node : Node) : node.leaves ≠ [] := by
  induction node with
  | pane id => simp [leaves]
  | split _ first second ihf _ => simp [leaves, ihf]

theorem collectPanes_eq (node : Node) (output : List PaneId) : collectPanes output node = output ++ node.leaves := by
  induction node generalizing output with
  | pane id => rfl
  | split _ first second ihf ihs => rw [collectPanes, ihf, ihs, Node.leaves, List.append_assoc]

@[simp] theorem Session.panes_eq (s : Session) : s.panes = s.root.leaves := by
  simp [Session.panes, collectPanes_eq]

/-! ### Splitting -/

variable {target newPane : PaneId} {direction : SplitDirection}

theorem splitNode_of_notMem {node : Node} (h : target ∉ node.leaves) :
    splitNode target newPane direction node = (node, false) := by
  induction node with
  | pane id =>
    have hne : id ≠ target := fun e => h (by simp [Node.leaves, e])
    rw [splitNode, if_neg hne]
  | split d first second ihf ihs =>
    rw [Node.leaves, List.mem_append, not_or] at h
    simp only [splitNode, ihf h.1, ihs h.2]

/-- The new pane follows the first occurrence of the target, and every other pane stays in place. -/
theorem splitNode_of_mem {node : Node} (newPane : PaneId) (direction : SplitDirection) (h : target ∈ node.leaves) :
    (splitNode target newPane direction node).2 = true ∧ ∃ before after,
      node.leaves = before ++ target :: after ∧ target ∉ before ∧
      (splitNode target newPane direction node).1.leaves = before ++ target :: newPane :: after := by
  induction node with
  | pane id =>
    obtain rfl : target = id := by simpa [Node.leaves] using h
    rw [splitNode, if_pos rfl]
    exact ⟨rfl, [], [], rfl, List.not_mem_nil, rfl⟩
  | split d first second ihf ihs =>
    by_cases hf : target ∈ first.leaves
    · obtain ⟨hfound, before, after, hl, hb, hn⟩ := ihf hf
      have hsplit : splitNode target newPane direction (.split d first second) =
          (.split d (splitNode target newPane direction first).1 second, true) := by
        rw [splitNode]
        split
        · next heq => rw [heq]
        · next heq => rw [heq] at hfound; cases hfound
      rw [hsplit]
      refine ⟨rfl, before, after ++ second.leaves, ?_, hb, ?_⟩
      · rw [Node.leaves, hl, List.append_assoc, List.cons_append]
      · rw [Node.leaves, hn, List.append_assoc, List.cons_append, List.cons_append]
    -- The first child is tried before, and does not have the pane.
    · have hs : target ∈ second.leaves := by
        rw [Node.leaves, List.mem_append] at h
        exact h.resolve_left hf
      obtain ⟨hfound, before, after, hl, hb, hn⟩ := ihs hs
      have hsplit : splitNode target newPane direction (.split d first second) =
          (.split d first (splitNode target newPane direction second).1, true) := by
        simp only [splitNode, splitNode_of_notMem hf, hfound]
      rw [hsplit]
      refine ⟨rfl, first.leaves ++ before, after, ?_, ?_, ?_⟩
      · rw [Node.leaves, hl, List.append_assoc]
      · rw [List.mem_append, not_or]
        exact ⟨hf, hb⟩
      · rw [Node.leaves, hn, List.append_assoc]

/-! ### Removing -/

/-- A removal leaves the other panes in order, and no tree when there are none. -/
theorem removePane_leaves (node : Node) :
    (∀ rest, removePane target node = some rest → rest.leaves = node.leaves.filter (· ≠ target)) ∧
    (removePane target node = none → node.leaves.filter (· ≠ target) = []) := by
  induction node with
  | pane id =>
    by_cases hid : id = target
    · simp [removePane, Node.leaves, hid]
    · simp [removePane, Node.leaves, hid]
  | split d first second ihf ihs =>
    rw [removePane, Node.leaves, List.filter_append]
    cases hf : removePane target first <;> cases hs : removePane target second
    · simp only [reduceCtorEq, false_implies, implies_true, true_and, forall_const]
      rw [ihf.2 hf, ihs.2 hs, List.append_nil]
    · simp only [Option.some.injEq, forall_eq', reduceCtorEq, false_implies, and_true]
      rw [ihf.2 hf, ihs.1 _ hs, List.nil_append]
    · simp only [Option.some.injEq, forall_eq', reduceCtorEq, false_implies, and_true]
      rw [ihf.1 _ hf, ihs.2 hs, List.append_nil]
    · simp only [Option.some.injEq, forall_eq', reduceCtorEq, false_implies, and_true]
      rw [Node.leaves, ihf.1 _ hf, ihs.1 _ hs]

theorem leaves_of_removePane {node rest : Node} (h : removePane target node = some rest) :
    rest.leaves = node.leaves.filter (· ≠ target) := (removePane_leaves node).1 rest h

theorem exists_removePane (target : PaneId) (node : Node) (h : ∃ id ∈ node.leaves, id ≠ target) :
    ∃ rest, removePane target node = some rest := by
  refine Option.ne_none_iff_exists'.mp fun hnone => ?_
  obtain ⟨id, hid, hne⟩ := h
  have hmem : id ∈ node.leaves.filter (· ≠ target) := List.mem_filter.mpr ⟨hid, by simpa using hne⟩
  rw [(removePane_leaves node).2 hnone] at hmem
  exact List.not_mem_nil hmem

end NovaMux

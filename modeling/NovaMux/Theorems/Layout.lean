import NovaMux.Lib.Cover
import NovaMux.Theorems.SessionRuns

/-! Layouts tile their area. The two parts of a split are a cut of the area along one side, so the
    rectangles of a tree are an exact cover of the cells, one rectangle for each pane in tree order. In an
    area that ends within the `u16` range no position or extent saturates; only the rounding of a side of
    65535 cells does, and it leaves the odd cell to the second part. -/

namespace NovaMux

open Set

def Node.rects : Node → Rect → List (PaneId × Rect)
  | .pane id, area => [(id, area)]
  | .split direction first second, area =>
    first.rects (splitRect area direction).1 ++ second.rects (splitRect area direction).2

theorem layoutNode_eq (node : Node) (area : Rect) (output : List (PaneId × Rect)) :
    layoutNode output node area = output ++ node.rects area := by
  induction node generalizing area output with
  | pane id => rfl
  | split direction first second ihf ihs => simp only [layoutNode, ihf, ihs, Node.rects, List.append_assoc]

@[simp] theorem Session.layout_eq (s : Session) (area : Rect) : s.layout area = s.root.rects area := by
  simp [Session.layout, layoutNode_eq]

theorem Node.map_fst_rects (node : Node) (area : Rect) : (node.rects area).map Prod.fst = node.leaves := by
  induction node generalizing area with
  | pane id => rfl
  | split direction first second ihf ihs => rw [Node.rects, List.map_append, ihf, ihs, Node.leaves]

namespace Rect

structure Fits (area : Rect) : Prop where
  x : area.x.toNat + area.width.toNat ≤ 65535
  y : area.y.toNat + area.height.toNat ≤ 65535

/-- `r` lies inside `area`; a rectangle without cells has a place too. -/
structure Inside (r area : Rect) : Prop where
  left : area.x.toNat ≤ r.x.toNat
  right : r.x.toNat + r.width.toNat ≤ area.x.toNat + area.width.toNat
  top : area.y.toNat ≤ r.y.toNat
  bottom : r.y.toNat + r.height.toNat ≤ area.y.toNat + area.height.toNat

theorem Inside.refl (r : Rect) : r.Inside r := ⟨le_rfl, le_rfl, le_rfl, le_rfl⟩

theorem Inside.trans {r m area : Rect} (h₁ : r.Inside m) (h₂ : m.Inside area) : r.Inside area where
  left := h₂.left.trans h₁.left
  right := h₁.right.trans h₂.right
  top := h₂.top.trans h₁.top
  bottom := h₁.bottom.trans h₂.bottom

theorem Inside.fits {r area : Rect} (h : r.Inside area) (hf : area.Fits) : r.Fits :=
  ⟨h.right.trans hf.x, h.bottom.trans hf.y⟩

def contains (r : Rect) (column row : Nat) : Bool :=
  decide (r.x.toNat ≤ column ∧ column < r.x.toNat + r.width.toNat ∧
    r.y.toNat ≤ row ∧ row < r.y.toNat + r.height.toNat)

def cells (r : Rect) : Set (ℕ × ℕ) :=
  Ico r.x.toNat (r.x.toNat + r.width.toNat) ×ˢ Ico r.y.toNat (r.y.toNat + r.height.toNat)

theorem contains_iff {r : Rect} {column row : Nat} : r.contains column row = true ↔ (column, row) ∈ r.cells := by
  simp only [contains, cells, decide_eq_true_eq, mem_prod, mem_Ico, and_assoc]

/-- The saturating operations of one split that a coordinate comes from have their exact results, and
    so has the rounding of a side below 65535. -/
def SplitExact (area : Rect) : SplitDirection → Prop
  | .horizontal =>
    let first := area.width.saturatingAdd 1 / 2
    (area.x.saturatingAdd first).toNat = area.x.toNat + first.toNat ∧
    (area.width.saturatingSub first).toNat + first.toNat = area.width.toNat ∧
    (area.width.toNat < 65535 → (area.width.saturatingAdd 1).toNat = area.width.toNat + 1)
  | .vertical =>
    let first := area.height.saturatingAdd 1 / 2
    (area.y.saturatingAdd first).toNat = area.y.toNat + first.toNat ∧
    (area.height.saturatingSub first).toNat + first.toNat = area.height.toNat ∧
    (area.height.toNat < 65535 → (area.height.saturatingAdd 1).toNat = area.height.toNat + 1)

theorem toNat_half (n : UInt16) : (n.saturatingAdd 1 / 2).toNat = min (n.toNat + 1) 65535 / 2 := by
  rw [UInt16.toNat_div, UInt16.toNat_saturatingAdd]
  rfl

theorem Fits.splitExact {area : Rect} (h : area.Fits) (direction : SplitDirection) : area.SplitExact direction := by
  have hx := h.x
  have hy := h.y
  have one : (1 : UInt16).toNat = 1 := rfl
  cases direction <;>
    · simp only [SplitExact, toNat_half, UInt16.toNat_saturatingAdd, UInt16.toNat_saturatingSub, one]
      omega

theorem Fits.split_inside {area : Rect} (h : area.Fits) (direction : SplitDirection) :
    (splitRect area direction).1.Inside area ∧ (splitRect area direction).2.Inside area := by
  have hx := h.x
  have hy := h.y
  cases direction <;>
    constructor <;> constructor <;>
      simp only [splitRect, toNat_half, UInt16.toNat_saturatingAdd, UInt16.toNat_saturatingSub] <;>
      omega

end Rect

/-- No coordinate saturates anywhere in the layout of a tree. -/
def Node.Unclamped : Node → Rect → Prop
  | .pane _, _ => True
  | .split direction first second, area =>
    area.SplitExact direction ∧ first.Unclamped (splitRect area direction).1 ∧
      second.Unclamped (splitRect area direction).2

namespace Node

theorem unclamped (node : Node) {area : Rect} (h : area.Fits) : node.Unclamped area := by
  induction node generalizing area with
  | pane id => trivial
  | split direction first second ihf ihs =>
    obtain ⟨h₁, h₂⟩ := h.split_inside direction
    exact ⟨h.splitExact direction, ihf (h₁.fits h), ihs (h₂.fits h)⟩

theorem rects_inside (node : Node) {area : Rect} (h : area.Fits) : ∀ e ∈ node.rects area, e.2.Inside area := by
  induction node generalizing area with
  | pane id =>
    intro e he
    rw [List.mem_singleton.mp he]
    exact Rect.Inside.refl area
  | split direction first second ihf ihs =>
    obtain ⟨h₁, h₂⟩ := h.split_inside direction
    intro e he
    rcases List.mem_append.mp he with he | he
    · exact (ihf (h₁.fits h) e he).trans h₁
    · exact (ihs (h₂.fits h) e he).trans h₂

/-- The rectangles of a tree cover the area exactly: a split cuts it along one side. -/
theorem rects_cover (node : Node) {area : Rect} (h : area.Fits) :
    Cover.Exact area.cells ((node.rects area).map fun e => e.2.cells) := by
  induction node generalizing area with
  | pane id => exact Cover.Exact.single area.cells
  | split direction first second ihf ihs =>
    obtain ⟨h₁, h₂⟩ := h.split_inside direction
    have hfirst := ihf (h₁.fits h)
    have hsecond := ihs (h₂.fits h)
    have hexact := h.splitExact direction
    rw [Node.rects, List.map_append]
    cases direction with
    | horizontal =>
      obtain ⟨hpos, hext, -⟩ := hexact
      simp only [Rect.cells, splitRect] at hfirst hsecond ⊢
      rw [hpos] at hsecond
      refine Cover.Exact.cut_fst (Nat.le_add_right _ _) ?_ hfirst (hsecond.congr ?_ rfl)
      · omega
      · congr 2
        omega
    | vertical =>
      obtain ⟨hpos, hext, -⟩ := hexact
      simp only [Rect.cells, splitRect] at hfirst hsecond ⊢
      rw [hpos] at hsecond
      refine Cover.Exact.cut_snd (Nat.le_add_right _ _) ?_ hfirst (hsecond.congr ?_ rfl)
      · omega
      · congr 2
        omega

/-- Each cell of the area is in exactly one rectangle, and no other cell is in any. -/
theorem count_contains (node : Node) {area : Rect} (h : area.Fits) (column row : Nat) :
    (node.rects area).countP (fun e => e.2.contains column row) = if area.contains column row then 1 else 0 := by
  have : Decidable ((column, row) ∈ area.cells) := decidable_of_iff _ Rect.contains_iff
  rw [(node.rects_cover h).countP_eq_ite (fun _ _ => Rect.contains_iff)]
  exact if_congr Rect.contains_iff.symm rfl rfl

end Node

namespace Session

/-- The layout of a reachable session lists every pane once in tree order, inside the area, with every
    cell of the area in exactly one rectangle and no cell outside of it in any, and clamps no coordinate. -/
theorem layout_tiles {name : SessionName} {ops : List SessionOp} {s : Session}
    (hr : Machine.run step (Session.new name) ops = some s) (area : Rect)
    (hx : area.x.toNat + area.width.toNat ≤ 65535) (hy : area.y.toNat + area.height.toNat ≤ 65535) :
    (s.layout area).map Prod.fst = s.panes ∧ s.panes.Nodup ∧ (∀ e ∈ s.layout area, e.2.Inside area) ∧
      (∀ column row, (s.layout area).countP (fun e => e.2.contains column row) =
        if area.contains column row then 1 else 0) ∧
      s.root.Unclamped area := by
  have hf : area.Fits := ⟨hx, hy⟩
  rw [layout_eq]
  exact ⟨by rw [Node.map_fst_rects, panes_eq], (wf_of_run hr).nodup, s.root.rects_inside hf, s.root.count_contains hf,
    s.root.unclamped hf⟩

theorem layout_tiles_widest : ∃ s,
    Machine.run step (Session.new .work)
      [.splitFocused .horizontal, .splitFocused .vertical] = some s ∧
    (s.layout ⟨0, 0, 65535, 25⟩).countP (fun e => e.2.contains 32767 12) = 1 := by
  obtain ⟨s, hr, -⟩ := (Wf.new .work).run [.splitFocused .horizontal, .splitFocused .vertical] (by decide)
  obtain ⟨-, -, -, hcell, -⟩ := layout_tiles hr ⟨0, 0, 65535, 25⟩ (by decide) (by decide)
  exact ⟨s, hr, by rw [hcell]; rfl⟩

end Session

end NovaMux

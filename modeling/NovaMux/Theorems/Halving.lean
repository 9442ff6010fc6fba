import NovaMux.Theorems.Layout

/-! The layout against its rule. The rule gives the first child of a split the larger half of a side, over
    unbounded numbers; the code halves in `u16` and adds one with saturation. The two agree unless a side of 65535
    cells is cut: there the odd cell goes to the second child. -/

namespace NovaMux

/-! ### The rule -/

/-- A rectangle of any size, anywhere. -/
structure Area where
  x : Nat
  y : Nat
  width : Nat
  height : Nat
deriving DecidableEq, Repr

def Rect.area (r : Rect) : Area := ⟨r.x.toNat, r.y.toNat, r.width.toNat, r.height.toNat⟩

/-- The halves of an area. An odd cell is the first one's. -/
def Area.halve (a : Area) : SplitDirection → Area × Area
  | .horizontal =>
    ({ a with width := (a.width + 1) / 2 }, { a with x := a.x + (a.width + 1) / 2, width := a.width / 2 })
  | .vertical =>
    ({ a with height := (a.height + 1) / 2 }, { a with y := a.y + (a.height + 1) / 2, height := a.height / 2 })

/-- The layout by the rule. -/
def Node.areas : Node → Area → List (PaneId × Area)
  | .pane id, a => [(id, a)]
  | .split direction first second, a =>
    first.areas (a.halve direction).1 ++ second.areas (a.halve direction).2

/-! ### Sides -/

/-- Where the side begins that a split of this direction cuts. -/
def Area.start (a : Area) : SplitDirection → Nat
  | .horizontal => a.x
  | .vertical => a.y

def Area.extent (a : Area) : SplitDirection → Nat
  | .horizontal => a.width
  | .vertical => a.height

/-- Whether some split of a tree has the direction. -/
def Node.cuts (direction : SplitDirection) : Node → Bool
  | .pane _ => false
  | .split d first second => d == direction || first.cuts direction || second.cuts direction

/-- No side of 65535 cells is cut. -/
def Node.Narrow (node : Node) (area : Rect) : Prop :=
  ∀ direction, area.area.extent direction = 65535 → node.cuts direction = false

variable {node : Node} {area : Rect} {a : Area} {direction d : SplitDirection}

theorem Area.ext_sides {a b : Area} (h : ∀ d, a.start d = b.start d ∧ a.extent d = b.extent d) : a = b := by
  obtain ⟨hx, hw⟩ := h .horizontal
  obtain ⟨hy, hh⟩ := h .vertical
  simp only [start, extent] at hx hw hy hh
  cases a
  cases b
  simp_all

theorem Area.halve_same (a : Area) (d : SplitDirection) :
    (a.halve d).1.start d = a.start d ∧ (a.halve d).1.extent d = (a.extent d + 1) / 2 ∧
      (a.halve d).2.start d = a.start d + (a.extent d + 1) / 2 ∧ (a.halve d).2.extent d = a.extent d / 2 := by
  cases d <;> exact ⟨rfl, rfl, rfl, rfl⟩

theorem Area.halve_other (a : Area) (h : direction ≠ d) :
    (a.halve direction).1.start d = a.start d ∧ (a.halve direction).1.extent d = a.extent d ∧
      (a.halve direction).2.start d = a.start d ∧ (a.halve direction).2.extent d = a.extent d := by
  cases direction <;> cases d <;> first | exact absurd rfl h | exact ⟨rfl, rfl, rfl, rfl⟩

/-- The side that a split cuts, as the code computes it in an area that ends within the range. -/
theorem splitRect_same (h : area.Fits) (d : SplitDirection) :
    (splitRect area d).1.area.start d = area.area.start d ∧
      (splitRect area d).1.area.extent d = min (area.area.extent d + 1) 65535 / 2 ∧
      (splitRect area d).2.area.start d = area.area.start d + min (area.area.extent d + 1) 65535 / 2 ∧
      (splitRect area d).2.area.extent d = area.area.extent d - min (area.area.extent d + 1) 65535 / 2 := by
  have hx := h.x
  have hy := h.y
  cases d <;>
    simp only [splitRect, Rect.area, Area.start, Area.extent, Rect.toNat_half, UInt16.toNat_saturatingAdd,
      UInt16.toNat_saturatingSub, true_and, and_true] <;>
    omega

theorem splitRect_other (area : Rect) (h : direction ≠ d) :
    (splitRect area direction).1.area.start d = area.area.start d ∧
      (splitRect area direction).1.area.extent d = area.area.extent d ∧
      (splitRect area direction).2.area.start d = area.area.start d ∧
      (splitRect area direction).2.area.extent d = area.area.extent d := by
  cases direction <;> cases d <;> first | exact absurd rfl h | exact ⟨rfl, rfl, rfl, rfl⟩

theorem Rect.Fits.extent_le (h : area.Fits) (d : SplitDirection) :
    area.area.start d + area.area.extent d ≤ 65535 := by
  cases d
  · exact h.x
  · exact h.y

/-! ### Agreement -/

theorem splitRect_eq_halve (h : area.Fits) (hd : area.area.extent direction ≠ 65535) :
    (splitRect area direction).1.area = (area.area.halve direction).1 ∧
      (splitRect area direction).2.area = (area.area.halve direction).2 := by
  have hle := h.extent_le direction
  obtain ⟨h₁, h₂, h₃, h₄⟩ := splitRect_same h direction
  obtain ⟨e₁, e₂, e₃, e₄⟩ := area.area.halve_same direction
  constructor <;>
    refine Area.ext_sides fun d => ?_ <;>
    by_cases he : direction = d
  · subst he
    omega
  · have hs := splitRect_other area he
    have ha := area.area.halve_other he
    omega
  · subst he
    omega
  · have hs := splitRect_other area he
    have ha := area.area.halve_other he
    omega

/-- The parts of a narrow area are narrow: the side that was cut is short, the other one is as it was. -/
theorem Node.Narrow.split {first second : Node} (hf : area.Fits) (h : (Node.split direction first second).Narrow area) :
    area.area.extent direction ≠ 65535 ∧ first.Narrow (splitRect area direction).1 ∧
      second.Narrow (splitRect area direction).2 := by
  have hcut : area.area.extent direction ≠ 65535 := by
    intro he
    have hno := h direction he
    simp [cuts] at hno
  have hle := hf.extent_le direction
  obtain ⟨-, h₂, -, h₄⟩ := splitRect_same hf direction
  have inner : ∀ d, area.area.extent d = 65535 → first.cuts d = false ∧ second.cuts d = false := by
    intro d he
    have hno := h d he
    simp only [cuts, Bool.or_eq_false_iff] at hno
    exact ⟨hno.1.2, hno.2⟩
  refine ⟨hcut, fun d he => ?_, fun d he => ?_⟩
  · by_cases hd : direction = d
    · subst hd
      omega
    · exact (inner d ((splitRect_other _ hd).2.1 ▸ he)).1
  · by_cases hd : direction = d
    · subst hd
      omega
    · exact (inner d ((splitRect_other _ hd).2.2.2 ▸ he)).2

theorem Node.rects_eq_areas (hf : area.Fits) (h : node.Narrow area) :
    (node.rects area).map (fun e => (e.1, e.2.area)) = node.areas area.area := by
  induction node generalizing area with
  | pane id => rfl
  | split direction first second ihf ihs =>
    obtain ⟨hcut, hfirst, hsecond⟩ := h.split hf
    obtain ⟨h₁, h₂⟩ := hf.split_inside direction
    obtain ⟨e₁, e₂⟩ := splitRect_eq_halve hf hcut
    rw [rects, areas, List.map_append, ihf (h₁.fits hf) hfirst, ihs (h₂.fits hf) hsecond, e₁, e₂]

/-! ### Disagreement -/

/-- The first pane of a tree begins where the area does. -/
theorem Node.head_rects (node : Node) (area : Rect) : ∃ id r rest, node.rects area = (id, r) :: rest ∧
    ∀ d, r.area.start d = area.area.start d := by
  induction node generalizing area with
  | pane id => exact ⟨id, area, [], rfl, fun d => rfl⟩
  | split direction first second ihf ihs =>
    obtain ⟨id, r, rest, hr, hstart⟩ := ihf (splitRect area direction).1
    refine ⟨id, r, _, by rw [rects, hr, List.cons_append], fun d => (hstart d).trans ?_⟩
    cases direction <;> cases d <;> rfl

theorem Node.head_areas (node : Node) (a : Area) : ∃ id b rest, node.areas a = (id, b) :: rest ∧
    ∀ d, b.start d = a.start d := by
  induction node generalizing a with
  | pane id => exact ⟨id, a, [], rfl, fun d => rfl⟩
  | split direction first second ihf ihs =>
    obtain ⟨id, b, rest, hb, hstart⟩ := ihf (a.halve direction).1
    refine ⟨id, b, _, by rw [areas, hb, List.cons_append], fun d => (hstart d).trans ?_⟩
    cases direction <;> cases d <;> rfl

theorem Node.map_fst_areas (node : Node) (a : Area) : (node.areas a).map Prod.fst = node.leaves := by
  induction node generalizing a with
  | pane id => rfl
  | split direction first second ihf ihs => rw [areas, List.map_append, ihf, ihs, leaves]

theorem Node.length_rects (node : Node) (area : Rect) (a : Area) :
    ((node.rects area).map fun e => (e.1, e.2.area)).length = (node.areas a).length := by
  rw [List.length_map, ← List.length_map (f := Prod.fst), node.map_fst_rects, ← node.map_fst_areas a, List.length_map]

/-- A side of 65535 cells that is cut shows: the outermost cut puts its second child one cell too far to the left. The
    other side of the area may be off already. -/
theorem Node.cuts_eq_false (hf : area.Fits) (hstart : a.start d = area.area.start d)
    (hextent : a.extent d = area.area.extent d) (hmax : area.area.extent d = 65535)
    (h : (node.rects area).map (fun e => (e.1, e.2.area)) = node.areas a) : node.cuts d = false := by
  induction node generalizing area a with
  | pane id => rfl
  | split direction first second ihf ihs =>
    obtain ⟨h₁, h₂⟩ := hf.split_inside direction
    rw [rects, areas, List.map_append] at h
    obtain ⟨hfirst, hsecond⟩ := List.append_inj h (length_rects _ _ _)
    by_cases hd : direction = d
    · subst hd
      obtain ⟨-, -, hs, -⟩ := splitRect_same hf direction
      obtain ⟨-, -, he, -⟩ := a.halve_same direction
      obtain ⟨id, r, rest, hr, hrstart⟩ := second.head_rects (splitRect area direction).2
      obtain ⟨id', b, rest', hb, hbstart⟩ := second.head_areas (a.halve direction).2
      rw [hr, hb, List.map_cons] at hsecond
      have hsame : r.area = b := (Prod.mk.inj (List.cons.inj hsecond).1).2
      have h₃ := hrstart direction
      have h₄ := hbstart direction
      rw [← hsame] at h₄
      omega
    · obtain ⟨s₁, s₂, s₃, s₄⟩ := splitRect_other area hd
      obtain ⟨e₁, e₂, e₃, e₄⟩ := a.halve_other hd
      have hcut₁ := ihf (h₁.fits hf) (by omega) (by omega) (by omega) hfirst
      have hcut₂ := ihs (h₂.fits hf) (by omega) (by omega) (by omega) hsecond
      simp [cuts, hd, hcut₁, hcut₂]

/-! ### Sessions -/

namespace Session

/-- The layout follows the rule exactly when no side of 65535 cells is cut by a split. -/
theorem layout_halves (s : Session) (area : Rect) (hx : area.x.toNat + area.width.toNat ≤ 65535)
    (hy : area.y.toNat + area.height.toNat ≤ 65535) :
    (s.layout area).map (fun e => (e.1, e.2.area)) = s.root.areas area.area ↔
      (area.width = 65535 → s.root.cuts .horizontal = false) ∧ (area.height = 65535 → s.root.cuts .vertical = false) := by
  have hf : area.Fits := ⟨hx, hy⟩
  have side : ∀ n : UInt16, n = 65535 ↔ n.toNat = 65535 := fun n => UInt16.toNat_inj.symm
  rw [layout_eq, side, side]
  refine ⟨fun h => ⟨fun hw => ?_, fun hh => ?_⟩, fun h => Node.rects_eq_areas hf ?_⟩
  · exact Node.cuts_eq_false (d := .horizontal) hf rfl rfl hw h
  · exact Node.cuts_eq_false (d := .vertical) hf rfl rfl hh h
  · intro direction he
    cases direction with
    | horizontal => exact h.1 he
    | vertical => exact h.2 he

theorem layout_halves_odd : ∃ s,
    Machine.run step (Session.new .work) [.splitFocused .horizontal, .splitFocused .vertical] = some s ∧
    (s.layout ⟨0, 0, 81, 25⟩).map (fun e => (e.1, e.2.area)) = s.root.areas ⟨0, 0, 81, 25⟩ := by
  obtain ⟨s, hr, -⟩ := (Wf.new .work).run [.splitFocused .horizontal, .splitFocused .vertical] (by decide)
  refine ⟨s, hr, (layout_halves s ⟨0, 0, 81, 25⟩ (by decide) (by decide)).mpr ⟨fun h => ?_, fun h => ?_⟩⟩
  · exact absurd h (by decide)
  · exact absurd h (by decide)

/-- The second of two panes side by side on 65535 columns gets the odd one. -/
theorem layout_halves_fails : ∃ s,
    Machine.run step (Session.new .work) [.splitFocused .horizontal] = some s ∧
    (s.layout ⟨0, 0, 65535, 24⟩).map (fun e => (e.1, e.2.area)) =
      [(⟨1⟩, ⟨0, 0, 32767, 24⟩), (⟨2⟩, ⟨32767, 0, 32768, 24⟩)] ∧
    s.root.areas ⟨0, 0, 65535, 24⟩ = [(⟨1⟩, ⟨0, 0, 32768, 24⟩), (⟨2⟩, ⟨32768, 0, 32767, 24⟩)] ∧
    (s.layout ⟨0, 0, 65535, 24⟩).map (fun e => (e.1, e.2.area)) ≠ s.root.areas ⟨0, 0, 65535, 24⟩ :=
  ⟨_, rfl, by decide, by decide, by decide⟩

end Session

end NovaMux

import NovaMux.Runtime.Screensaver
import NovaMux.Theorems.TextCuts

/-! Idle artwork fits. Whatever the terminal, the lines that are drawn stay on it; and from 18 columns and 7 rows on
    the scenes themselves do, in every frame, so that nothing is cut off. -/

namespace NovaMux

variable {lines : List String} {width height : UInt16}

/-! ### Widths -/

theorem displayWidth_append (a b : String) : displayWidth (a ++ b) = displayWidth a + displayWidth b := by
  simp only [displayWidth, String.toList_append, List.map_append, List.sum_append]

theorem displayWidth_blanks (count : Nat) : displayWidth (blanks count) = count := by
  have hblank : cellWidth ' ' = 1 := by decide
  rw [blanks, displayWidth_ofList, List.map_replicate, List.sum_replicate, hblank, smul_eq_mul, Nat.mul_one]

/-! ### Lines on a terminal -/

structure Fits (lines : List String) (width height : UInt16) : Prop where
  rows : lines.length ≤ height.toNat
  cells : ∀ line ∈ lines, displayWidth line ≤ width.toNat

/-- Lines that are cut to a terminal fit on it. -/
theorem fits_cut (lines : List String) (width height : UInt16) :
    Fits ((lines.take height.toNat).map fun line => clipCells line width.toNat) width height where
  rows := by
    rw [List.length_map]
    exact List.length_take_le _ _
  cells := by
    intro line hl
    obtain ⟨uncut, -, rfl⟩ := List.mem_map.mp hl
    exact (clipCells_longest uncut width.toNat).within

/-- Lines that fit on a terminal are not cut. -/
theorem Fits.uncut (h : Fits lines width height) :
    ((lines.take height.toNat).map fun line => clipCells line width.toNat) = lines := by
  rw [List.take_of_length_le h.rows]
  exact (List.map_congr_left fun line hl => clipCells_of_le (h.cells line hl)).trans (List.map_id lines)

/-! ### Motions -/

/-- The panda goes down and up again. -/
theorem climb_le (travel frame : Nat) (h : 0 < travel) : Nat.dist travel (frame % (travel * 2)) ≤ travel := by
  have hphase : frame % (travel * 2) < travel * 2 := Nat.mod_lt _ (by omega)
  unfold Nat.dist
  omega

/-- How far to the right the ball is. -/
def swing (travel frame : Nat) : Nat :=
  if frame % (travel * 2) < travel then frame % (travel * 2) else travel * 2 - frame % (travel * 2)

theorem swing_le (travel frame : Nat) (h : 0 < travel) : swing travel frame ≤ travel := by
  have hphase : frame % (travel * 2) < travel * 2 := Nat.mod_lt _ (by omega)
  unfold swing
  split
  · omega
  · omega

/-! ### Scenes -/

/-- A figure below blank lines. -/
theorem fits_below {figure : List String} {count : Nat} (hrows : count + figure.length ≤ height.toNat)
    (hw : 18 ≤ width.toNat) (hcells : ∀ line ∈ figure, displayWidth line ≤ 18) :
    Fits (List.replicate count "" ++ figure) width height where
  rows := by
    rw [List.length_append, List.length_replicate]
    exact hrows
  cells := by
    intro line hl
    rcases List.mem_append.mp hl with hblank | hfigure
    · rw [List.eq_of_mem_replicate hblank]
      exact Nat.zero_le _
    · exact (hcells line hfigure).trans hw

theorem pandaUnicode_fits (hw : 18 ≤ width.toNat) (hh : 7 ≤ height.toNat) (frame : Nat) :
    Fits (pandaUnicode frame height) width height := by
  have hsix : (height.saturatingSub 6).toNat = height.toNat - 6 := UInt16.toNat_saturatingSub _ _
  have htravel : max (height.saturatingSub 6).toNat 1 = height.toNat - 6 := by omega
  have hclimb := climb_le (height.toNat - 6) frame (by omega)
  simp only [pandaUnicode, htravel]
  refine fits_below ?_ hw ?_
  · simp only [List.length_cons, List.length_nil]
    omega
  · split
    · decide
    · decide

theorem pandaAscii_fits (hw : 18 ≤ width.toNat) (hh : 7 ≤ height.toNat) (frame : Nat) :
    Fits (pandaAscii frame height) width height := by
  have hthree : (height.saturatingSub 3).toNat = height.toNat - 3 := UInt16.toNat_saturatingSub _ _
  have htravel : max (height.saturatingSub 3).toNat 1 = height.toNat - 3 := by omega
  have hclimb := climb_le (height.toNat - 3) frame (by omega)
  simp only [pandaAscii, htravel]
  refine fits_below ?_ hw (by decide)
  simp only [List.length_cons, List.length_nil]
  omega

theorem catUnicode_eq (frame : Nat) (width : UInt16) : catUnicode frame width =
    let ball := swing (max (width.saturatingSub 18).toNat 1) frame
    [blanks (ball - 5) ++ "🐱", blanks (ball - 5 + 2) ++ "🐾", blanks ball ++ "🧶",
      blanks (ball - 5) ++ "cat playing"] := rfl

theorem catAscii_eq (frame : Nat) (width : UInt16) : catAscii frame width =
    ["[cat]" ++ blanks (swing (max (width.saturatingSub 20).toNat 1) frame) ++ "(ball)", "       playing",
      "       NovaMux"] := rfl

theorem catUnicode_fits (hw : 18 ≤ width.toNat) (hh : 7 ≤ height.toNat) (frame : Nat) :
    Fits (catUnicode frame width) width height := by
  have heighteen : (width.saturatingSub 18).toNat = width.toNat - 18 := UInt16.toNat_saturatingSub _ _
  have hswing := swing_le (max (width.saturatingSub 18).toNat 1) frame (by omega)
  have hcat : displayWidth "🐱" = 2 := by decide
  have hpaws : displayWidth "🐾" = 2 := by decide
  have hball : displayWidth "🧶" = 2 := by decide
  have htitle : displayWidth "cat playing" = 11 := by decide
  refine ⟨Nat.le_trans (by decide : 4 ≤ 7) hh, ?_⟩
  simp only [catUnicode_eq, List.forall_mem_cons, displayWidth_append, displayWidth_blanks, hcat, hpaws, hball, htitle]
  exact ⟨by omega, by omega, by omega, by omega, List.forall_mem_nil _⟩

theorem catAscii_fits (hw : 18 ≤ width.toNat) (hh : 7 ≤ height.toNat) (frame : Nat) :
    Fits (catAscii frame width) width height := by
  have htwenty : (width.saturatingSub 20).toNat = width.toNat - 20 := UInt16.toNat_saturatingSub _ _
  have hswing := swing_le (max (width.saturatingSub 20).toNat 1) frame (by omega)
  have hcat : displayWidth "[cat]" = 5 := by decide
  have hball : displayWidth "(ball)" = 6 := by decide
  have hplaying : displayWidth "       playing" = 14 := by decide
  have htitle : displayWidth "       NovaMux" = 14 := by decide
  refine ⟨Nat.le_trans (by decide : 3 ≤ 7) hh, ?_⟩
  simp only [catAscii_eq, List.forall_mem_cons, displayWidth_append, displayWidth_blanks, hcat, hball, hplaying, htitle]
  exact ⟨by omega, by omega, by omega, List.forall_mem_nil _⟩

/-! ### Artwork -/

/-- The artwork fits on every terminal, and on a large enough one it is the scene, uncut in every frame. -/
theorem artwork_fits :
    (∀ mode style frame width height, Fits (artwork mode style frame width height) width height) ∧
    ∀ (frame : Nat) (width height : UInt16), 18 ≤ width → 7 ≤ height →
      artwork .pandaClimb .unicode frame width height = pandaUnicode frame height ∧
      artwork .catPlay .unicode frame width height = catUnicode frame width ∧
      artwork .pandaClimb .ascii frame width height = pandaAscii frame height ∧
      artwork .catPlay .ascii frame width height = catAscii frame width ∧
      ∀ style, artwork .off style frame width height = [] := by
  refine ⟨fun _ _ _ _ _ => fits_cut _ _ _, fun frame width height hwide hhigh => ?_⟩
  have hw : 18 ≤ width.toNat := UInt16.le_iff_toNat_le.mp hwide
  have hh : 7 ≤ height.toNat := UInt16.le_iff_toNat_le.mp hhigh
  have hlarge : ¬(width < 18 ∨ height < 7) := fun h => h.elim (UInt16.not_lt.mpr hwide) (UInt16.not_lt.mpr hhigh)
  refine ⟨?_, ?_, ?_, ?_, fun style => ?_⟩
  · refine Eq.trans ?_ (pandaUnicode_fits hw hh frame).uncut
    simp only [artwork, if_neg hlarge]
  · refine Eq.trans ?_ (catUnicode_fits hw hh frame).uncut
    simp only [artwork, if_neg hlarge]
  · refine Eq.trans ?_ (pandaAscii_fits hw hh frame).uncut
    simp only [artwork, if_neg hlarge]
  · refine Eq.trans ?_ (catAscii_fits hw hh frame).uncut
    simp only [artwork, if_neg hlarge]
  · simp only [artwork, if_neg hlarge, List.take_nil, List.map_nil]

theorem artwork_fits_smallest : artwork .catPlay .unicode 999999 18 7 = catUnicode 999999 18 :=
  (artwork_fits.2 999999 18 7 (by decide) (by decide)).2.1

end NovaMux

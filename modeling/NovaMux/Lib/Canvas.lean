import Mathlib.Data.List.Basic
import Mathlib.Tactic.Ring

/-! A grid of cells that text is written on. Glyphs are written from the cursor on, which moves to the right by the
    width of each, and take the pen that is set. A text is a stroke, with each glyph as often as it is wide, and a
    sequence of strokes leaves in a cell what the last stroke that reaches it does. -/

/-- The glyph and the pen of each written cell, by column and row, the cursor and the current pen. -/
structure Canvas (α P : Type*) where
  cells : Nat → Nat → Option (α × P)
  column : Nat
  row : Nat
  pen : P

namespace Canvas

variable {α P : Type*} {width : α → Nat} {s : Canvas α P}

def clear (s : Canvas α P) : Canvas α P := { s with cells := fun _ _ => none }

def moveTo (s : Canvas α P) (column row : Nat) : Canvas α P := { s with column, row }

def withPen (s : Canvas α P) (pen : P) : Canvas α P := { s with pen }

/-- Writes a glyph at the cursor, on as many cells as it is wide. -/
def put (width : α → Nat) (s : Canvas α P) (a : α) : Canvas α P :=
  { s with
    cells := fun column row =>
      if row = s.row ∧ s.column ≤ column ∧ column < s.column + width a then some (a, s.pen) else s.cells column row
    column := s.column + width a }

def write (width : α → Nat) (s : Canvas α P) (text : List α) : Canvas α P := text.foldl (put width) s

/-! ### Strokes -/

/-- The glyphs of some cells of a row, in one pen. -/
structure Stroke (α P : Type*) where
  column : Nat
  row : Nat
  text : List α
  pen : P

/-- What a stroke leaves in a cell. -/
def Stroke.get (stroke : Stroke α P) (column row : Nat) : Option (α × P) :=
  if row = stroke.row ∧ stroke.column ≤ column then stroke.text[column - stroke.column]?.map (·, stroke.pen) else none

/-- The last of some values that is one. -/
def latest {β : Type*} : List (Option β) → Option β
  | [] => none
  | x :: later => (latest later).or x

/-- What strokes leave in a cell: the last one that reaches it counts. -/
def paint (strokes : List (Stroke α P)) (column row : Nat) : Option (α × P) :=
  latest (strokes.map fun stroke => stroke.get column row)

section

variable {β : Type*} {l l' : List (Option β)} {x : Option β}

theorem latest_append : latest (l ++ l') = (latest l').or (latest l) := by
  induction l with
  | nil => simp [latest]
  | cons x l ih => simp only [List.cons_append, latest, ih, Option.or_assoc]

theorem latest_flatten {L : List (List (Option β))} : latest L.flatten = latest (L.map latest) := by
  induction L with
  | nil => rfl
  | cons l L ih => rw [List.flatten_cons, latest_append, ih, List.map_cons, latest]

theorem latest_eq_none (h : ∀ y ∈ l, y = none) : latest l = none := by
  induction l with
  | nil => rfl
  | cons y l ih =>
    obtain ⟨hy, hl⟩ := List.forall_mem_cons.mp h
    rw [latest, ih hl, hy, Option.or_none]

/-- When all values that there are agree, that is the last one. -/
theorem latest_eq (h : ∀ y ∈ l, y = none ∨ y = x) (hx : x ∈ l) : latest l = x := by
  induction l with
  | nil => cases hx
  | cons y l ih =>
    obtain ⟨hy, hl⟩ := List.forall_mem_cons.mp h
    rw [latest]
    by_cases hin : x ∈ l
    · rw [ih hl hin]
      rcases hy with rfl | rfl
      · exact Option.or_none
      · exact Option.or_self
    · obtain rfl := (List.mem_cons.mp hx).resolve_right hin
      rw [latest_eq_none fun z hz => (hl z hz).resolve_right fun he => hin (he ▸ hz), Option.none_or]

end

variable {stroke : Stroke α P} {strokes strokes' : List (Stroke α P)} {column row : Nat} {cell : Option (α × P)}

theorem paint_append :
    paint (strokes ++ strokes') column row = (paint strokes' column row).or (paint strokes column row) := by
  rw [paint, List.map_append, latest_append]
  rfl

theorem paint_eq_none (h : ∀ stroke ∈ strokes, stroke.get column row = none) : paint strokes column row = none := by
  refine latest_eq_none fun y hy => ?_
  obtain ⟨stroke, hs, rfl⟩ := List.mem_map.mp hy
  exact h stroke hs

theorem paint_eq (h : ∀ stroke ∈ strokes, stroke.get column row = none ∨ stroke.get column row = cell)
    (hs : stroke ∈ strokes) (hcell : stroke.get column row = cell) : paint strokes column row = cell := by
  refine latest_eq (fun y hy => ?_) (List.mem_map.mpr ⟨stroke, hs, hcell⟩)
  obtain ⟨other, ho, rfl⟩ := List.mem_map.mp hy
  exact h other ho

/-- Groups of strokes that agree on a cell as far as they reach it. -/
theorem paint_flatMap {ι : Type*} {f : ι → List (Stroke α P)} {l : List ι} {i : ι}
    (h : ∀ j ∈ l, paint (f j) column row = none ∨ paint (f j) column row = cell) (hi : i ∈ l)
    (hcell : paint (f i) column row = cell) : paint (l.flatMap f) column row = cell := by
  have hgroups : paint (l.flatMap f) column row = latest (l.map fun j => paint (f j) column row) := by
    rw [paint, List.map_flatMap, List.flatMap_def, latest_flatten, List.map_map]
    rfl
  rw [hgroups]
  refine latest_eq (fun y hy => ?_) (List.mem_map.mpr ⟨i, hi, hcell⟩)
  obtain ⟨j, hj, rfl⟩ := List.mem_map.mp hy
  exact h j hj

theorem paint_flatMap_eq_none {ι : Type*} {f : ι → List (Stroke α P)} {l : List ι}
    (h : ∀ i ∈ l, paint (f i) column row = none) : paint (l.flatMap f) column row = none := by
  rw [paint, List.map_flatMap, List.flatMap_def, latest_flatten, List.map_map]
  refine latest_eq_none fun y hy => ?_
  obtain ⟨i, hi, rfl⟩ := List.mem_map.mp hy
  exact h i hi

/-! ### Writing strokes -/

/-- The cells of a text. -/
def cover (width : α → Nat) (text : List α) : List α := text.flatMap fun a => List.replicate (width a) a

theorem cover_cons (a : α) (text : List α) : cover width (a :: text) = List.replicate (width a) a ++ cover width text :=
  List.flatMap_cons

theorem cover_narrow {text : List α} (h : ∀ a ∈ text, width a = 1) : cover width text = text := by
  induction text with
  | nil => rfl
  | cons a text ih =>
    obtain ⟨ha, htext⟩ := List.forall_mem_cons.mp h
    rw [cover_cons, ha, ih htext]
    rfl

theorem length_cover (text : List α) : (cover width text).length = (text.map width).sum := by
  simp only [cover, List.length_flatMap, List.length_replicate]

theorem get_append (column row : Nat) (text text' : List α) (pen : P) (i j : Nat) :
    (⟨column, row, text ++ text', pen⟩ : Stroke α P).get i j =
      ((⟨column + text.length, row, text', pen⟩ : Stroke α P).get i j).or ((⟨column, row, text, pen⟩ : Stroke α P).get i j) := by
  simp only [Stroke.get]
  by_cases hrow : j = row
  · rcases Nat.lt_or_ge i column with hlt | hge
    · have h₁ : ¬column ≤ i := by omega
      have h₂ : ¬column + text.length ≤ i := by omega
      simp [h₁, h₂]
    · rcases Nat.lt_or_ge (i - column) text.length with hin | hout
      · have h₂ : ¬column + text.length ≤ i := by omega
        simp [hrow, hge, h₂, List.getElem?_append_left hin]
      · have h₂ : column + text.length ≤ i := by omega
        have h₃ : i - column - text.length = i - (column + text.length) := by omega
        simp [hrow, hge, h₂, h₃, List.getElem?_append_right hout, List.getElem?_eq_none hout]
  · simp [hrow]

theorem put_eq (s : Canvas α P) (a : α) : put width s a = { s with
    cells := fun column row =>
      ((⟨s.column, s.row, List.replicate (width a) a, s.pen⟩ : Stroke α P).get column row).or (s.cells column row)
    column := s.column + width a } := by
  simp only [put, Canvas.mk.injEq, and_true]
  refine funext fun column => funext fun row => ?_
  by_cases hin : row = s.row ∧ s.column ≤ column
  · simp only [Stroke.get, hin, and_self, true_and, if_true, List.getElem?_replicate]
    by_cases hlt : column < s.column + width a
    · have hoffset : column - s.column < width a := by omega
      simp [hlt, hoffset]
    · have hoffset : ¬column - s.column < width a := by omega
      simp [hlt, hoffset]
  · have hout : ¬(row = s.row ∧ s.column ≤ column ∧ column < s.column + width a) := fun h => hin ⟨h.1, h.2.1⟩
    simp [Stroke.get, hin, hout]

/-- What is written is a stroke. -/
theorem write_eq (width : α → Nat) (text : List α) (s : Canvas α P) : write width s text = { s with
    cells := fun column row =>
      ((⟨s.column, s.row, cover width text, s.pen⟩ : Stroke α P).get column row).or (s.cells column row)
    column := s.column + (cover width text).length } := by
  induction text generalizing s with
  | nil =>
    have hget : ∀ column row, (⟨s.column, s.row, cover width [], s.pen⟩ : Stroke α P).get column row = none := by
      intro column row
      simp [Stroke.get, cover]
    simp only [hget, Option.none_or]
    rfl
  | cons a text ih =>
    rw [write, List.foldl_cons, put_eq]
    refine (ih _).trans ?_
    simp only [cover_cons, get_append, List.length_append, List.length_replicate, Option.or_assoc, Nat.add_assoc]

end Canvas

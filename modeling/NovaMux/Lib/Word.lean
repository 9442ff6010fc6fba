import Mathlib.Data.UInt

/-! Saturating and checked arithmetic on fixed-width words, with what each operation is on `Nat`. -/

namespace UInt8

/-- The sum, or the largest value when the sum does not fit. -/
def saturatingAdd (a b : UInt8) : UInt8 := if a.toNat + b.toNat < 2 ^ 8 then a + b else 255

end UInt8

namespace UInt16

/-- The word of a number, or `default` when it has none. -/
def ofNatOr (default : UInt16) (n : Nat) : UInt16 := if n < 2 ^ 16 then UInt16.ofNat n else default

/-- The sum, or the largest value when the sum does not fit. -/
def saturatingAdd (a b : UInt16) : UInt16 := if a.toNat + b.toNat < 2 ^ 16 then a + b else 65535

/-- The difference, or zero when it would be negative. -/
def saturatingSub (a b : UInt16) : UInt16 := if b ≤ a then a - b else 0

/-- The sum, or `none` when it does not fit. -/
def checkedAdd (a b : UInt16) : Option UInt16 := if a.toNat + b.toNat < 2 ^ 16 then some (a + b) else none

/-- The difference, or `none` when it would be negative. -/
def checkedSub (a b : UInt16) : Option UInt16 := if b ≤ a then some (a - b) else none

/-- The numbers from `start` on that are below `stop`. -/
def range (start stop : UInt16) : List UInt16 :=
  (List.range' start.toNat (stop.toNat - start.toNat)).map UInt16.ofNat

theorem toNat_ofNatOr {default : UInt16} {n : Nat} (h : n < 2 ^ 16) : (ofNatOr default n).toNat = n := by
  rw [ofNatOr, if_pos h, UInt16.toNat_ofNat_of_lt' h]

@[simp] theorem toNat_saturatingAdd (a b : UInt16) :
    (a.saturatingAdd b).toNat = min (a.toNat + b.toNat) 65535 := by
  unfold saturatingAdd
  split
  · rw [UInt16.toNat_add, Nat.mod_eq_of_lt ‹_›]
    omega
  · have : (65535 : UInt16).toNat = 65535 := rfl
    omega

@[simp] theorem toNat_saturatingSub (a b : UInt16) : (a.saturatingSub b).toNat = a.toNat - b.toNat := by
  unfold saturatingSub
  split
  · exact UInt16.toNat_sub_of_le _ _ ‹_›
  · have : ¬b.toNat ≤ a.toNat := fun h => ‹¬b ≤ a› (UInt16.le_iff_toNat_le.mpr h)
    have : (0 : UInt16).toNat = 0 := rfl
    omega

theorem checkedAdd_eq_some {a b c : UInt16} : a.checkedAdd b = some c ↔ a.toNat + b.toNat = c.toNat := by
  have hc := c.toNat_lt
  unfold checkedAdd
  refine ⟨fun h => ?_, fun h => ?_⟩
  · split at h
    · rw [← Option.some.inj h, UInt16.toNat_add, Nat.mod_eq_of_lt ‹_›]
    · cases h
  · have hfit : a.toNat + b.toNat < 2 ^ 16 := by omega
    rw [if_pos hfit, Option.some.injEq, ← UInt16.toNat_inj, UInt16.toNat_add, Nat.mod_eq_of_lt hfit, h]

theorem checkedAdd_isSome {a b : UInt16} : (a.checkedAdd b).isSome ↔ a.toNat + b.toNat ≤ 65535 := by
  unfold checkedAdd
  split
  · exact iff_of_true rfl (by omega)
  · exact iff_of_false (by simp) (by omega)

theorem toNat_add_of_le {a b : UInt16} (h : a.toNat + b.toNat ≤ 65535) : (a + b).toNat = a.toNat + b.toNat := by
  rw [UInt16.toNat_add, Nat.mod_eq_of_lt (Nat.lt_succ_of_le h)]

theorem checkedAdd_of_le {a b : UInt16} (h : a.toNat + b.toNat ≤ 65535) : a.checkedAdd b = some (a + b) :=
  if_pos (Nat.lt_succ_of_le h)

theorem checkedSub_isSome {a b : UInt16} : (a.checkedSub b).isSome ↔ b.toNat ≤ a.toNat := by
  unfold checkedSub
  rw [← UInt16.le_iff_toNat_le]
  split
  · exact iff_of_true rfl ‹_›
  · exact iff_of_false (by simp) ‹_›

theorem range_eq_nil {start stop : UInt16} : range start stop = [] ↔ stop.toNat ≤ start.toNat := by
  rw [range, List.map_eq_nil_iff, List.range'_eq_nil_iff, Nat.sub_eq_zero_iff_le]

theorem mem_range {start stop a : UInt16} : a ∈ range start stop ↔ start.toNat ≤ a.toNat ∧ a.toNat < stop.toNat := by
  have hstop := stop.toNat_lt
  rw [range, List.mem_map]
  constructor
  · rintro ⟨n, hn, rfl⟩
    rw [List.mem_range'_1] at hn
    rw [UInt16.toNat_ofNat_of_lt' (show n < 2 ^ 16 by omega)]
    omega
  · intro h
    exact ⟨a.toNat, List.mem_range'_1.mpr (by omega), UInt16.ofNat_toNat⟩

/-- Counting from the last number leads nowhere. -/
theorem range_saturating_eq_nil {start extent : UInt16} (h : extent ≠ 0) :
    range start (start.saturatingAdd extent) = [] ↔ start = 65535 := by
  have hpos : 0 < extent.toNat := Nat.pos_of_ne_zero fun he => h (UInt16.toNat_inj.mp he)
  have hmax : (65535 : UInt16).toNat = 65535 := rfl
  have hlt := start.toNat_lt
  rw [range_eq_nil, toNat_saturatingAdd, ← UInt16.toNat_inj, hmax]
  omega

end UInt16

namespace UInt64

/-- The sum, or the largest value when the sum does not fit. -/
def saturatingAdd (a b : UInt64) : UInt64 := if a.toNat + b.toNat < 2 ^ 64 then a + b else -1

/-- The difference, or zero when it would be negative. -/
def saturatingSub (a b : UInt64) : UInt64 := if b ≤ a then a - b else 0

/-- The sum, or `none` when it does not fit. -/
def checkedAdd (a b : UInt64) : Option UInt64 := if a.toNat + b.toNat < 2 ^ 64 then some (a + b) else none

@[simp] theorem toNat_saturatingSub (a b : UInt64) : (a.saturatingSub b).toNat = a.toNat - b.toNat := by
  unfold saturatingSub
  split
  · exact UInt64.toNat_sub_of_le _ _ ‹_›
  · have : ¬b.toNat ≤ a.toNat := fun h => ‹¬b ≤ a› (UInt64.le_iff_toNat_le.mpr h)
    have : (0 : UInt64).toNat = 0 := rfl
    omega

theorem checkedAdd_eq_some {a b c : UInt64} : a.checkedAdd b = some c ↔ a.toNat + b.toNat = c.toNat := by
  have hc := c.toNat_lt
  unfold checkedAdd
  refine ⟨fun h => ?_, fun h => ?_⟩
  · split at h
    · rw [← Option.some.inj h, UInt64.toNat_add, Nat.mod_eq_of_lt ‹_›]
    · cases h
  · have hfit : a.toNat + b.toNat < 2 ^ 64 := by omega
    rw [if_pos hfit, Option.some.injEq, ← UInt64.toNat_inj, UInt64.toNat_add, Nat.mod_eq_of_lt hfit, h]

theorem toNat_saturatingAdd (a b : UInt64) : (a.saturatingAdd b).toNat = min (a.toNat + b.toNat) (2 ^ 64 - 1) := by
  unfold saturatingAdd
  split
  · next hfit =>
    rw [UInt64.toNat_add, Nat.mod_eq_of_lt hfit]
    omega
  · have hmax : (-1 : UInt64).toNat = 2 ^ 64 - 1 := rfl
    omega

end UInt64

import Mathlib.Data.List.Basic
import Mathlib.Algebra.Group.Nat.Defs

/-! Texts as lists of characters with the sizes of their UTF-8 encodings: lines, trimming, splitting at a
    character and slicing at byte offsets, which fails inside of a character; and unsigned integers that
    are read from a text, behind an optional sign. -/

namespace Str

/-- The number of bytes of a text. -/
def size : List Char → Nat
  | [] => 0
  | c :: text => c.utf8Size + size text

/-! ### Lines and white space -/

/-- The pieces of a text, each but perhaps the last ended by a line feed. -/
def splitInclusive : List Char → List (List Char)
  | [] => []
  | c :: text =>
    if c = '\n' then [c] :: splitInclusive text
    else
      match splitInclusive text with
      | [] => [[c]]
      | line :: lines => (c :: line) :: lines

def stripSuffix (c : Char) (text : List Char) : Option (List Char) :=
  if text.getLast? = some c then some text.dropLast else none

/-- A line without its line feed and the carriage return before it. -/
def chomp (line : List Char) : List Char :=
  match stripSuffix '\n' line with
  | none => line
  | some line =>
    match stripSuffix '\r' line with
    | none => line
    | some line => line

def lines (text : List Char) : List (List Char) := (splitInclusive text).map chomp

/-- The characters with the Unicode property `White_Space`. -/
def isWhitespace (c : Char) : Bool :=
  let n := c.toNat
  (0x09 ≤ n && n ≤ 0x0d) || n == 0x20 || n == 0x85 || n == 0xa0 || n == 0x1680 || (0x2000 ≤ n && n ≤ 0x200a) ||
    n == 0x2028 || n == 0x2029 || n == 0x202f || n == 0x205f || n == 0x3000

def trim (text : List Char) : List Char :=
  ((text.dropWhile isWhitespace).reverse.dropWhile isWhitespace).reverse

/-- The text before the first `c` and the text behind it. -/
def splitOnce (c : Char) : List Char → Option (List Char × List Char)
  | [] => none
  | d :: text => if d = c then some ([], text) else (splitOnce c text).map fun parts => (d :: parts.1, parts.2)

/-! ### Slices -/

/-- Splits a text behind its first `n` bytes, unless they end inside of a character. -/
def splitAt? (n : Nat) : List Char → Option (List Char × List Char)
  | [] => if n = 0 then some ([], []) else none
  | c :: text =>
    if n = 0 then some ([], c :: text)
    else if c.utf8Size ≤ n then (splitAt? (n - c.utf8Size) text).map fun parts => (c :: parts.1, parts.2)
    else none

def isBoundary (text : List Char) (n : Nat) : Bool := (splitAt? n text).isSome

/-- The bytes from `start` to `stop` of a text, unless one of these is not at a character boundary. -/
def slice? (text : List Char) (start stop : Nat) : Option (List Char) :=
  (splitAt? stop text).bind fun parts => (splitAt? start parts.1).map (·.2)

@[simp] theorem size_nil : size [] = 0 := rfl

@[simp] theorem size_cons (c : Char) (text : List Char) : size (c :: text) = c.utf8Size + size text := rfl

@[simp] theorem size_append (a b : List Char) : size (a ++ b) = size a + size b := by
  induction a with
  | nil => simp
  | cons c a ih => rw [List.cons_append, size_cons, size_cons, ih, Nat.add_assoc]

theorem size_eq_zero {text : List Char} : size text = 0 ↔ text = [] := by
  cases text with
  | nil => simp
  | cons c text =>
    have hpos := c.utf8Size_pos
    simp only [size_cons, reduceCtorEq, iff_false]
    omega

theorem splitAt?_eq_some {n : Nat} {text a b : List Char} :
    splitAt? n text = some (a, b) ↔ text = a ++ b ∧ size a = n := by
  induction text generalizing n a with
  | nil =>
    rw [splitAt?]
    refine ⟨fun h => ?_, fun h => ?_⟩
    · split at h
      · next hn =>
        cases h
        exact ⟨rfl, hn.symm⟩
      · cases h
    · obtain ⟨he, hn⟩ := h
      obtain ⟨rfl, rfl⟩ := List.append_eq_nil_iff.mp he.symm
      rw [size_nil] at hn
      rw [if_pos hn.symm]
  | cons c text ih =>
    have hpos := c.utf8Size_pos
    rw [splitAt?]
    refine ⟨fun h => ?_, fun h => ?_⟩
    · split at h
      · next hn =>
        cases h
        exact ⟨rfl, hn.symm⟩
      · split at h
        · next hle =>
          obtain ⟨⟨a', b'⟩, hs, he⟩ := Option.map_eq_some_iff.mp h
          obtain ⟨rfl, rfl⟩ := Prod.mk.inj he
          obtain ⟨rfl, hsize⟩ := ih.mp hs
          refine ⟨rfl, (size_cons c a').trans ?_⟩
          omega
        · cases h
    · obtain ⟨he, hn⟩ := h
      cases a with
      | nil =>
        rw [size_nil] at hn
        rw [if_pos hn.symm, he]
        rfl
      | cons d a =>
        obtain ⟨rfl, rfl⟩ := List.cons.inj he
        rw [size_cons] at hn
        rw [if_neg (by omega), if_pos (by omega), ih.mpr ⟨rfl, by omega⟩]
        rfl

theorem isBoundary_iff {text : List Char} {n : Nat} : isBoundary text n = true ↔ ∃ a b, text = a ++ b ∧ size a = n := by
  rw [isBoundary, Option.isSome_iff_exists]
  refine ⟨fun h => ?_, fun h => ?_⟩
  · obtain ⟨⟨a, b⟩, h⟩ := h
    exact ⟨a, b, splitAt?_eq_some.mp h⟩
  · obtain ⟨a, b, h⟩ := h
    exact ⟨(a, b), splitAt?_eq_some.mpr h⟩

theorem slice?_eq_some {text middle : List Char} {start stop : Nat} :
    slice? text start stop = some middle ↔
      ∃ before after, text = before ++ middle ++ after ∧ size before = start ∧ size (before ++ middle) = stop := by
  rw [slice?, Option.bind_eq_some_iff]
  refine ⟨fun h => ?_, fun h => ?_⟩
  · obtain ⟨⟨upto, after⟩, hstop, h⟩ := h
    obtain ⟨⟨before, middle'⟩, hstart, rfl⟩ := Option.map_eq_some_iff.mp h
    obtain ⟨rfl, hsize⟩ := splitAt?_eq_some.mp hstop
    obtain ⟨rfl, hbefore⟩ := splitAt?_eq_some.mp hstart
    exact ⟨before, after, rfl, hbefore, hsize⟩
  · obtain ⟨before, after, rfl, hbefore, hsize⟩ := h
    refine ⟨(before ++ middle, after), splitAt?_eq_some.mpr ⟨rfl, hsize⟩, ?_⟩
    rw [splitAt?_eq_some.mpr ⟨rfl, hbefore⟩]
    rfl

/-- Two splits of a text behind equally many bytes are the same. -/
theorem append_inj_of_size {a b c d : List Char} (h : a ++ b = c ++ d) (hsize : size a = size c) : a = c ∧ b = d := by
  have hab : splitAt? (size c) (a ++ b) = some (a, b) := splitAt?_eq_some.mpr ⟨rfl, hsize⟩
  have hcd : splitAt? (size c) (a ++ b) = some (c, d) := splitAt?_eq_some.mpr ⟨h, rfl⟩
  exact Prod.mk.inj (Option.some.inj (hab.symm.trans hcd))

/-- A slice exists whenever both of its ends are at character boundaries. -/
theorem slice?_isSome {text : List Char} {start stop : Nat} (hle : start ≤ stop) :
    (slice? text start stop).isSome ↔ isBoundary text start ∧ isBoundary text stop := by
  rw [Option.isSome_iff_exists, isBoundary_iff, isBoundary_iff]
  refine ⟨fun h => ?_, fun h => ?_⟩
  · obtain ⟨middle, h⟩ := h
    obtain ⟨before, after, rfl, hbefore, hsize⟩ := slice?_eq_some.mp h
    exact ⟨⟨before, middle ++ after, List.append_assoc _ _ _, hbefore⟩, ⟨before ++ middle, after, rfl, hsize⟩⟩
  · obtain ⟨⟨before, rest, rfl, hbefore⟩, ⟨upto, after, he, hupto⟩⟩ := h
    rcases List.append_eq_append_iff.mp he with ⟨middle, rfl, rfl⟩ | ⟨middle, rfl, rfl⟩
    · exact ⟨middle, slice?_eq_some.mpr ⟨before, after, (List.append_assoc _ _ _).symm, hbefore, hupto⟩⟩
    · -- Nothing can lie behind the end, so that the slice is empty.
      have hmiddle : middle = [] := size_eq_zero.mp (by rw [size_append] at hbefore; omega)
      rw [hmiddle, List.append_nil] at hbefore ⊢
      exact ⟨[], slice?_eq_some.mpr ⟨upto, rest, by rw [List.append_nil], hbefore,
        by rw [List.append_nil]; exact hupto⟩⟩

theorem isBoundary_size (text : List Char) : isBoundary text (size text) :=
  isBoundary_iff.mpr ⟨text, [], (List.append_nil _).symm, rfl⟩

/-! ### Lines that are written one after the other -/

theorem splitInclusive_line {line : List Char} (h : '\n' ∉ line) (text : List Char) :
    splitInclusive (line ++ '\n' :: text) = (line ++ ['\n']) :: splitInclusive text := by
  induction line with
  | nil => simp [splitInclusive]
  | cons c line ih =>
    rw [List.mem_cons, not_or] at h
    obtain ⟨hc, hline⟩ := h
    rw [List.cons_append, splitInclusive, if_neg (Ne.symm hc), ih hline]
    rfl

theorem lines_line {line : List Char} (h : '\n' ∉ line) (hr : line.getLast? ≠ some '\r') (text : List Char) :
    lines (line ++ '\n' :: text) = line :: lines text := by
  have hchomp : chomp (line ++ ['\n']) = line := by
    simp [chomp, stripSuffix, hr]
  rw [lines, splitInclusive_line h, List.map_cons, hchomp]
  rfl

theorem splitOnce_of_notMem {c : Char} {a : List Char} (h : c ∉ a) (b : List Char) :
    splitOnce c (a ++ c :: b) = some (a, b) := by
  induction a with
  | nil => simp [splitOnce]
  | cons d a ih =>
    rw [List.mem_cons, not_or] at h
    obtain ⟨hd, ha⟩ := h
    rw [List.cons_append, splitOnce, if_neg (Ne.symm hd), ih ha]
    rfl

/-! ### The first lines -/

/-- The first `k` lines of a text with their ends. -/
def firstLines (k : Nat) (text : List Char) : List Char := ((splitInclusive text).take k).flatten

theorem flatten_splitInclusive (text : List Char) : (splitInclusive text).flatten = text := by
  induction text with
  | nil => rfl
  | cons c text ih =>
    rw [splitInclusive]
    split
    · rw [List.flatten_cons, ih, List.singleton_append]
    · split
      · next h =>
        rw [h] at ih
        rw [← ih]
        rfl
      · next h =>
        rw [h] at ih
        rw [← ih]
        rfl

/-- The first lines of a text are pieces of their own. -/
theorem splitInclusive_firstLines (k : Nat) (text : List Char) :
    splitInclusive (firstLines k text) = (splitInclusive text).take k := by
  unfold firstLines
  induction text generalizing k with
  | nil => simp [splitInclusive]
  | cons c text ih =>
    cases k with
    | zero => simp [splitInclusive]
    | succ k =>
      rw [splitInclusive]
      split
      · next hc => simp only [List.take_succ_cons, List.flatten_cons, List.singleton_append, splitInclusive, hc, if_true, ih]
      · next hc =>
        split
        · simp [splitInclusive, hc]
        · next line lines h =>
          have hih := ih (k + 1)
          rw [h, List.take_succ_cons, List.flatten_cons] at hih
          simp only [List.take_succ_cons, List.flatten_cons, List.cons_append, splitInclusive, hc, if_false, hih]

theorem lines_firstLines (k : Nat) (text : List Char) : lines (firstLines k text) = (lines text).take k := by
  rw [lines, splitInclusive_firstLines, lines, List.map_take]

theorem size_firstLines_le (k : Nat) (text : List Char) : size (firstLines k text) ≤ size text := by
  have htext : text = firstLines k text ++ ((splitInclusive text).drop k).flatten := by
    rw [firstLines, ← List.flatten_append, List.take_append_drop, flatten_splitInclusive]
  calc size (firstLines k text) ≤ size (firstLines k text) + size ((splitInclusive text).drop k).flatten :=
        Nat.le_add_right _ _
    _ = size text := by rw [← size_append, ← htext]

/-! ### Integers -/

/-- The value of a digit, which is a decimal one or a letter. -/
def toDigit (radix : Nat) (c : Char) : Option Nat :=
  let n := c.toNat
  let value :=
    if 0x30 ≤ n ∧ n ≤ 0x39 then some (n - 0x30)
    else if 0x41 ≤ n ∧ n ≤ 0x5a then some (n - 0x41 + 10)
    else if 0x61 ≤ n ∧ n ≤ 0x7a then some (n - 0x61 + 10)
    else none
  value.filter (· < radix)

/-- Appends digits to a number, unless it exceeds the maximum of its type. -/
def addDigits (radix maximum : Nat) : Nat → List Char → Option Nat
  | n, [] => some n
  | n, c :: digits => do
    let digit ← toDigit radix c
    if n * radix + digit ≤ maximum then addDigits radix maximum (n * radix + digit) digits else none

/-- An unsigned integer. A leading plus sign is accepted, on its own it is not. -/
def fromStrRadix (radix maximum : Nat) : List Char → Option Nat
  | [] => none
  | [c] => if c = '+' then none else addDigits radix maximum 0 [c]
  | c :: digits => if c = '+' then addDigits radix maximum 0 digits else addDigits radix maximum 0 (c :: digits)

/-- The number that digits behind `n` make, without a maximum. -/
def appendDigits (radix : Nat) : Nat → List Char → Option Nat
  | n, [] => some n
  | n, c :: digits => (toDigit radix c).bind fun digit => appendDigits radix (n * radix + digit) digits

/-- An integer: at least one digit, behind an optional plus sign. -/
def integer? (radix : Nat) (text : List Char) : Option Nat :=
  let digits := if text.head? = some '+' then text.tail else text
  if digits = [] then none else appendDigits radix 0 digits

theorem le_of_appendDigits {radix : Nat} (hr : 0 < radix) {n m : Nat} {digits : List Char}
    (h : appendDigits radix n digits = some m) : n ≤ m := by
  induction digits generalizing n with
  | nil => exact Nat.le_of_eq (Option.some.inj h)
  | cons c digits ih =>
    obtain ⟨digit, -, h⟩ := Option.bind_eq_some_iff.mp h
    have hmul : n ≤ n * radix := Nat.le_mul_of_pos_right n hr
    have := ih h
    omega

/-- Since digits only make a number larger, it is enough to look at the end. -/
theorem addDigits_eq_some {radix maximum : Nat} (hr : 0 < radix) {n m : Nat} (hn : n ≤ maximum) {digits : List Char} :
    addDigits radix maximum n digits = some m ↔ appendDigits radix n digits = some m ∧ m ≤ maximum := by
  induction digits generalizing n with
  | nil =>
    simp only [addDigits, appendDigits, Option.some.injEq]
    refine ⟨fun he => ⟨he, he ▸ hn⟩, fun h => h.1⟩
  | cons c digits ih =>
    simp only [addDigits, appendDigits, Option.bind_eq_bind, Option.bind_eq_some_iff]
    refine ⟨fun h => ?_, fun h => ?_⟩
    · obtain ⟨digit, hd, h⟩ := h
      split at h
      · next hle =>
        obtain ⟨happ, hm⟩ := (ih hle).mp h
        exact ⟨⟨digit, hd, happ⟩, hm⟩
      · cases h
    · obtain ⟨⟨digit, hd, happ⟩, hm⟩ := h
      have hle := Nat.le_trans (le_of_appendDigits hr happ) hm
      exact ⟨digit, hd, by rw [if_pos hle]; exact (ih hle).mpr ⟨happ, hm⟩⟩

theorem fromStrRadix_eq_some {radix maximum n : Nat} (hr : 0 < radix) {text : List Char} :
    fromStrRadix radix maximum text = some n ↔ integer? radix text = some n ∧ n ≤ maximum := by
  have hadd : ∀ digits, addDigits radix maximum 0 digits = some n ↔ appendDigits radix 0 digits = some n ∧ n ≤ maximum :=
    fun digits => addDigits_eq_some hr (Nat.zero_le _)
  cases text with
  | nil => simp [fromStrRadix, integer?]
  | cons c digits =>
    by_cases hc : c = '+'
    · cases digits with
      | nil => simp [fromStrRadix, integer?, hc]
      | cons d digits => simp [fromStrRadix, integer?, hc, hadd]
    · cases digits with
      | nil => simp [fromStrRadix, integer?, hc, hadd]
      | cons d digits => simp [fromStrRadix, integer?, hc, hadd]

theorem toDigit_lt {radix digit : Nat} {c : Char} (h : toDigit radix c = some digit) : digit < radix := by
  rw [toDigit, Option.filter_eq_some_iff] at h
  simpa using h.2

/-- Digits are ASCII characters, and the sign is none of them. -/
theorem toDigit_ascii {radix digit : Nat} {c : Char} (h : toDigit radix c = some digit) :
    c.toNat ≤ 127 ∧ c ≠ '+' := by
  rw [toDigit, Option.filter_eq_some_iff] at h
  obtain ⟨h, -⟩ := h
  have hrange : 0x30 ≤ c.toNat ∧ c.toNat ≤ 0x7a := by
    split at h
    · omega
    · split at h
      · omega
      · split at h
        · omega
        · cases h
  refine ⟨by omega, fun he => ?_⟩
  rw [he] at hrange
  exact absurd hrange.1 (by decide)

theorem utf8Size_of_ascii {c : Char} (h : c.toNat ≤ 127) : c.utf8Size = 1 := by
  have hle : c.val ≤ 127 := UInt32.le_iff_toNat_le.mpr h
  exact if_pos hle

/-- Digits take one byte each. -/
theorem size_of_appendDigits {radix n m : Nat} {digits : List Char} (h : appendDigits radix n digits = some m) :
    size digits = digits.length := by
  induction digits generalizing n with
  | nil => rfl
  | cons c digits ih =>
    obtain ⟨digit, hd, h⟩ := Option.bind_eq_some_iff.mp h
    rw [size_cons, utf8Size_of_ascii (toDigit_ascii hd).1, ih h, List.length_cons, Nat.add_comm]

theorem size_of_integer? {radix n : Nat} {text : List Char} (h : integer? radix text = some n) :
    size text = text.length := by
  cases text with
  | nil => rfl
  | cons c text =>
    by_cases hc : c = '+'
    · simp only [integer?, hc, List.head?_cons, if_true, List.tail_cons, Option.ite_none_left_eq_some] at h
      rw [size_cons, size_of_appendDigits h.2, List.length_cons, Nat.add_comm, hc]
      rfl
    · simp only [integer?, List.head?_cons, Option.some.injEq, hc, if_false, reduceCtorEq] at h
      exact size_of_appendDigits h

/-- As many digits as these make a number below the next power of the radix. -/
theorem lt_of_appendDigits {radix n m : Nat} {digits : List Char} (h : appendDigits radix n digits = some m) :
    m < (n + 1) * radix ^ digits.length := by
  induction digits generalizing n with
  | nil =>
    obtain rfl := Option.some.inj h
    simp
  | cons c digits ih =>
    obtain ⟨digit, hd, h⟩ := Option.bind_eq_some_iff.mp h
    have hlt := toDigit_lt hd
    calc m < (n * radix + digit + 1) * radix ^ digits.length := ih h
      _ ≤ ((n + 1) * radix) * radix ^ digits.length :=
        Nat.mul_le_mul_right _ (by rw [Nat.add_mul, Nat.one_mul]; omega)
      _ = (n + 1) * radix ^ (c :: digits).length := by
        rw [List.length_cons, Nat.pow_succ, Nat.mul_assoc, Nat.mul_comm radix]

end Str

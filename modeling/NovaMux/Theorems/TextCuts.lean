import NovaMux.Theorems.Snapshots
import NovaMux.Runtime.Render

/-! Where texts are cut. A screen keeps the longest end of a text within its allowance, an error message its longest
    beginning within 256 bytes, and a line of a scene its longest beginning within the cells that there are. The
    searches for a character boundary end after three moves at most, within the text. -/

namespace NovaMux

variable {value text before after other : String} {maximum moves index : Nat}

/-! ### Longest beginnings -/

/-- The longest beginning of a text that measures at most `maximum`. -/
structure LongestPrefix (measure : String → Nat) (value : String) (maximum : Nat) (text : String) : Prop where
  beginning : ∃ after, value = text ++ after
  within : measure text ≤ maximum
  longest : ∀ other after, value = other ++ after → measure other ≤ maximum → ∃ more, text = other ++ more

theorem LongestPrefix.of_within {measure : String → Nat} (h : measure value ≤ maximum) :
    LongestPrefix measure value maximum value :=
  ⟨⟨"", by simp⟩, h, fun _ after he _ => ⟨after, he⟩⟩

/-- Of two beginnings of one text, one continues the other. -/
theorem prefix_total {rest : String} (ha : value = before ++ after) (hb : value = other ++ rest) :
    (∃ more, other = before ++ more) ∨ ∃ more, before = other ++ more := by
  have of_toList : ∀ {a b : String}, a.toList <+: b.toList → ∃ more, b = a ++ more := by
    intro a b h
    obtain ⟨more, hmore⟩ := h
    refine ⟨String.ofList more, String.toList_injective ?_⟩
    rw [String.toList_append, String.toList_ofList, hmore]
  have hbefore : before.toList <+: value.toList := ⟨after.toList, by rw [ha, String.toList_append]⟩
  have hother : other.toList <+: value.toList := ⟨rest.toList, by rw [hb, String.toList_append]⟩
  rcases List.prefix_or_prefix_of_prefix hbefore hother with h | h
  · exact Or.inl (of_toList h)
  · exact Or.inr (of_toList h)

/-! ### Boundaries -/

theorem isCharBoundary_iff : isCharBoundary value index = true ↔ ∃ before after, value = before ++ after ∧
    before.utf8ByteSize = index := by
  rw [isCharBoundary, decide_eq_true_iff, String.Pos.Raw.isValid_iff_exists_append]
  constructor
  · rintro ⟨before, after, he, hp⟩
    exact ⟨before, after, he, (congrArg String.Pos.Raw.byteIdx hp).symm⟩
  · rintro ⟨before, after, he, hp⟩
    exact ⟨before, after, he, String.Pos.Raw.ext hp.symm⟩

theorem sliceFrom?_append (before after : String) : sliceFrom? (before ++ after) before.utf8ByteSize = some after := by
  have h : (⟨before.utf8ByteSize⟩ : String.Pos.Raw).IsValid (before ++ after) :=
    decide_eq_true_iff.mp (isCharBoundary_iff.mpr ⟨before, after, rfl, rfl⟩)
  have hsplit : String.Pos.Splits ⟨_, h⟩ before after := ⟨rfl, rfl⟩
  rw [sliceFrom?, dif_pos h, (String.Pos.splits ⟨_, h⟩).eq_right hsplit]

theorem sliceTo?_append (before after : String) : sliceTo? (before ++ after) before.utf8ByteSize = some before := by
  have h : (⟨before.utf8ByteSize⟩ : String.Pos.Raw).IsValid (before ++ after) :=
    decide_eq_true_iff.mp (isCharBoundary_iff.mpr ⟨before, after, rfl, rfl⟩)
  have hsplit : String.Pos.Splits ⟨_, h⟩ before after := ⟨rfl, rfl⟩
  rw [sliceTo?, dif_pos h, (String.Pos.splits ⟨_, h⟩).eq_left hsplit]

/-- A character has at most four bytes, so that the longest end within the allowance nearly uses it up. -/
theorem LongestSuffix.near (h : LongestSuffix value maximum text) (hlt : maximum < value.utf8ByteSize) :
    maximum ≤ text.utf8ByteSize + 3 := by
  obtain ⟨before, rfl⟩ := h.suffix
  have hbytes := String.utf8ByteSize_append (s := before) (t := text)
  have hwithin := h.within
  have hne : before.toList ≠ [] := by
    intro hnil
    have hzero : before.utf8ByteSize = 0 := String.utf8ByteSize_eq_zero_iff.mpr (String.toList_eq_nil_iff.mp hnil)
    omega
  -- The end that begins one character earlier is too long.
  obtain ⟨start, c, hsplit⟩ := List.eq_nil_or_concat' before.toList |>.resolve_left hne
  have hbefore : before = String.ofList start ++ String.singleton c := by
    refine String.toList_injective ?_
    rw [hsplit, String.toList_append, String.toList_ofList, String.toList_singleton]
  have hlonger : maximum < (String.singleton c ++ text).utf8ByteSize := by
    by_contra hle
    have hmore := h.longest (String.ofList start) (String.singleton c ++ text)
      (by rw [hbefore, String.append_assoc]) (Nat.not_lt.mp hle)
    have hpos := c.utf8Size_pos
    rw [String.utf8ByteSize_append, String.utf8ByteSize_singleton] at hmore
    omega
  have hfour := c.utf8Size_le_four
  rw [String.utf8ByteSize_append, String.utf8ByteSize_singleton] at hlonger
  omega

theorem LongestPrefix.near (h : LongestPrefix String.utf8ByteSize value maximum text)
    (hlt : maximum < value.utf8ByteSize) : maximum ≤ text.utf8ByteSize + 3 := by
  obtain ⟨after, rfl⟩ := h.beginning
  have hbytes := String.utf8ByteSize_append (s := text) (t := after)
  have hwithin := h.within
  cases hchars : after.toList with
  | nil =>
    have hzero : after.utf8ByteSize = 0 := String.utf8ByteSize_eq_zero_iff.mpr (String.toList_eq_nil_iff.mp hchars)
    omega
  | cons c rest =>
    -- The beginning that ends one character later is too long.
    have hafter : after = String.singleton c ++ String.ofList rest := by
      refine String.toList_injective ?_
      rw [hchars, String.toList_append, String.toList_ofList, String.toList_singleton, List.singleton_append]
    have hlonger : maximum < (text ++ String.singleton c).utf8ByteSize := by
      by_contra hle
      obtain ⟨more, hmore⟩ := h.longest (text ++ String.singleton c) (String.ofList rest)
        (by rw [hafter, String.append_assoc]) (Nat.not_lt.mp hle)
      have hpos := c.utf8Size_pos
      have hsize := congrArg String.utf8ByteSize hmore
      rw [String.utf8ByteSize_append, String.utf8ByteSize_append, String.utf8ByteSize_singleton] at hsize
      omega
    have hfour := c.utf8Size_le_four
    rw [String.utf8ByteSize_append, String.utf8ByteSize_singleton] at hlonger
    omega

theorem prefixWithin_longest (value : String) {maximum : Nat} (h : maximum ≤ value.utf8ByteSize) :
    LongestPrefix String.utf8ByteSize value maximum (prefixWithin value maximum) := by
  induction maximum with
  | zero =>
    rw [prefixWithin]
    refine ⟨⟨value, by simp⟩, Nat.le_of_eq String.utf8ByteSize_empty, fun other _ _ hle => ⟨"", ?_⟩⟩
    rw [String.append_empty, String.utf8ByteSize_eq_zero_iff.mp (Nat.le_zero.mp hle)]
  | succ maximum ih =>
    rw [prefixWithin]
    split
    · next hv =>
      have hsplits := String.Pos.splits (s := value) ⟨⟨maximum + 1⟩, hv⟩
      have hsize : ((value.sliceTo ⟨_, hv⟩).copy).utf8ByteSize = maximum + 1 :=
        (congrArg String.Pos.Raw.byteIdx hsplits.offset_eq_rawEndPos).symm
      refine ⟨⟨_, hsplits.eq_append⟩, Nat.le_of_eq hsize, fun other after he hle => ?_⟩
      rcases prefix_total he hsplits.eq_append with hcontinued | ⟨more, hmore⟩
      · exact hcontinued
      · -- A longer beginning within the same number of bytes is the same.
        have hnone : more.utf8ByteSize = 0 := by
          have := congrArg String.utf8ByteSize hmore
          rw [String.utf8ByteSize_append] at this
          omega
        refine ⟨"", ?_⟩
        rw [hmore, String.utf8ByteSize_eq_zero_iff.mp hnone, String.append_empty, String.append_empty]
    · next hv =>
      have hshort := ih (by omega)
      refine ⟨hshort.beginning, hshort.within.trans (Nat.le_succ _), fun other after he hle => ?_⟩
      -- A beginning of that many bytes would end at the boundary that there is not.
      have hne : other.utf8ByteSize ≠ maximum + 1 := by
        intro hsize
        exact hv (String.Pos.Raw.isValid_iff_exists_append.mpr ⟨other, after, he, String.Pos.Raw.ext hsize.symm⟩)
      exact hshort.longest other after he (by omega)

theorem boundedMessage_longest (message : String) :
    LongestPrefix String.utf8ByteSize message 256 (boundedMessage message) := by
  rw [boundedMessage]
  split
  · next hle => exact LongestPrefix.of_within hle
  · next hlt => exact prefixWithin_longest message (Nat.le_of_not_le hlt)

/-! ### Cells -/

theorem displayWidth_ofList (chars : List Char) : displayWidth (String.ofList chars) = (chars.map cellWidth).sum := by
  rw [displayWidth, String.toList_ofList]

theorem clip_prefix (maximum width : Nat) (chars : List Char) : clip maximum width chars <+: chars := by
  induction chars generalizing width with
  | nil => exact List.nil_prefix
  | cons c chars ih =>
    rw [clip]
    split
    · exact List.nil_prefix
    · exact List.cons_prefix_cons.mpr ⟨rfl, ih _⟩

theorem sum_clip_le {maximum width : Nat} (h : width ≤ maximum) (chars : List Char) :
    width + ((clip maximum width chars).map cellWidth).sum ≤ maximum := by
  induction chars generalizing width with
  | nil => exact h
  | cons c chars ih =>
    rw [clip]
    split
    · exact h
    · have hrest : width + cellWidth c + ((clip maximum (width + cellWidth c) chars).map cellWidth).sum ≤ maximum :=
        ih (by omega)
      rw [List.map_cons, List.sum_cons]
      omega

/-- Every beginning that fits is kept. -/
theorem prefix_clip (maximum width : Nat) {chars other : List Char} (hp : other <+: chars)
    (hfit : width + (other.map cellWidth).sum ≤ maximum) : other <+: clip maximum width chars := by
  induction chars generalizing width other with
  | nil => exact hp
  | cons c chars ih =>
    cases other with
    | nil => exact List.nil_prefix
    | cons d other =>
      obtain ⟨rfl, htail⟩ := List.cons_prefix_cons.mp hp
      rw [List.map_cons, List.sum_cons, ← Nat.add_assoc] at hfit
      rw [clip, if_neg (by omega)]
      exact List.cons_prefix_cons.mpr ⟨rfl, ih _ htail hfit⟩

theorem clipCells_longest (text : String) (maximum : Nat) :
    LongestPrefix displayWidth text maximum (clipCells text maximum) where
  beginning := by
    obtain ⟨after, hafter⟩ := clip_prefix maximum 0 text.toList
    refine ⟨String.ofList after, String.toList_injective ?_⟩
    rw [clipCells, String.toList_append, String.toList_ofList, String.toList_ofList, hafter]
  within := by
    have hsum := sum_clip_le (Nat.zero_le maximum) text.toList
    rw [clipCells, displayWidth_ofList]
    omega
  longest := by
    intro other after he hfit
    have hp : other.toList <+: text.toList := ⟨after.toList, by rw [he, String.toList_append]⟩
    obtain ⟨more, hmore⟩ := prefix_clip maximum 0 hp (by rw [Nat.zero_add]; exact hfit)
    refine ⟨String.ofList more, String.toList_injective ?_⟩
    rw [clipCells, String.toList_append, String.toList_ofList, String.toList_ofList, hmore]

/-- A text that fits is not cut. -/
theorem clipCells_of_le (h : displayWidth text ≤ maximum) : clipCells text maximum = text := by
  obtain ⟨more, hmore⟩ := (clipCells_longest text maximum).longest text "" (by simp) h
  obtain ⟨after, hafter⟩ := (clipCells_longest text maximum).beginning
  have hlength : more.toList = [] := by
    have h₁ := congrArg (fun s => s.toList.length) hmore
    have h₂ := congrArg (fun s => s.toList.length) hafter
    simp only [String.toList_append, List.length_append] at h₁ h₂
    exact List.length_eq_zero_iff.mp (by omega)
  rw [hmore, String.toList_eq_nil_iff.mp hlength, String.append_empty]

/-! ### The searches -/

/-- A search upwards ends at the first boundary. -/
theorem boundaryFrom_of_first {start count : Nat} (hb : isCharBoundary value (start + count) = true)
    (hnone : ∀ index, start ≤ index → index < start + count → isCharBoundary value index = false)
    (hm : count ≤ moves) : boundaryFrom value moves start = some (start + count) := by
  induction count generalizing start moves with
  | zero =>
    cases moves <;> exact if_pos hb
  | succ count ih =>
    cases moves with
    | zero => omega
    | succ moves =>
      have hplace : start + 1 + count = start + (count + 1) := by omega
      rw [boundaryFrom, hnone start (Nat.le_refl _) (by omega), if_neg Bool.false_ne_true, ← hplace]
      refine ih (by rw [hplace]; exact hb) (fun index hle hlt => hnone index (by omega) (by omega)) (by omega)

/-- A search downwards ends at the last boundary. -/
theorem boundaryUpTo_of_last {stop count : Nat} (hb : isCharBoundary value stop = true)
    (hnone : ∀ index, stop < index → index ≤ stop + count → isCharBoundary value index = false)
    (hm : count ≤ moves) : boundaryUpTo value moves (stop + count) = some stop := by
  induction count generalizing moves with
  | zero =>
    cases moves with
    | zero => exact if_pos hb
    | succ moves => cases stop <;> exact if_pos hb
  | succ count ih =>
    cases moves with
    | zero => omega
    | succ moves =>
      rw [← Nat.add_assoc, boundaryUpTo, hnone (stop + count + 1) (by omega) (by omega), if_neg Bool.false_ne_true]
      exact ih (fun index hlt hle => hnone index hlt (by omega)) (by omega)

/-- The search for the end of a text ends after three moves, and leaves the longest end. -/
theorem truncateSearch_eq (value : String) (maximum : Nat) (hm : 3 ≤ moves) :
    truncateSearch moves value maximum = some (truncateUtf8 value maximum) := by
  by_cases hle : value.utf8ByteSize ≤ maximum
  · rw [truncateSearch, truncateUtf8, if_pos hle, if_pos hle]
  · have h := truncateUtf8_longest value maximum
    have hnear := h.near (Nat.not_le.mp hle)
    have hwithin := h.within
    obtain ⟨before, hvalue⟩ := h.suffix
    have hbytes : value.utf8ByteSize = before.utf8ByteSize + (truncateUtf8 value maximum).utf8ByteSize := by
      rw [← String.utf8ByteSize_append, ← hvalue]
    have hplace : value.utf8ByteSize - maximum + (maximum - (truncateUtf8 value maximum).utf8ByteSize) =
        before.utf8ByteSize := by omega
    have hsearch : boundaryFrom value moves (value.utf8ByteSize - maximum) = some before.utf8ByteSize := by
      rw [← hplace]
      refine boundaryFrom_of_first (isCharBoundary_iff.mpr ⟨before, _, hvalue, hplace.symm⟩) ?_ (by omega)
      intro index hlow hhigh
      refine Bool.eq_false_iff.mpr fun hb => ?_
      -- An earlier boundary would leave a longer end.
      obtain ⟨start, rest, he, rfl⟩ := isCharBoundary_iff.mp hb
      have hrest := congrArg String.utf8ByteSize he
      rw [String.utf8ByteSize_append] at hrest
      have hlongest := h.longest start rest he (by omega)
      omega
    have hslice := sliceFrom?_append before (truncateUtf8 value maximum)
    rw [← hvalue] at hslice
    simp only [truncateSearch, if_neg hle, hsearch, Option.bind_eq_bind, Option.bind_some, hslice]

/-- The search for the beginning of a message ends after three moves, and leaves the longest beginning. -/
theorem boundedSearch_eq (message : String) (hm : 3 ≤ moves) :
    boundedSearch moves message = some (boundedMessage message) := by
  by_cases hle : message.utf8ByteSize ≤ 256
  · rw [boundedSearch, boundedMessage, if_pos hle, if_pos hle]
  · have h := boundedMessage_longest message
    have hnear := h.near (Nat.not_le.mp hle)
    have hwithin := h.within
    obtain ⟨after, hmessage⟩ := h.beginning
    have hplace : (boundedMessage message).utf8ByteSize + (256 - (boundedMessage message).utf8ByteSize) = 256 := by
      omega
    have hsearch : boundaryUpTo message moves 256 = some (boundedMessage message).utf8ByteSize := by
      rw [← hplace]
      refine boundaryUpTo_of_last (isCharBoundary_iff.mpr ⟨_, after, hmessage, rfl⟩) ?_ (by omega)
      intro index hlow hhigh
      refine Bool.eq_false_iff.mpr fun hb => ?_
      -- A later boundary would leave a longer beginning.
      obtain ⟨other, rest, he, rfl⟩ := isCharBoundary_iff.mp hb
      obtain ⟨more, hmore⟩ := h.longest other rest he (by omega)
      have hsize := congrArg String.utf8ByteSize hmore
      rw [String.utf8ByteSize_append] at hsize
      omega
    have hslice := sliceTo?_append (boundedMessage message) after
    rw [← hmessage] at hslice
    simp only [boundedSearch, if_neg hle, hsearch, Option.bind_eq_bind, Option.bind_some, hslice]

/-- Every cut is as long as it may be and between characters, and the searches for it end within the text. -/
theorem text_cuts :
    (∀ value maximum, LongestSuffix value maximum (truncateUtf8 value maximum)) ∧
    (∀ message, LongestPrefix String.utf8ByteSize message 256 (boundedMessage message)) ∧
    (∀ text maximum, LongestPrefix displayWidth text maximum (clipCells text maximum)) ∧
    ∀ moves, 3 ≤ moves →
      (∀ value maximum, truncateSearch moves value maximum = some (truncateUtf8 value maximum)) ∧
      ∀ message, boundedSearch moves message = some (boundedMessage message) :=
  ⟨truncateUtf8_longest, boundedMessage_longest, clipCells_longest, fun _ hm =>
    ⟨fun value maximum => truncateSearch_eq value maximum hm, fun message => boundedSearch_eq message hm⟩⟩

/-- The allowance ends inside of the last character. -/
theorem text_cuts_accent : truncateUtf8 "aé" 1 = "" ∧ truncateSearch 3 "aé" 1 = some "" := by
  have h : truncateUtf8 "aé" 1 = "" := by decide
  have hsearch := (text_cuts.2.2.2 3 (Nat.le_refl 3)).1 "aé" 1
  rw [h] at hsearch
  exact ⟨h, hsearch⟩

end NovaMux

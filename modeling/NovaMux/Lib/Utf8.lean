import Mathlib.Data.List.Basic

/-! The UTF-8 bytes of a text as a list, and the text that bytes spell. ASCII texts are ordered like their
    bytes. -/

namespace Utf8

def bytes (s : String) : List UInt8 := s.toByteArray.data.toList

/-- The text that `bs` spells, or `none` when `bs` is not valid UTF-8. -/
def text? (bs : List UInt8) : Option String := String.fromUTF8? ⟨⟨bs⟩⟩

theorem text?_eq_some {bs : List UInt8} {s : String} : text? bs = some s ↔ bs = bytes s := by
  unfold text? String.fromUTF8?
  refine ⟨fun h => ?_, fun he => ?_⟩
  · split at h
    · obtain rfl := Option.some.inj h
      rfl
    · cases h
  · subst he
    have valid : ByteArray.IsValidUTF8 ⟨⟨bytes s⟩⟩ := s.isValidUTF8
    rw [dif_pos valid]
    rfl

theorem bytes_eq (s : String) : bytes s = s.toList.flatMap String.utf8EncodeChar := by
  rw [bytes, ← String.utf8Encode_toList, List.utf8Encode]
  simp

/-! ### ASCII -/

def Ascii (s : String) : Prop := ∀ byte ∈ bytes s, byte.toNat < 128

theorem encodeChar_of_le {c : Char} (h : c.val.toNat ≤ 127) :
    String.utf8EncodeChar c = [UInt8.ofNat c.val.toNat] := by
  unfold String.utf8EncodeChar
  rw [if_pos h]

/-- The bytes of a character outside ASCII are all outside ASCII. -/
theorem ge_of_mem_encodeChar {c : Char} (hc : ¬c.val.toNat ≤ 127) {byte : UInt8} (hb : byte ∈ String.utf8EncodeChar c) :
    128 ≤ byte.toNat := by
  have high : ∀ n, 128 ≤ (UInt8.ofNat (n % 64 + 128)).toNat := fun n => by
    rw [UInt8.toNat_ofNat']
    omega
  unfold String.utf8EncodeChar at hb
  simp only [hc, if_false] at hb
  split at hb
  · rcases List.mem_cons.mp hb with rfl | hb
    · rw [UInt8.toNat_ofNat']
      omega
    · rw [List.mem_singleton.mp hb]
      exact high _
  · split at hb
    all_goals
      rcases List.mem_cons.mp hb with rfl | hb
      · rw [UInt8.toNat_ofNat']
        omega
      · simp only [List.mem_cons, List.not_mem_nil, or_false] at hb
        rcases hb with rfl | rfl | rfl <;> exact high _

theorem le_of_encodeChar {c : Char} (h : ∀ byte ∈ String.utf8EncodeChar c, byte.toNat < 128) : c.val.toNat ≤ 127 := by
  by_contra hc
  obtain ⟨byte, hb⟩ := List.exists_mem_of_ne_nil _ (String.utf8EncodeChar_ne_nil (c := c))
  exact absurd (h byte hb) (Nat.not_lt.mpr (ge_of_mem_encodeChar hc hb))

theorem ascii_iff {s : String} : Ascii s ↔ ∀ c ∈ s.toList, c.val.toNat ≤ 127 := by
  rw [Ascii, bytes_eq]
  refine ⟨fun h c hc => le_of_encodeChar fun byte hb => h byte (List.mem_flatMap.mpr ⟨c, hc, hb⟩),
    fun h byte hb => ?_⟩
  obtain ⟨c, hc, hb⟩ := List.mem_flatMap.mp hb
  rw [encodeChar_of_le (h c hc), List.mem_singleton] at hb
  have := h c hc
  rw [hb, UInt8.toNat_ofNat']
  omega

/-- The lexicographic order of byte strings. -/
def ByteOrder (a b : List UInt8) : Prop := List.Lex (fun x y => x.toNat < y.toNat) a b

theorem lex_flatMap {as bs : List Char} (ha : ∀ c ∈ as, c.val.toNat ≤ 127) (hb : ∀ c ∈ bs, c.val.toNat ≤ 127) :
    List.Lex (fun x y : Char => x.val.toNat < y.val.toNat) as bs ↔
      ByteOrder (as.flatMap String.utf8EncodeChar) (bs.flatMap String.utf8EncodeChar) := by
  induction as generalizing bs with
  | nil =>
    cases bs with
    | nil => simp [ByteOrder]
    | cons d bs =>
      rw [List.flatMap_cons, encodeChar_of_le (hb d List.mem_cons_self)]
      exact ⟨fun _ => .nil, fun _ => .nil⟩
  | cons c as ih =>
    obtain ⟨hc, ha⟩ := List.forall_mem_cons.mp ha
    rw [List.flatMap_cons, encodeChar_of_le hc]
    cases bs with
    | nil => exact ⟨fun h => (by cases h), fun h => (by cases h)⟩
    | cons d bs =>
      obtain ⟨hd, hb⟩ := List.forall_mem_cons.mp hb
      have hsame : c = d ↔ UInt8.ofNat c.val.toNat = UInt8.ofNat d.val.toNat := by
        refine ⟨fun he => by rw [he], fun he => ?_⟩
        have := congrArg UInt8.toNat he
        rw [UInt8.toNat_ofNat', UInt8.toNat_ofNat'] at this
        exact Char.ext (UInt32.toNat_inj.mp (by omega))
      have hless : c.val.toNat < d.val.toNat ↔
          (UInt8.ofNat c.val.toNat).toNat < (UInt8.ofNat d.val.toNat).toNat := by
        rw [UInt8.toNat_ofNat', UInt8.toNat_ofNat', Nat.mod_eq_of_lt (by omega), Nat.mod_eq_of_lt (by omega)]
      rw [List.flatMap_cons, encodeChar_of_le hd, ByteOrder, List.singleton_append, List.singleton_append,
        List.cons_lex_cons_iff, List.cons_lex_cons_iff, hsame, hless, ih ha hb]
      rfl

theorem compare_eq_lt {s t : String} (hs : Ascii s) (ht : Ascii t) :
    compare s t = .lt ↔ ByteOrder (bytes s) (bytes t) := by
  rw [bytes_eq, bytes_eq, ← lex_flatMap (ascii_iff.mp hs) (ascii_iff.mp ht)]
  exact compareOfLessAndEq_eq_lt

end Utf8

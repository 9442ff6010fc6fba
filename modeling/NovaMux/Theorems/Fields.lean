import NovaMux.Core.Protocol

/-! The fields of a message as prefix codes: each reading step of the cursor `Reads` what the encoder puts
    for the field. -/

namespace NovaMux

open Wire

namespace Cursor

/-- The bytes of the payload that the cursor has not consumed. -/
def ahead (cursor : Cursor) : List UInt8 := cursor.bytes.drop cursor.offset

@[simp] theorem ahead_new (bytes : List UInt8) : (Cursor.new bytes).ahead = bytes := rfl

theorem length_ahead (cursor : Cursor) : cursor.ahead.length = cursor.bytes.length - cursor.offset :=
  List.length_drop

theorem reads_byte : Reads (ε := DecodeError) ahead (fun _ => True) (fun value => [value]) byte where
  complete {value cursor rest} _ hs := by
    have hlt : cursor.offset < cursor.bytes.length := by
      have := congrArg List.length hs
      rw [length_ahead, List.length_append, List.length_singleton] at this
      omega
    have hcons := hs
    rw [ahead, List.drop_eq_getElem_cons hlt] at hcons
    obtain ⟨hval, hrest⟩ := List.cons.inj hcons
    refine ⟨{ cursor with offset := cursor.offset + 1, inBounds := hlt }, ?_, hrest⟩
    show byte cursor = _
    rw [byte, dif_pos hlt, hval]
  sound {value cursor cursor'} hr := by
    change byte cursor = _ at hr
    rw [byte] at hr
    split at hr
    · next hlt =>
      obtain ⟨rfl, rfl⟩ := Prod.mk.inj (Except.ok.inj hr)
      exact ⟨trivial, List.drop_eq_getElem_cons hlt⟩
    · cases hr

theorem reads_take (len : Nat) : Reads (ε := DecodeError) ahead (fun value => value.length = len) id (take len) where
  complete {value cursor rest} hlen hs := by
    have hle : cursor.offset + len ≤ cursor.bytes.length := by
      have := congrArg List.length hs
      rw [length_ahead, List.length_append, id_eq, hlen] at this
      have := cursor.inBounds
      omega
    refine ⟨{ cursor with offset := cursor.offset + len, inBounds := hle }, ?_, ?_⟩
    · show take len cursor = _
      simp only [take, dif_pos hle, List.extract_eq_take_drop, Nat.add_sub_cancel_left]
      rw [← ahead, hs, id_eq, List.take_left' hlen]
    · rw [ahead, ← List.drop_drop, ← ahead, hs, id_eq, List.drop_left' hlen]
  sound {value cursor cursor'} hr := by
    change take len cursor = _ at hr
    simp only [take] at hr
    split at hr
    · next hle =>
      obtain ⟨rfl, rfl⟩ := Prod.mk.inj (Except.ok.inj hr)
      rw [List.extract_eq_take_drop, Nat.add_sub_cancel_left]
      refine ⟨by rw [List.length_take, List.length_drop]; omega, ?_⟩
      rw [ahead, ahead, ← List.drop_drop, id_eq, List.take_append_drop]
    · cases hr

theorem reads_u16 : Reads (ε := DecodeError) ahead (fun _ => True) UInt16.toBeBytes u16 :=
  (reads_take 2).map UInt16.toBeBytes
    (fun raw n hlen => by rw [UInt16.fromBeBytes_eq_iff hlen, and_true])
    (fun n _ => n.length_toBeBytes)

theorem reads_u64 : Reads (ε := DecodeError) ahead (fun _ => True) UInt64.toBeBytes u64 :=
  (reads_take 8).map UInt64.toBeBytes
    (fun raw n hlen => by rw [UInt64.fromBeBytes_eq_iff hlen, and_true])
    (fun n _ => n.length_toBeBytes)

/-- What a length-prefixed field looks like. -/
def bytesField (value : List UInt8) : List UInt8 := (UInt16.ofNat value.length).toBeBytes ++ value

theorem reads_boundedBytes {maximum : Nat} (hmax : maximum < 2 ^ 16) :
    Reads (ε := DecodeError) ahead (fun value => value.length ≤ maximum) bytesField (boundedBytes maximum) := by
  have hlen : ∀ value : List UInt8, value.length ≤ maximum → (UInt16.ofNat value.length).toNat = value.length :=
    fun value h => UInt16.toNat_ofNat_of_lt' (Nat.lt_of_le_of_lt h hmax)
  refine Reads.bind (fun value : List UInt8 => UInt16.ofNat value.length) reads_u16 (fun _ _ => trivial) fun len _ => ?_
  refine Reads.guard (fun hle => ?_) ?_
  · refine (reads_take len.toNat).congr (fun value => ⟨?_, fun h => ?_⟩) fun _ _ => rfl
    · intro h
      obtain ⟨h, rfl⟩ := h
      exact (hlen value h).symm
    · have h' : value.length ≤ maximum := by omega
      exact ⟨h', by rw [h, UInt16.ofNat_toNat]⟩
  · intro value h
    obtain ⟨h, rfl⟩ := h
    rw [hlen value h]
    omega

theorem utf8_eq_ok {raw : List UInt8} {value : String} : utf8 raw = .ok value ↔ raw = Utf8.bytes value := by
  rw [← Utf8.text?_eq_some, utf8]
  cases Utf8.text? raw <;> simp

def textField (text : String) : List UInt8 := bytesField (Utf8.bytes text)

theorem reads_text {maximum : Nat} (hmax : maximum < 2 ^ 16) :
    Reads (ε := DecodeError) ahead (fun text => (Utf8.bytes text).length ≤ maximum) textField
      (boundedBytes maximum >>= fun raw => liftM (utf8 raw)) := by
  refine (reads_boundedBytes hmax).convert _ Utf8.bytes (fun raw text hraw => ?_) fun _ h => h
  rw [utf8_eq_ok]
  constructor
  · intro he
    subst he
    exact ⟨rfl, hraw⟩
  · exact And.left

theorem sessionName_eq_ok {raw : List UInt8} {name : SessionName} :
    sessionName raw = .ok name ↔ raw = Utf8.bytes name.asStr := by
  rw [← utf8_eq_ok]
  unfold sessionName
  cases h : utf8 raw with
  | error e => simp [bind, Except.bind]
  | ok value =>
    rw [Except.ok.injEq, ← SessionName.parse_eq_ok]
    simp only [bind, Except.bind]
    cases SessionName.parse value <;> simp

def nameField (name : SessionName) : List UInt8 :=
  [UInt8.ofNat (Utf8.bytes name.asStr).length] ++ Utf8.bytes name.asStr

theorem reads_name : Reads (ε := DecodeError) ahead (fun _ => True) nameField name := by
  have hlen : ∀ name : SessionName,
      (UInt8.ofNat (Utf8.bytes name.asStr).length).toNat = (Utf8.bytes name.asStr).length := fun name =>
    UInt8.toNat_ofNat_of_lt' (Nat.lt_of_le_of_lt name.short (by decide))
  refine Reads.bind (fun name : SessionName => UInt8.ofNat (Utf8.bytes name.asStr).length) reads_byte (fun _ _ => trivial)
    fun len _ => ?_
  refine Reads.guard (fun _ => ?_) ?_
  · refine (reads_take len.toNat).convert _ (fun name : SessionName => Utf8.bytes name.asStr) ?_ ?_
    · intro raw name hraw
      rw [sessionName_eq_ok]
      constructor
      · intro he
        subst he
        exact ⟨rfl, trivial, by rw [hraw, UInt8.ofNat_toNat]⟩
      · exact And.left
    · intro name h
      obtain ⟨-, rfl⟩ := h
      exact (hlen name).symm
  · intro name hlast hbad
    obtain ⟨-, rfl⟩ := hlast
    have hpos := List.length_pos_iff.mpr name.nonempty
    have hshort := name.short
    rcases hbad with h | h
    · have := congrArg UInt8.toNat h
      rw [hlen name] at this
      have : (0 : UInt8).toNat = 0 := rfl
      omega
    · have := UInt8.lt_iff_toNat_lt.mp h
      rw [hlen name] at this
      have : (64 : UInt8).toNat = 64 := rfl
      omega

end Cursor

end NovaMux

import Mathlib.Data.List.Basic
import Mathlib.Tactic.Ring

/-! Prefix codes over byte strings. A reader works on a state that shows the bytes still ahead of it. It
    `Reads` what a writer puts when it accepts exactly the admissible values, each from exactly the bytes
    the writer puts for it, and consumes nothing else. The readers of a message are built from those of
    its fields, so a whole decoder is the inverse of its encoder once its fields are. -/

namespace Wire

variable {σ ε α β γ : Type}

/-- `get` reads the values in `dom`, each from the bytes `put` writes for it and no others. -/
structure Reads (ahead : σ → List UInt8) (dom : α → Prop) (put : α → List UInt8)
    (get : StateT σ (Except ε) α) : Prop where
  complete : ∀ {a : α} {s : σ} {rest : List UInt8}, dom a → ahead s = put a ++ rest →
    ∃ s', get.run s = .ok (a, s') ∧ ahead s' = rest
  sound : ∀ {a : α} {s s' : σ}, get.run s = .ok (a, s') → dom a ∧ ahead s = put a ++ ahead s'

/-- Read the same field `n` times. -/
def readMany (get : StateT σ (Except ε) α) : Nat → StateT σ (Except ε) (List α)
  | 0 => pure []
  | n + 1 => do
    let a ← get
    let as ← readMany get n
    pure (a :: as)

theorem run_bind_eq_ok {get : StateT σ (Except ε) α} {k : α → StateT σ (Except ε) β} {s : σ} {r : β × σ} :
    (get >>= k).run s = .ok r ↔ ∃ a s', get.run s = .ok (a, s') ∧ (k a).run s' = .ok r := by
  rw [StateT.run_bind]
  cases h : get.run s with
  | error e => simp [bind, Except.bind]
  | ok p => simp [bind, Except.bind, Prod.ext_iff, and_assoc]

theorem run_bind_of_ok {get : StateT σ (Except ε) α} {k : α → StateT σ (Except ε) β} {s s' : σ} {a : α}
    (h : get.run s = .ok (a, s')) : (get >>= k).run s = (k a).run s' := by
  rw [StateT.run_bind, h]
  rfl

namespace Reads

variable {ahead : σ → List UInt8} {dom : α → Prop} {put : α → List UInt8} {get : StateT σ (Except ε) α}

theorem congr {dom' : α → Prop} {put' : α → List UInt8} (h : Reads ahead dom put get)
    (hdom : ∀ a, dom' a ↔ dom a) (hput : ∀ a, dom a → put' a = put a) : Reads ahead dom' put' get where
  complete hd hs := h.complete ((hdom _).mp hd) (hput _ ((hdom _).mp hd) ▸ hs)
  sound hr := by
    obtain ⟨hd, hs⟩ := h.sound hr
    exact ⟨(hdom _).mpr hd, (hput _ hd).symm ▸ hs⟩

theorem pure {a₀ : α} (hdom : ∀ a, dom a ↔ a = a₀) :
    Reads ahead dom (fun _ => []) (pure a₀ : StateT σ (Except ε) α) where
  complete hd hs := by
    obtain rfl := (hdom _).mp hd
    exact ⟨_, rfl, hs⟩
  sound hr := by
    obtain ⟨rfl, rfl⟩ := Prod.mk.inj (Except.ok.inj hr)
    exact ⟨(hdom _).mpr rfl, rfl⟩

/-- A field followed by the rest of the record: `field` is the part of the record that `get` reads. -/
theorem bind {domR : γ → Prop} {putR : γ → List UInt8} {k : α → StateT σ (Except ε) γ} (field : γ → α)
    (h : Reads ahead dom put get) (hdom : ∀ c, domR c → dom (field c))
    (hk : ∀ a, dom a → Reads ahead (fun c => domR c ∧ field c = a) putR (k a)) :
    Reads ahead domR (fun c => put (field c) ++ putR c) (get >>= k) where
  complete hd hs := by
    rw [List.append_assoc] at hs
    obtain ⟨s₁, h₁, hs₁⟩ := h.complete (hdom _ hd) hs
    obtain ⟨s₂, h₂, hs₂⟩ := (hk _ (hdom _ hd)).complete ⟨hd, rfl⟩ hs₁
    exact ⟨s₂, by rw [run_bind_of_ok h₁, h₂], hs₂⟩
  sound hr := by
    obtain ⟨a, s₁, h₁, h₂⟩ := run_bind_eq_ok.mp hr
    obtain ⟨ha, hs⟩ := h.sound h₁
    obtain ⟨⟨hd, rfl⟩, hs₁⟩ := (hk a ha).sound h₂
    exact ⟨hd, by rw [hs, hs₁, List.append_assoc]⟩

/-- A field whose raw value `read` converts: `raw` is the only raw value that converts to a given one. -/
theorem convert {domC : γ → Prop} (read : α → Except ε γ) (raw : γ → α) (h : Reads ahead dom put get)
    (hread : ∀ a c, dom a → (read a = .ok c ↔ a = raw c ∧ domC c)) (hdom : ∀ c, domC c → dom (raw c)) :
    Reads ahead domC (fun c => put (raw c)) (get >>= fun a => liftM (read a)) where
  complete {c s rest} hd hs := by
    obtain ⟨s₁, h₁, hs₁⟩ := h.complete (hdom c hd) hs
    refine ⟨s₁, ?_, hs₁⟩
    rw [run_bind_of_ok h₁, (hread _ c (hdom c hd)).mpr ⟨rfl, hd⟩]
    rfl
  sound {c s s'} hr := by
    obtain ⟨a, s₁, h₁, h₂⟩ := run_bind_eq_ok.mp hr
    obtain ⟨hda, hs₁⟩ := h.sound h₁
    cases hra : read a with
    | error e => rw [hra] at h₂; cases h₂
    | ok c' =>
      rw [hra] at h₂
      obtain ⟨rfl, rfl⟩ := Prod.mk.inj (Except.ok.inj h₂)
      obtain ⟨rfl, hd⟩ := (hread a c' hda).mp hra
      exact ⟨hd, hs₁⟩

/-- A field read under another representation. -/
theorem map {domC : γ → Prop} {f : α → γ} (raw : γ → α) (h : Reads ahead dom put get)
    (hf : ∀ a c, dom a → (f a = c ↔ a = raw c ∧ domC c)) (hdom : ∀ c, domC c → dom (raw c)) :
    Reads ahead domC (fun c => put (raw c)) (f <$> get) := by
  have hbind : f <$> get = get >>= fun a => (Pure.pure (f a) : StateT σ (Except ε) γ) := rfl
  rw [hbind]
  refine convert (fun a => .ok (f a)) raw h (fun a c hd => ?_) hdom
  rw [← hf a c hd, Except.ok.injEq]

/-- A field wrapped up by `f`, when `putC` writes a wrapped value as the value itself. -/
theorem image {domC : γ → Prop} {putC : γ → List UInt8} {f : α → γ} (h : Reads ahead dom put get)
    (hdom : ∀ c, domC c ↔ ∃ a, dom a ∧ f a = c) (hput : ∀ a, dom a → putC (f a) = put a) :
    Reads ahead domC putC (f <$> get) where
  complete {c s rest} hd hs := by
    obtain ⟨a, ha, rfl⟩ := (hdom c).mp hd
    obtain ⟨s', hr, hs'⟩ := h.complete ha (hput a ha ▸ hs)
    exact ⟨s', by rw [StateT.run_map, hr]; rfl, hs'⟩
  sound {c s s'} hr := by
    rw [StateT.run_map] at hr
    cases hget : get.run s with
    | error e => rw [hget] at hr; cases hr
    | ok r =>
      obtain ⟨a, s₁⟩ := r
      rw [hget] at hr
      obtain ⟨rfl, rfl⟩ := Prod.mk.inj (Except.ok.inj hr)
      obtain ⟨ha, hs⟩ := h.sound hget
      exact ⟨(hdom _).mpr ⟨a, ha, rfl⟩, by rw [hput a ha]; exact hs⟩

theorem image₂ {domB : β → Prop} {putB : β → List UInt8} {getB : StateT σ (Except ε) β} {domC : γ → Prop}
    {putC : γ → List UInt8} {f : α → β → γ} (h : Reads ahead dom put get) (hb : Reads ahead domB putB getB)
    (hdom : ∀ c, domC c ↔ ∃ a b, dom a ∧ domB b ∧ f a b = c)
    (hput : ∀ a b, dom a → domB b → putC (f a b) = put a ++ putB b) :
    Reads ahead domC putC (do let a ← get; let b ← getB; Pure.pure (f a b)) where
  complete {c s rest} hd hs := by
    obtain ⟨a, b, ha, hb', rfl⟩ := (hdom c).mp hd
    rw [hput a b ha hb', List.append_assoc] at hs
    obtain ⟨s₁, h₁, hs₁⟩ := h.complete ha hs
    obtain ⟨s₂, h₂, hs₂⟩ := hb.complete hb' hs₁
    exact ⟨s₂, by rw [run_bind_of_ok h₁, run_bind_of_ok h₂]; rfl, hs₂⟩
  sound {c s s'} hr := by
    obtain ⟨a, s₁, h₁, hr⟩ := run_bind_eq_ok.mp hr
    obtain ⟨b, s₂, h₂, hr⟩ := run_bind_eq_ok.mp hr
    obtain ⟨rfl, rfl⟩ := Prod.mk.inj (Except.ok.inj hr)
    obtain ⟨ha, hs₁⟩ := h.sound h₁
    obtain ⟨hb', hs₂⟩ := hb.sound h₂
    exact ⟨(hdom _).mpr ⟨a, b, ha, hb', rfl⟩, by rw [hput a b ha hb', hs₁, hs₂, List.append_assoc]⟩

/-- A reader that always fails, when no value is admissible. -/
theorem fail {e : ε} (hdom : ∀ a, ¬dom a) : Reads ahead dom put (throw e : StateT σ (Except ε) α) where
  complete hd _ := absurd hd (hdom _)
  sound hr := by cases hr

theorem guard {c : Prop} [Decidable c] {e : ε} (h : ¬c → Reads ahead dom put get) (hdom : ∀ a, dom a → ¬c) :
    Reads ahead dom put (if c then throw e else get) where
  complete hd hs := by
    have hc := hdom _ hd
    rw [if_neg hc]
    exact (h hc).complete hd hs
  sound hr := by
    by_cases hc : c
    · rw [if_pos hc] at hr
      cases hr
    · rw [if_neg hc] at hr
      exact (h hc).sound hr

theorem many (h : Reads ahead dom put get) (n : Nat) :
    Reads ahead (fun as => as.length = n ∧ ∀ a ∈ as, dom a) (fun as => as.flatMap put) (readMany get n) := by
  induction n with
  | zero =>
    have none_left : Reads (ε := ε) ahead (fun as : List α => as = []) (fun _ => []) (Pure.pure []) :=
      Reads.pure fun _ => Iff.rfl
    refine none_left.congr (fun as => ⟨fun hd => List.length_eq_zero_iff.mp hd.1, ?_⟩) ?_
    · intro he
      subst he
      simp
    · intro as he
      subst he
      rfl
  | succ n ih =>
    constructor
    · intro as s rest h hs
      obtain ⟨hlen, hd⟩ := h
      obtain ⟨a, as, rfl⟩ := List.exists_cons_of_length_eq_add_one hlen
      simp only [List.flatMap_cons, List.append_assoc] at hs
      obtain ⟨s₁, h₁, hs₁⟩ := h.complete (hd a List.mem_cons_self) hs
      obtain ⟨s₂, h₂, hs₂⟩ := ih.complete
        ⟨Nat.succ.inj hlen, fun b hb => hd b (List.mem_cons_of_mem a hb)⟩ hs₁
      refine ⟨s₂, ?_, hs₂⟩
      rw [readMany, run_bind_of_ok h₁, run_bind_of_ok h₂]
      rfl
    · intro as s s' hr
      obtain ⟨a, s₁, h₁, h₂⟩ := run_bind_eq_ok.mp hr
      obtain ⟨tail, s₂, h₃, h₄⟩ := run_bind_eq_ok.mp h₂
      obtain ⟨rfl, rfl⟩ := Prod.mk.inj (Except.ok.inj h₄)
      obtain ⟨hda, hs₁⟩ := h.sound h₁
      obtain ⟨⟨hlen, hds⟩, hs₂⟩ := ih.sound h₃
      refine ⟨⟨by simp [hlen], ?_⟩, by rw [hs₁, hs₂, List.flatMap_cons, List.append_assoc]⟩
      exact fun b hb => (List.mem_cons.mp hb).elim (fun e => e ▸ hda) (hds b)

/-- A reader that must use up all the bytes accepts exactly the writer's output. -/
theorem exactly (h : Reads ahead dom put get) {a : α} {s : σ} :
    (∃ s', get.run s = .ok (a, s') ∧ ahead s' = []) ↔ dom a ∧ ahead s = put a := by
  constructor
  · intro h
    obtain ⟨s', hr, he⟩ := h
    obtain ⟨hd, hs⟩ := h.sound hr
    exact ⟨hd, by rw [hs, he, List.append_nil]⟩
  · intro h
    obtain ⟨hd, hs⟩ := h
    exact h.complete hd (by rw [hs, List.append_nil])

end Reads

/-! ### Errors -/

/-- `get` never fails with the error `e`. -/
def Avoids (e : ε) (get : StateT σ (Except ε) α) : Prop := ∀ s, get.run s ≠ .error e

namespace Avoids

variable {e e' : ε} {get : StateT σ (Except ε) α}

theorem pure (a : α) : Avoids e (pure a : StateT σ (Except ε) α) := fun _ h => (by cases h)

theorem throw (hne : e' ≠ e) : Avoids e (throw e' : StateT σ (Except ε) α) := fun _ h => hne (Except.error.inj h)

theorem bind {k : α → StateT σ (Except ε) β} (h : Avoids e get) (hk : ∀ a, Avoids e (k a)) :
    Avoids e (get >>= k) := by
  intro s hs
  rw [StateT.run_bind] at hs
  cases hget : get.run s with
  | error e₁ =>
    rw [hget] at hs
    cases hs
    exact h s hget
  | ok r =>
    rw [hget] at hs
    exact hk r.1 r.2 hs

theorem map (f : α → β) (h : Avoids e get) : Avoids e (f <$> get) := by
  have hbind : f <$> get = get >>= fun a => (Pure.pure (f a) : StateT σ (Except ε) β) := rfl
  rw [hbind]
  exact h.bind fun a => pure (f a)

theorem lift {x : Except ε α} (h : x ≠ .error e) : Avoids e (liftM x : StateT σ (Except ε) α) := by
  intro s hs
  cases x with
  | error e₁ =>
    cases hs
    exact h rfl
  | ok a => cases hs

theorem guard {c : Prop} [Decidable c] (hne : e' ≠ e) (h : Avoids e get) :
    Avoids e (if c then MonadExcept.throw e' else get) := by
  by_cases hc : c
  · rw [if_pos hc]
    exact throw hne
  · rw [if_neg hc]
    exact h

theorem many (h : Avoids e get) (n : Nat) : Avoids e (readMany get n) := by
  induction n with
  | zero => exact pure []
  | succ n ih => exact h.bind fun a => ih.bind fun as => pure (a :: as)

end Avoids

/-! ### Big-endian numbers -/

/-- The last `k` bytes of `n`, the most significant one first. -/
def beBytes : Nat → Nat → List UInt8
  | 0, _ => []
  | k + 1, n => UInt8.ofNat (n / 256 ^ k) :: beBytes k n

def beValue : List UInt8 → Nat
  | [] => 0
  | b :: bs => b.toNat * 256 ^ bs.length + beValue bs

@[simp] theorem length_beBytes (k n : Nat) : (beBytes k n).length = k := by
  induction k with
  | zero => rfl
  | succ k ih => rw [beBytes, List.length_cons, ih]

theorem beValue_beBytes (k n : Nat) : beValue (beBytes k n) = n % 256 ^ k := by
  induction k with
  | zero => simp [beBytes, beValue, Nat.mod_one]
  | succ k ih =>
    have high : (UInt8.ofNat (n / 256 ^ k)).toNat = n / 256 ^ k % 256 := by simp
    rw [beBytes, beValue, length_beBytes, ih, high, Nat.pow_succ, Nat.mod_mul, Nat.mul_comm, Nat.add_comm]

theorem beValue_lt (bs : List UInt8) : beValue bs < 256 ^ bs.length := by
  induction bs with
  | nil => simp [beValue]
  | cons b bs ih =>
    have hb : b.toNat + 1 ≤ 256 := b.toNat_lt
    calc b.toNat * 256 ^ bs.length + beValue bs
        < (b.toNat + 1) * 256 ^ bs.length := by rw [Nat.add_mul, Nat.one_mul]; omega
      _ ≤ 256 * 256 ^ bs.length := Nat.mul_le_mul_right _ hb
      _ = 256 ^ (b :: bs).length := by rw [List.length_cons, Nat.pow_succ, Nat.mul_comm]

theorem beBytes_mod (k n m : Nat) (h : n % 256 ^ k = m % 256 ^ k) : beBytes k n = beBytes k m := by
  induction k with
  | zero => rfl
  | succ k ih =>
    have hdiv : ∀ x : Nat, UInt8.ofNat (x / 256 ^ k) = UInt8.ofNat (x % 256 ^ (k + 1) / 256 ^ k) := fun x => by
      rw [Nat.pow_succ, Nat.mod_mul_right_div_self, ← UInt8.toNat_inj]
      simp
    have hlow : n % 256 ^ k = m % 256 ^ k := by
      have := congrArg (· % 256 ^ k) h
      simpa only [Nat.pow_succ, Nat.mod_mul_right_mod] using this
    rw [beBytes, beBytes, ih hlow, hdiv n, hdiv m, h]

theorem beBytes_beValue (bs : List UInt8) : beBytes bs.length (beValue bs) = bs := by
  induction bs with
  | nil => rfl
  | cons b bs ih =>
    have hlt := beValue_lt bs
    have hpos : 0 < 256 ^ bs.length := Nat.pow_pos (by decide)
    have hdiv : (b.toNat * 256 ^ bs.length + beValue bs) / 256 ^ bs.length = b.toNat := by
      rw [Nat.mul_comm, Nat.mul_add_div hpos, Nat.div_eq_of_lt hlt, Nat.add_zero]
    have hlow : beBytes bs.length (b.toNat * 256 ^ bs.length + beValue bs) = beBytes bs.length (beValue bs) :=
      beBytes_mod _ _ _ (by rw [Nat.mul_comm, Nat.mul_add_mod])
    rw [List.length_cons, beBytes, beValue, hdiv, hlow, ih]
    simp

/-- Bytes of the right number that denote `n` are the bytes of `n`. -/
theorem eq_beBytes_iff {k n : Nat} {bs : List UInt8} (hn : n < 256 ^ k) :
    bs = beBytes k n ↔ bs.length = k ∧ beValue bs = n := by
  constructor
  · intro he
    subst he
    exact ⟨length_beBytes k n, by rw [beValue_beBytes, Nat.mod_eq_of_lt hn]⟩
  · intro h
    obtain ⟨rfl, rfl⟩ := h
    exact (beBytes_beValue bs).symm

end Wire

namespace UInt16

def toBeBytes (n : UInt16) : List UInt8 := Wire.beBytes 2 n.toNat

def fromBeBytes (bs : List UInt8) : UInt16 := UInt16.ofNat (Wire.beValue bs)

@[simp] theorem length_toBeBytes (n : UInt16) : n.toBeBytes.length = 2 := Wire.length_beBytes 2 _

theorem fromBeBytes_eq_iff {bs : List UInt8} {n : UInt16} (h : bs.length = 2) :
    fromBeBytes bs = n ↔ bs = n.toBeBytes := by
  have hlt : Wire.beValue bs < 2 ^ 16 := by simpa [h] using Wire.beValue_lt bs
  rw [toBeBytes, Wire.eq_beBytes_iff n.toNat_lt, fromBeBytes, ← UInt16.toNat_inj, UInt16.toNat_ofNat_of_lt' hlt]
  simp [h]

end UInt16

namespace UInt32

def toBeBytes (n : UInt32) : List UInt8 := Wire.beBytes 4 n.toNat

def fromBeBytes (bs : List UInt8) : UInt32 := UInt32.ofNat (Wire.beValue bs)

@[simp] theorem length_toBeBytes (n : UInt32) : n.toBeBytes.length = 4 := Wire.length_beBytes 4 _

theorem fromBeBytes_eq_iff {bs : List UInt8} {n : UInt32} (h : bs.length = 4) :
    fromBeBytes bs = n ↔ bs = n.toBeBytes := by
  have hlt : Wire.beValue bs < 2 ^ 32 := by simpa [h] using Wire.beValue_lt bs
  rw [toBeBytes, Wire.eq_beBytes_iff n.toNat_lt, fromBeBytes, ← UInt32.toNat_inj, UInt32.toNat_ofNat_of_lt' hlt]
  simp [h]

end UInt32

namespace UInt64

def toBeBytes (n : UInt64) : List UInt8 := Wire.beBytes 8 n.toNat

def fromBeBytes (bs : List UInt8) : UInt64 := UInt64.ofNat (Wire.beValue bs)

@[simp] theorem length_toBeBytes (n : UInt64) : n.toBeBytes.length = 8 := Wire.length_beBytes 8 _

theorem fromBeBytes_eq_iff {bs : List UInt8} {n : UInt64} (h : bs.length = 8) :
    fromBeBytes bs = n ↔ bs = n.toBeBytes := by
  have hlt : Wire.beValue bs < 2 ^ 64 := by simpa [h] using Wire.beValue_lt bs
  rw [toBeBytes, Wire.eq_beBytes_iff n.toNat_lt, fromBeBytes, ← UInt64.toNat_inj, UInt64.toNat_ofNat_of_lt' hlt]
  simp [h]

end UInt64

import NovaMux.Lib.Machine
import NovaMux.Runtime.Endpoint

/-! A single live endpoint. As long as no process has removed the socket of another one, every bound socket
    is the object at the control path, so at most one process holds the endpoint. The recovery of a stale
    socket connects, checks and removes in separate steps, so it keeps this exactly when no socket bound
    after its failed connection is still held. -/

namespace NovaMux

namespace Starter

/-- The socket the process listens on and has not given up. -/
def socket : Starter → Option Nat
  | .closing _ => none
  | starter => starter.listener

/-- The number of the first object newer than the failed connection of a recovering process. -/
def probedAt : Starter → Option Nat
  | .checking since | .removing since => some since
  | _ => none

/-- The endpoint identifies the socket the process listens on. -/
def Identified : Starter → Prop
  | .serving ino identity | .leaving ino identity => identity = ino
  | _ => True

variable {starter : Starter} {ino : Nat}

theorem listener_of_socket (h : starter.socket = some ino) : starter.listener = some ino := by
  cases starter <;> first | exact h | cases h

theorem probedAt_of_socket (h : starter.socket = some ino) : starter.probedAt = none := by
  cases starter <;> first | rfl | cases h

theorem socket_or_closing (h : starter.listener = some ino) :
    starter.socket = some ino ∨ starter = .closing ino := by
  cases starter with
  | closing ino' => exact Or.inr (congrArg _ (Option.some.inj h))
  | _ => exact Or.inl h

theorem socket_of_holds (h : starter.holds) : ∃ ino, starter.socket = some ino := by
  cases starter with
  | serving ino _ | leaving ino _ | unlinking ino => exact ⟨ino, rfl⟩
  | _ => cases h

end Starter

namespace RuntimeDir

variable {n euid : Nat} {control : Option Metadata} {s t : RuntimeDir n} {a : Action n} {i j : Fin n}
  {p : Starter} {ino : Nat} {as : List (Action n)}

theorem live_iff : s.live ino ↔ ∃ i, (s.starter i).listener = some ino := by
  simp [live]

theorem starter_move : (s.move i p).starter j = if j = i then p else s.starter j :=
  Function.update_apply ..

/-- What holds of the process that goes on and of the processes before holds of all of them after. -/
theorem forall_move (R : Fin n → Starter → Prop) (hi : R i p) (ho : ∀ j, j ≠ i → R j (s.starter j))
    (j : Fin n) : R j ((s.move i p).starter j) := by
  rw [starter_move]
  split
  · next h => exact h ▸ hi
  · next h => exact ho j h

/-! ### The invariant -/

/-- Every bound socket is the object at the control path, and newer than the failed connection of every
    recovering process. -/
structure Single (s : RuntimeDir n) : Prop where
  named : ∀ i ino, (s.starter i).socket = some ino →
    s.control = some { isSocket := true, uid := s.euid, ino }
  closed : ∀ i ino metadata, s.starter i = .closing ino → s.control = some metadata → metadata.ino ≠ ino
  distinct : ∀ i j ino, (s.starter i).listener = some ino → (s.starter j).listener = some ino → i = j
  bound_lt : ∀ i ino, (s.starter i).listener = some ino → ino < s.nextIno
  identified : ∀ i, (s.starter i).Identified
  probed_le : ∀ i m, (s.starter i).probedAt = some m → m ≤ s.nextIno
  probed_before : ∀ i m j ino, (s.starter i).probedAt = some m → (s.starter j).socket = some ino → m ≤ ino

theorem single_start : (start n euid control).Single where
  named _ _ h := nomatch h
  closed _ _ _ h := nomatch h
  distinct _ _ _ h := nomatch h
  bound_lt _ _ h := nomatch h
  identified _ := trivial
  probed_le _ _ h := nomatch h
  probed_before _ _ _ _ h := nomatch h

theorem Single.socket_unique (h : s.Single) {ino' : Nat} (hi : (s.starter i).socket = some ino)
    (hj : (s.starter j).socket = some ino') : i = j := by
  have hc := (h.named i ino hi).symm.trans (h.named j ino' hj)
  obtain rfl : ino = ino' := by simpa using hc
  exact h.distinct i j ino (Starter.listener_of_socket hi) (Starter.listener_of_socket hj)

/-- A process may go on with the socket it has, or with none, if it turns to recovering a socket only
    behind every bound one. -/
theorem Single.move (h : s.Single) (hl : ∀ ino, p.listener = some ino → (s.starter i).listener = some ino)
    (hs : ∀ ino, p.socket = some ino → (s.starter i).socket = some ino)
    (hc : ∀ ino metadata, p = .closing ino → s.control = some metadata → metadata.ino ≠ ino)
    (hi : p.Identified) (hp : ∀ m, p.probedAt = some m → m ≤ s.nextIno)
    (hb : ∀ m j ino, p.probedAt = some m → (s.starter j).socket = some ino → m ≤ ino) :
    (s.move i p).Single := by
  have listener := forall_move (fun j q => ∀ ino, q.listener = some ino → (s.starter j).listener = some ino)
    hl fun _ _ _ => id
  have socket := forall_move (fun j q => ∀ ino, q.socket = some ino → (s.starter j).socket = some ino)
    hs fun _ _ _ => id
  have probed := forall_move (fun _ q => ∀ m k ino, q.probedAt = some m →
    (s.starter k).socket = some ino → m ≤ ino) (i := i) hb fun j _ => h.probed_before j
  exact {
    named j ino hj := h.named j ino (socket j ino hj)
    closed := forall_move (fun _ q => ∀ ino metadata, q = .closing ino → s.control = some metadata →
      metadata.ino ≠ ino) hc fun j _ => h.closed j
    distinct j k ino hj hk := h.distinct j k ino (listener j ino hj) (listener k ino hk)
    bound_lt j ino hj := h.bound_lt j ino (listener j ino hj)
    identified := forall_move (fun _ q => q.Identified) hi fun j _ => h.identified j
    probed_le := forall_move (fun _ q => ∀ m, q.probedAt = some m → m ≤ s.nextIno) hp fun j _ => h.probed_le j
    probed_before j m k ino hj hk := probed j m k ino hj (socket k ino hk) }

/-- A process may give up its listener at any time. -/
theorem Single.quit (h : s.Single) (hl : p.listener = none) (hp : p.probedAt = none) :
    (s.move i p).Single := by
  refine h.move ?_ (fun ino hs => ?_) ?_ ?_ ?_ ?_
  · simp [hl]
  · simp [Starter.listener_of_socket hs] at hl
  · intro ino metadata he
    subst he
    cases hl
  · cases p <;> trivial
  · simp [hp]
  · simp [hp]

theorem Single.keep (h : s.Single) (hs : (s.starter i).socket = some ino) (hp : p.socket = some ino)
    (hi : p.Identified) : (s.move i p).Single := by
  have hpr := Starter.probedAt_of_socket hp
  refine h.move ?_ ?_ ?_ hi ?_ ?_
  · simp [Starter.listener_of_socket hp, Starter.listener_of_socket hs]
  · simp [hp, hs]
  · intro ino metadata he
    subst he
    cases hp
  · simp [hpr]
  · simp [hpr]

theorem Single.no_socket (h : s.Single) (dead : ∀ metadata, s.control = some metadata → ¬ s.live metadata.ino)
    (j : Fin n) : (s.starter j).socket = none := by
  by_contra hj
  obtain ⟨ino, hj⟩ := Option.ne_none_iff_exists'.mp hj
  exact dead _ (h.named j ino hj) (live_iff.mpr ⟨j, Starter.listener_of_socket hj⟩)

/-- A process whose connection failed is behind every bound socket: there is none. -/
theorem Single.probe (h : s.Single) (dead : ∀ metadata, s.control = some metadata → ¬ s.live metadata.ino) :
    (s.move i (.checking s.nextIno)).Single := by
  refine h.move ?_ ?_ ?_ trivial ?_ fun m j ino _ hj => ?_
  · exact fun _ h => nomatch h
  · exact fun _ h => nomatch h
  · exact fun _ _ h => nomatch h
  · exact fun m hm => (Option.some.inj hm).ge
  · simp [h.no_socket dead j] at hj

theorem Single.check {since : Nat} (h : s.Single) (hi : s.starter i = .checking since) :
    (s.move i (.removing since)).Single := by
  refine h.move ?_ ?_ ?_ trivial ?_ ?_
  · exact fun _ h => nomatch h
  · exact fun _ h => nomatch h
  · exact fun _ _ h => nomatch h
  · exact fun m hm => h.probed_le i m (by rw [hi]; exact hm)
  · exact fun m j ino hm => h.probed_before i m j ino (by rw [hi]; exact hm)

/-- A new socket at the absent path is the only bound one. -/
theorem Single.bind (h : s.Single) (hc : s.control = none) :
    Single { s.move i (.securing s.nextIno) with
      control := some { isSocket := true, uid := s.euid, ino := s.nextIno }, nextIno := s.nextIno + 1 } := by
  -- Without a socket at the path no starter holds one, so the new one is the only one.
  have free := h.no_socket (by simp [hc])
  have listener := forall_move (s := s) (i := i) (p := .securing s.nextIno)
    (fun j q => ∀ ino, q.listener = some ino → j = i ∧ ino = s.nextIno ∨ (s.starter j).listener = some ino)
    (fun ino h => Or.inl ⟨rfl, (Option.some.inj h).symm⟩) fun j _ ino hj => Or.inr hj
  have socket := forall_move (s := s) (i := i) (p := .securing s.nextIno)
    (fun _ q => ∀ ino, q.socket = some ino → s.nextIno = ino)
    (fun ino h => Option.some.inj h) fun j _ ino hj => by simp [free j] at hj
  have closed := forall_move (s := s) (i := i) (p := .securing s.nextIno)
    (fun _ q => ∀ ino, q = .closing ino → s.nextIno ≠ ino) (fun _ h => nomatch h)
    fun j _ ino hj => (h.bound_lt j ino (by rw [hj]; rfl)).ne'
  -- All inodes seen so far are smaller than the new one.
  have probed := forall_move (s := s) (i := i) (p := .securing s.nextIno)
    (fun _ q => ∀ m, q.probedAt = some m → m ≤ s.nextIno) (fun _ h => nomatch h) fun j _ => h.probed_le j
  refine ⟨fun j ino hj => ?_, ?_, fun j k ino hj hk => ?_, fun j ino hj => ?_, ?_, fun j m hj => ?_,
    fun j m k ino hj hk => ?_⟩
  · exact congrArg some (congrArg _ (socket j ino hj))
  · intro j ino metadata hj h
    obtain ⟨⟩ := h
    exact closed j ino hj
  · rcases listener j ino hj with ⟨rfl, rfl⟩ | oldj
    · rcases listener k s.nextIno hk with ⟨rfl, -⟩ | oldk
      · rfl
      · exact absurd (h.bound_lt k s.nextIno oldk) (lt_irrefl _)
    · rcases listener k ino hk with ⟨rfl, rfl⟩ | oldk
      · exact absurd (h.bound_lt j s.nextIno oldj) (lt_irrefl _)
      · exact h.distinct j k ino oldj oldk
  · rcases listener j ino hj with ⟨-, rfl⟩ | oldj
    · exact Nat.lt_succ_self _
    · exact Nat.lt_succ_of_lt (h.bound_lt j ino oldj)
  · exact forall_move (fun _ q => q.Identified) trivial fun j _ => h.identified j
  · exact Nat.le_succ_of_le (probed j m hj)
  · exact socket k ino hk ▸ probed j m hj

/-- A path is removed when no other process has a bound socket. -/
theorem Single.remove (h : s.Single) (alone : ∀ j, j ≠ i → (s.starter j).socket = none) (hs : p.socket = none)
    (hl : ∀ ino, p.listener = some ino → (s.starter i).listener = some ino) (hi : p.Identified)
    (hp : p.probedAt = none) : Single { s.move i p with control := none } := by
  have free := forall_move (fun _ q => q.socket = none) hs alone
  have listener := forall_move (fun j q => ∀ ino, q.listener = some ino → (s.starter j).listener = some ino)
    hl fun _ _ _ => id
  exact {
    named j ino hj := by simp [free j] at hj
    closed _ _ _ _ hm := nomatch hm
    distinct j k ino hj hk := h.distinct j k ino (listener j ino hj) (listener k ino hk)
    bound_lt j ino hj := h.bound_lt j ino (listener j ino hj)
    identified := forall_move (fun _ q => q.Identified) hi fun j _ => h.identified j
    probed_le := forall_move (fun _ q => ∀ m, q.probedAt = some m → m ≤ s.nextIno) (by simp [hp])
      fun j _ => h.probed_le j
    probed_before j m k ino hj hk := by simp [free k] at hk }

/-! ### Steps -/

/-- No process removes the socket that another one listens on. -/
def KeepsLive (s : RuntimeDir n) (a : Action n) : Prop :=
  ∀ i metadata, a = .unlink i true → s.control = some metadata →
    ∀ j, j ≠ i → (s.starter j).listener ≠ some metadata.ino

/-- A process recovers the path only while nobody holds a socket bound after its failed connection. -/
def Unraced (s : RuntimeDir n) (a : Action n) : Prop :=
  ∀ i since, a = .unlink i true → s.starter i = .removing since →
    ∀ j ino, (s.starter j).socket = some ino → ino < since

def AtMostOne (s : RuntimeDir n) : Prop :=
  ∀ i j, (s.starter i).holds → (s.starter j).holds → i = j

theorem Single.atMostOne (h : s.Single) : s.AtMostOne := by
  intro i j hi hj
  obtain ⟨ino, hi⟩ := Starter.socket_of_holds hi
  obtain ⟨ino', hj⟩ := Starter.socket_of_holds hj
  exact h.socket_unique hi hj

theorem Single.alone {metadata : Metadata} (h : s.Single) (hk : s.KeepsLive (.unlink i true))
    (hm : s.control = some metadata) (hj : j ≠ i) : (s.starter j).socket = none := by
  by_contra hs
  obtain ⟨ino, hs⟩ := Option.ne_none_iff_exists'.mp hs
  obtain rfl : metadata = _ := Option.some.inj (hm.symm.trans (h.named j ino hs))
  exact hk i _ rfl hm j hj (Starter.listener_of_socket hs)

theorem Single.step_bind (h : s.Single) (hs : s.step (.bind i) = some t) : t.Single := by
  simp only [step] at hs
  split at hs
  · next hc =>
    obtain rfl := Option.some.inj hs
    exact h.bind hc
  · obtain rfl := Option.some.inj hs
    exact h.quit rfl rfl
  · obtain rfl := Option.some.inj hs
    exact h.quit rfl rfl
  · cases hs

theorem Single.step_secure {ok : Bool} (h : s.Single) (hs : s.step (.secure i ok) = some t) : t.Single := by
  cases ok with
  | true =>
    simp only [step] at hs
    split at hs
    · next ino metadata hi hc =>
      obtain rfl := Option.some.inj hs
      exact h.keep (by rw [hi]; rfl) rfl trivial
    · cases hs
  | false =>
    simp only [step] at hs
    split at hs
    · next ino hi =>
      obtain rfl := Option.some.inj hs
      exact h.keep (by rw [hi]; rfl) rfl trivial
    · cases hs

theorem Single.step_connect (h : s.Single) (hs : s.step (.connect i) = some t) : t.Single := by
  simp only [step] at hs
  split at hs
  · split at hs
    · obtain rfl := Option.some.inj hs
      exact h.quit rfl rfl
    · next dead =>
      obtain rfl := Option.some.inj hs
      exact h.probe fun metadata hm => by simpa [hm] using dead
  · cases hs

theorem Single.step_lstat (h : s.Single) (hs : s.step (.lstat i) = some t) : t.Single := by
  simp only [step] at hs
  split at hs
  · next since metadata hi hc =>
    split at hs
    · obtain rfl := Option.some.inj hs
      exact h.check hi
    · obtain rfl := Option.some.inj hs
      exact h.quit rfl rfl
  · next ino metadata hi hc =>
    obtain rfl := Option.some.inj hs
    have hsock : (s.starter i).socket = some ino := by rw [hi]; rfl
    obtain rfl : metadata = _ := Option.some.inj (hc.symm.trans (h.named i ino hsock))
    exact h.keep hsock rfl rfl
  · obtain rfl := Option.some.inj hs
    exact h.quit rfl rfl
  · obtain rfl := Option.some.inj hs
    exact h.quit rfl rfl
  · next ino identity metadata hi hc =>
    have hsock : (s.starter i).socket = some ino := by rw [hi]; rfl
    obtain rfl : metadata = _ := Option.some.inj (hc.symm.trans (h.named i ino hsock))
    obtain rfl : identity = ino := by simpa [hi, Starter.Identified] using h.identified i
    simp only [and_self, if_true] at hs
    obtain rfl := Option.some.inj hs
    exact h.keep hsock rfl trivial
  · next ino identity hi hc =>
    have hsock : (s.starter i).socket = some ino := by rw [hi]; rfl
    exact absurd ((h.named i ino hsock).symm.trans hc) (by simp)
  · cases hs

theorem Single.step_unlink {ok : Bool} (h : s.Single) (hk : s.KeepsLive (.unlink i ok))
    (hs : s.step (.unlink i ok) = some t) : t.Single := by
  cases ok with
  | true =>
    simp only [step] at hs
    split at hs
    · next since metadata hi hc =>
      obtain rfl := Option.some.inj hs
      exact h.remove (fun j => h.alone hk hc) rfl (fun _ h => nomatch h) trivial rfl
    · next ino metadata hi hc =>
      obtain rfl := Option.some.inj hs
      exact h.remove (fun j => h.alone hk hc) rfl (by simp [hi, Starter.listener]) trivial rfl
    · next ino metadata hi hc =>
      obtain rfl := Option.some.inj hs
      exact h.remove (fun j => h.alone hk hc) rfl (by simp [hi, Starter.listener]) trivial rfl
    · cases hs
  | false =>
    simp only [step] at hs
    split at hs
    · obtain rfl := Option.some.inj hs
      exact h.quit rfl rfl
    · obtain rfl := Option.some.inj hs
      exact h.quit rfl rfl
    · obtain rfl := Option.some.inj hs
      exact h.quit rfl rfl
    · cases hs

theorem Single.step_stop (h : s.Single) (hs : s.step (.stop i) = some t) : t.Single := by
  simp only [step] at hs
  split at hs
  · next ino identity hi =>
    obtain rfl := Option.some.inj hs
    have hid : identity = ino := by simpa [hi, Starter.Identified] using h.identified i
    exact h.keep (by rw [hi]; rfl) rfl hid
  · cases hs

/-- A step that removes nobody else's socket keeps the invariant. -/
theorem Single.step (h : s.Single) (hk : s.KeepsLive a) (hs : s.step a = some t) : t.Single := by
  cases a with
  | bind i => exact h.step_bind hs
  | secure i ok => exact h.step_secure hs
  | connect i => exact h.step_connect hs
  | lstat i => exact h.step_lstat hs
  | unlink i ok => exact h.step_unlink hk hs
  | stop i => exact h.step_stop hs
  | exit i =>
    obtain rfl := Option.some.inj hs
    exact h.quit rfl rfl

/-- What removes a path: the recovery of a stale socket, or a process that listens on a socket itself. -/
theorem unlink_cases (hs : s.step (.unlink i true) = some t) :
    ∃ metadata, s.control = some metadata ∧
      ((∃ since, s.starter i = .removing since) ∨ ∃ ino, (s.starter i).socket = some ino) := by
  simp only [step] at hs
  split at hs
  · next since metadata hi hc => exact ⟨metadata, hc, Or.inl ⟨since, hi⟩⟩
  · next ino metadata hi hc => exact ⟨metadata, hc, Or.inr ⟨ino, by rw [hi]; rfl⟩⟩
  · next ino metadata hi hc => exact ⟨metadata, hc, Or.inr ⟨ino, by rw [hi]; rfl⟩⟩
  · cases hs

/-- A step removes the socket of another process exactly when it is a recovery that was overtaken. -/
theorem Single.keepsLive_iff (h : s.Single) (hs : s.step a = some t) : s.KeepsLive a ↔ s.Unraced a := by
  refine ⟨fun hk i since he hi j ino hj => ?_, fun hu i metadata he hc j hji hl => ?_⟩
  · subst he
    have hc := h.named j ino hj
    have hji : j ≠ i := by
      intro he
      subst he
      simp [hi, Starter.socket, Starter.listener] at hj
    exact absurd (Starter.listener_of_socket hj) (hk i _ rfl hc j hji)
  · subst he
    have hj : (s.starter j).socket = some metadata.ino := by
      rcases Starter.socket_or_closing hl with hj | hj
      · exact hj
      · exact absurd rfl (h.closed j _ metadata hj hc)
    rcases unlink_cases hs with ⟨-, -, ⟨since, hi⟩ | ⟨ino, hi⟩⟩
    · have before := h.probed_before i since j _ (by rw [hi]; rfl) hj
      exact absurd (hu i since rfl hi j _ hj) (by omega)
    · exact hji (h.socket_unique hj hi)

/-! ### Runs -/

open Machine

/-- In a run of any number of starters no process removes the socket another one listens on, and at most
    one holds the endpoint at any time, exactly if no recovery is overtaken. -/
theorem single_endpoint {u : RuntimeDir n} (hr : run step (start n euid control) as = some u) :
    (Along step KeepsLive (start n euid control) as ∧ Throughout step AtMostOne (start n euid control) as) ↔
      Along step Unraced (start n euid control) as := by
  have keeps : Along step KeepsLive (start n euid control) as ↔
      Along step Unraced (start n euid control) as :=
    along_iff_along (P := Single) (I := fun _ => True) (fun _ _ _ _ _ => trivial)
      (fun s a t _ h hs => h.keepsLive_iff hs) (fun s a t _ h hs hk => h.step hk hs) trivial single_start hr
  refine ⟨fun h => keeps.mp h.1, fun h => ⟨keeps.mpr h, ?_⟩⟩
  have single : Throughout step Single (start n euid control) as :=
    (keeps.mpr h).throughout (I := fun _ => True) (fun _ _ _ _ _ => trivial)
      (fun s a t _ h hs hk => h.step hk hs) trivial single_start
  exact single.imp fun s h => h.atMostOne

/-- Process 0 recovers a stale socket, and process 1 finds the new one live. -/
def recovery : List (Action 2) :=
  [.bind 0, .connect 0, .lstat 0, .unlink 0 true, .bind 0, .secure 0 true, .lstat 0, .bind 1, .connect 1]

theorem single_endpoint_recovery : ∃ u, run step (start 2 1000 (some ⟨true, 1000, 0⟩)) recovery = some u ∧
    u.starter 0 = .serving 1 1 ∧ u.starter 1 = .failed .alreadyRunning ∧
    Along step KeepsLive (start 2 1000 (some ⟨true, 1000, 0⟩)) recovery ∧
    Throughout step AtMostOne (start 2 1000 (some ⟨true, 1000, 0⟩)) recovery := by
  refine ⟨_, rfl, rfl, rfl, (single_endpoint rfl).mpr ?_⟩
  refine along_cons.mpr ⟨nofun, fun s₁ h₁ => ?_⟩
  refine along_cons.mpr ⟨nofun, fun s₂ h₂ => ?_⟩
  refine along_cons.mpr ⟨nofun, fun s₃ h₃ => ?_⟩
  refine along_cons.mpr ⟨fun i since _ _ => ?_, fun s₄ _ => Along.of_forall fun s a ha => ?_⟩
  · obtain rfl := Option.some.inj h₁
    obtain rfl := Option.some.inj h₂
    obtain rfl := Option.some.inj h₃
    exact Fin.forall_fin_two.mpr ⟨nofun, nofun⟩
  · simp only [List.mem_cons, List.not_mem_nil, or_false] at ha
    rcases ha with rfl | rfl | rfl | rfl | rfl <;> exact nofun

/-- Both processes find the socket stale before either of them removes it; later process 1 removes the
    socket that process 0 serves on. -/
theorem single_endpoint_fails : ∃ s u, run step (start 2 1000 (some ⟨true, 1000, 0⟩))
      [.bind 0, .bind 1, .connect 0, .connect 1, .lstat 0, .lstat 1, .unlink 0 true, .bind 0, .secure 0 true,
        .lstat 0] = some s ∧
    ¬ s.KeepsLive (.unlink 1 true) ∧
    run step s [.unlink 1 true, .bind 1, .secure 1 true, .lstat 1] = some u ∧
    u.starter 0 = .serving 1 1 ∧ u.starter 1 = .serving 2 2 ∧ ¬ u.AtMostOne := by
  refine ⟨_, _, rfl, fun hk => ?_, rfl, rfl, rfl, fun h => ?_⟩
  · exact hk 1 _ rfl rfl 0 (by decide) rfl
  · exact absurd (h 0 1 rfl rfl) (by decide)

end RuntimeDir

end NovaMux

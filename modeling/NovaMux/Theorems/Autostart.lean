import NovaMux.Runtime.Autostart

/-! Requests that start the daemon. Attempts that find no daemon hand nothing over, so that however often a request is
    tried again it reaches at most one daemon, at most once; a daemon is started at most once, and not where there is
    one; and the loop gives up in time. -/

namespace NovaMux

open ByteStream

variable {request : Request} {attempt : Attempt} {attempts : List Attempt} {clock : List Nat} {spawn : Option String}
  {bytes : List UInt8} {asked : Asked} {deadline low : Nat}

/-! ### One attempt -/

/-- What a connection may have taken of a request, by the result. -/
structure Sent (request : Request) (result : Except RequestError Response) (bytes : List UInt8) : Prop where
  part : bytes = [] ∨ ∃ frame, encodeRequest request = .ok frame ∧ bytes <+: frame
  whole : ∀ response, result = .ok response → encodeRequest request = .ok bytes
  nothing : ∀ error, result = .error error → error.absent = true → bytes = []

theorem sent_nothing (error : RequestError) : Sent request (.error error) [] :=
  ⟨Or.inl rfl, nofun, fun _ _ _ => rfl⟩

theorem sent_part {frame : List UInt8} (h : encodeRequest request = .ok frame) (hp : bytes <+: frame) {error : RequestError}
    (ha : error.absent = false) : Sent request (.error error) bytes :=
  ⟨Or.inr ⟨frame, h, hp⟩, nofun, fun other he ho => by
    cases he
    rw [ha] at ho
    cases ho⟩

theorem sendRequest_sent (request : Request) (attempt : Attempt) :
    Sent request (sendRequest request attempt).1 (sendRequest request attempt).2 := by
  unfold sendRequest
  split
  · exact sent_nothing _
  · split
    · exact sent_nothing _
    · split
      · exact sent_nothing _
      · split
        · exact sent_nothing _
        · next frame he =>
          split
          · exact sent_part he (List.take_prefix _ frame) rfl
          · split
            · exact ⟨Or.inr ⟨frame, he, List.prefix_rfl⟩, fun _ _ => he, nofun⟩
            · exact sent_part he List.prefix_rfl rfl
            · exact sent_part he List.prefix_rfl rfl
            · exact sent_part he List.prefix_rfl rfl
            · exact sent_part he List.prefix_rfl rfl

/-! ### All attempts -/

/-- Nothing but the last deed hands any part of the request over. -/
def Asked.Once (request : Request) (asked : Asked) : Prop := ∃ idle bytes, asked.deeds = idle ++ [.sent bytes] ∧
  (∀ deed ∈ idle, ∀ bytes, deed = .sent bytes → bytes = []) ∧ Sent request asked.result bytes

theorem once_first (h : Sent request asked.result bytes) (hd : asked.deeds = [.sent bytes]) : asked.Once request :=
  ⟨[], bytes, hd, by simp, h⟩

theorem Asked.Once.after (h : asked.Once request) {deed : Deed} (hd : ∀ bytes, deed ≠ .sent bytes) :
    (asked.after [.sent [], deed]).Once request := by
  obtain ⟨idle, bytes, hdeeds, hidle, hsent⟩ := h
  refine ⟨[.sent [], deed] ++ idle, bytes, by simp [Asked.after, hdeeds], fun other ho bytes he => ?_, hsent⟩
  rcases List.mem_append.mp ho with hnew | hold
  · rcases List.mem_pair.mp hnew with rfl | rfl
    · cases he
      rfl
    · exact absurd he (hd bytes)
  · exact hidle other hold bytes he

/-- How the loop goes on from an attempt: it ends, or it sleeps after a connection that was not made. -/
theorem retry_cases (h : retry request deadline (attempt :: attempts) clock = some asked) :
    (∃ bytes, asked.deeds = [.sent bytes] ∧ Sent request asked.result bytes) ∨
      ∃ now rest next, clock = now :: rest ∧ now < deadline ∧ retry request deadline attempts rest = some next ∧
        asked = next.after [.sent [], .slept] := by
  have hsent := sendRequest_sent request attempt
  rw [retry] at h
  split at h
  · next response bytes hs =>
    cases h
    rw [hs] at hsent
    exact Or.inl ⟨bytes, rfl, hsent⟩
  · next kind bytes hs =>
    rw [hs] at hsent
    split at h
    · cases h
    · next now rest =>
      split at h
      · next hlate =>
        obtain ⟨next, hnext, rfl⟩ := Option.map_eq_some_iff.mp h
        obtain rfl : bytes = [] := hsent.nothing _ rfl hlate.2
        exact Or.inr ⟨now, rest, next, rfl, hlate.1, hnext, rfl⟩
      · cases h
        exact Or.inl ⟨bytes, rfl, hsent⟩
  · next error bytes _ hs =>
    cases h
    rw [hs] at hsent
    exact Or.inl ⟨bytes, rfl, hsent⟩

theorem retry_once (h : retry request deadline attempts clock = some asked) :
    asked.Once request ∧ .spawned ∉ asked.deeds := by
  induction attempts generalizing clock asked with
  | nil => cases h
  | cons attempt attempts ih =>
    rcases retry_cases h with ⟨bytes, hdeeds, hsent⟩ | ⟨now, rest, next, -, -, hnext, rfl⟩
    · exact ⟨once_first hsent hdeeds, by simp [hdeeds]⟩
    · obtain ⟨honce, hspawned⟩ := ih hnext
      exact ⟨honce.after nofun, by simpa [Asked.after] using hspawned⟩

/-! ### Time -/

/-- Readings of a clock, with a sleep between each and the next. -/
def Ticks : Nat → List Nat → Prop
  | _, [] => True
  | low, now :: clock => low ≤ now ∧ Ticks (now + startRetry) clock

theorem retry_slept (ht : Ticks low clock) (h : retry request deadline attempts clock = some asked) :
    asked.deeds.count .slept = 0 ∨ low + startRetry * (asked.deeds.count .slept - 1) < deadline := by
  induction attempts generalizing clock asked low with
  | nil => cases h
  | cons attempt attempts ih =>
    rcases retry_cases h with ⟨bytes, hdeeds, -⟩ | ⟨now, rest, next, rfl, hearly, hnext, rfl⟩
    · exact Or.inl (by simp [hdeeds])
    · obtain ⟨hlow, hrest⟩ := ht
      have hcount : (next.after [.sent [], .slept]).deeds.count .slept = next.deeds.count .slept + 1 := by
        simp [Asked.after]
      refine Or.inr ?_
      rw [hcount]
      rcases ih hrest hnext with hnone | hsome
      · rw [hnone]
        omega
      · simp only [startRetry] at hsome ⊢
        omega

theorem retry_isSome {k : Nat} (ht : Ticks low clock) (hk : deadline ≤ low + startRetry * k) (ha : k < attempts.length)
    (hc : k < clock.length) : (retry request deadline attempts clock).isSome := by
  induction attempts generalizing clock low k with
  | nil => cases ha
  | cons attempt attempts ih =>
    rw [retry]
    split
    · rfl
    · split
      · cases hc
      · next now rest =>
        split
        · next hlate =>
          obtain ⟨hlow, hrest⟩ := ht
          simp only [startRetry] at hk
          obtain ⟨j, rfl⟩ : ∃ j, k = j + 1 := ⟨k - 1, by omega⟩
          rw [Option.isSome_map]
          refine ih (k := j) hrest ?_ (by simpa using ha) (by simpa using hc)
          simp only [startRetry]
          omega
        · rfl
    · rfl

/-! ### The whole call -/

/-- How a call ends at its first attempt, or goes on with a daemon started where there was none. -/
theorem requestWithAutostart_cases (h : requestWithAutostart request spawn (attempt :: attempts) clock = some asked) :
    (∃ bytes, asked.deeds = [.sent bytes] ∧ Sent request asked.result bytes) ∨
      ∃ start rest next error, clock = start :: rest ∧ (sendRequest request attempt).1 = .error error ∧
        error.absent = true ∧ retry request (start + startTimeout) attempts rest = some next ∧
        asked = next.after [.sent [], .spawned] := by
  have hsent := sendRequest_sent request attempt
  rw [requestWithAutostart] at h
  split at h
  · next response bytes hs =>
    cases h
    rw [hs] at hsent
    exact Or.inl ⟨bytes, rfl, hsent⟩
  · next error bytes hs =>
    rw [hs] at hsent
    split at h
    · next habsent =>
      obtain rfl : bytes = [] := hsent.nothing error rfl habsent
      split at h
      · cases h
        exact Or.inl ⟨[], rfl, sent_nothing _⟩
      · split at h
        · cases h
        · next start rest =>
          obtain ⟨next, hnext, rfl⟩ := Option.map_eq_some_iff.mp h
          exact Or.inr ⟨start, rest, next, error, rfl, congrArg Prod.fst hs, habsent, hnext, rfl⟩
    · cases h
      exact Or.inl ⟨bytes, rfl, hsent⟩

theorem requestWithAutostart_once (h : requestWithAutostart request spawn attempts clock = some asked) :
    asked.Once request ∧ asked.deeds.count .spawned ≤ 1 ∧ (.spawned ∈ asked.deeds → ∃ first error,
      attempts.head? = some first ∧ (sendRequest request first).1 = .error error ∧ error.absent = true) := by
  cases attempts with
  | nil => cases h
  | cons attempt attempts =>
    rcases requestWithAutostart_cases h with ⟨bytes, hdeeds, hsent⟩ | ⟨start, rest, next, error, -, hfirst, habsent, hnext, rfl⟩
    · exact ⟨once_first hsent hdeeds, by simp [hdeeds], by simp [hdeeds]⟩
    · obtain ⟨honce, hspawned⟩ := retry_once hnext
      refine ⟨honce.after nofun, ?_, fun _ => ⟨attempt, error, rfl, hfirst, habsent⟩⟩
      simp [Asked.after, List.count_eq_zero.mpr hspawned]

theorem requestWithAutostart_slept (ht : ∀ start rest, clock = start :: rest → Ticks start rest)
    (h : requestWithAutostart request spawn attempts clock = some asked) : asked.deeds.count .slept ≤ 120 := by
  cases attempts with
  | nil => cases h
  | cons attempt attempts =>
    rcases requestWithAutostart_cases h with ⟨bytes, hdeeds, -⟩ | ⟨start, rest, next, -, rfl, -, -, hnext, rfl⟩
    · simp [hdeeds]
    · have hcount : (next.after [.sent [], .spawned]).deeds.count .slept = next.deeds.count .slept := by simp [Asked.after]
      rw [hcount]
      rcases retry_slept (ht start rest rfl) hnext with hnone | hsome
      · omega
      · simp only [startRetry, startTimeout] at hsome
        omega

theorem requestWithAutostart_isSome (ht : ∀ start rest, clock = start :: rest → Ticks start rest)
    (ha : 122 ≤ attempts.length) (hc : 122 ≤ clock.length) :
    (requestWithAutostart request spawn attempts clock).isSome := by
  cases attempts with
  | nil => cases ha
  | cons attempt attempts =>
    rw [requestWithAutostart]
    split
    · rfl
    · split
      · split
        · rfl
        · split
          · cases hc
          · next start rest =>
            rw [Option.isSome_map]
            rw [List.length_cons] at ha hc
            exact retry_isSome (k := 120) (ht start rest rfl) (by simp [startTimeout, startRetry]) (by omega) (by omega)
      · rfl

/-- A client that has connected has handed over one ping and one attachment, and nothing else. -/
theorem connect_sent {name : SessionName} {deeds : List Deed}
    (h : AttachedClient.connect name spawn attempts clock = some (.ok (), deeds)) : ∃ idle ping attach,
      encodeRequest (.ping 0) = .ok ping ∧ encodeRequest (.attach name) = .ok attach ∧
      deeds = idle ++ [.sent ping, .sent attach] ∧ ∀ deed ∈ idle, ∀ bytes, deed = .sent bytes → bytes = [] := by
  obtain ⟨asked, hasked, h⟩ := Option.bind_eq_some_iff.mp h
  obtain ⟨⟨idle, ping, hdeeds, hidle, hping⟩, -⟩ := requestWithAutostart_once hasked
  split at h
  · cases h
  · next response hresult =>
    split at h
    · cases h
    · next attempt _ _ =>
      have hattach := sendRequest_sent (.attach name) attempt
      have done : ∀ attached bytes, sendRequest (.attach name) attempt = (.ok (.attached attached), bytes) →
          deeds = asked.deeds ++ [.sent bytes] → ∃ idle ping attach, encodeRequest (.ping 0) = .ok ping ∧
            encodeRequest (.attach name) = .ok attach ∧ deeds = idle ++ [.sent ping, .sent attach] ∧
            ∀ deed ∈ idle, ∀ bytes, deed = .sent bytes → bytes = [] := fun attached bytes hs hd => by
        rw [hs] at hattach
        refine ⟨idle, ping, bytes, hping.whole response hresult, hattach.whole _ rfl, ?_, hidle⟩
        rw [hd, hdeeds, List.append_assoc]
        rfl
      rcases hs : sendRequest (.attach name) attempt with ⟨result, bytes⟩
      rw [hs] at h
      simp only at h
      split at h
      · next attached =>
        split at h
        · cases h
          exact done attached bytes hs rfl
        · cases h
      · cases h
      · cases h
      · cases h

/-- Whatever becomes of the attempts, at most the last of them hands over any part of the request, all of it if there is a
    response and none of it if no daemon was found in the end; a daemon is started at most once, and only where the first
    attempt found none. With a sleep between each reading of the clock and the next the call has a result after at most
    122 attempts, and has slept at most 120 times. A client that has attached has handed over one ping and one attachment, and
    nothing else. -/
theorem asks_once (request : Request) (spawn : Option String) (attempts : List Attempt) (clock : List Nat) :
    (∀ asked, requestWithAutostart request spawn attempts clock = some asked →
      asked.Once request ∧ asked.deeds.count .spawned ≤ 1 ∧ (.spawned ∈ asked.deeds → ∃ first error,
        attempts.head? = some first ∧ (sendRequest request first).1 = .error error ∧ error.absent = true)) ∧
    ((∀ start rest, clock = start :: rest → Ticks start rest) →
      (∀ asked, requestWithAutostart request spawn attempts clock = some asked → asked.deeds.count .slept ≤ 120) ∧
      (122 ≤ attempts.length → 122 ≤ clock.length → (requestWithAutostart request spawn attempts clock).isSome)) ∧
    ∀ name deeds, AttachedClient.connect name spawn attempts clock = some (.ok (), deeds) → ∃ idle ping attach,
      encodeRequest (.ping 0) = .ok ping ∧ encodeRequest (.attach name) = .ok attach ∧
      deeds = idle ++ [.sent ping, .sent attach] ∧ ∀ deed ∈ idle, ∀ bytes, deed = .sent bytes → bytes = [] :=
  ⟨fun _ h => requestWithAutostart_once h,
    fun ht => ⟨fun _ h => requestWithAutostart_slept ht h, fun ha hc => requestWithAutostart_isSome ht ha hc⟩,
    fun _ _ h => connect_sent h⟩

end NovaMux

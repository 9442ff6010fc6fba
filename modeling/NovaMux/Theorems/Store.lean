import NovaMux.Theorems.Hosted
import NovaMux.Runtime.Daemon

/-! The session store over whole runs of requests: it grows up to its limit and never loses or replaces a
    session, a list names the sessions created so far in ascending byte order, and every answer can be sent. -/

namespace NovaMux

open Std

/-! ### Maps -/

section

variable {K V : Type} [Ord K] [TransOrd K]

theorem values_eq_map_snd (map : ExtTreeMap K V) : map.values = map.toList.map Prod.snd := by
  have hfold : map.values = map.foldr (fun _ value values => value :: values) [] := rfl
  rw [hfold, ExtTreeMap.foldr_eq_foldr_toList, List.map_eq_foldr]

theorem mem_values [LawfulEqOrd K] {map : ExtTreeMap K V} {value : V} :
    value ∈ map.values ↔ ∃ key : K, map[key]? = some value := by
  rw [values_eq_map_snd]
  refine ⟨fun h => ?_, fun h => ?_⟩
  · obtain ⟨⟨key, value⟩, hin, rfl⟩ := List.mem_map.mp h
    exact ⟨key, ExtTreeMap.mem_toList_iff_getElem?_eq_some.mp hin⟩
  · obtain ⟨key, hkey⟩ := h
    exact List.mem_map.mpr ⟨(key, value), ExtTreeMap.mem_toList_iff_getElem?_eq_some.mpr hkey, rfl⟩

end

theorem SessionName.eq_of_asStr {a b : SessionName} (h : a.asStr = b.asStr) : a = b := by
  cases a
  cases b
  congr

theorem SessionName.ascii (name : SessionName) : Utf8.Ascii name.asStr := by
  intro byte hb
  have h := List.all_eq_true.mp name.portable byte hb
  simp only [portableByte, isAsciiAlphanumeric, Bool.or_eq_true, Bool.and_eq_true, decide_eq_true_eq,
    beq_iff_eq, UInt8.le_iff_toNat_le] at h
  rcases h with (((h | h) | h) | h) | h
  · exact h.2.trans_lt (by decide)
  · exact h.2.trans_lt (by decide)
  · exact h.2.trans_lt (by decide)
  · rw [h]
    decide
  · rw [h]
    decide

/-! ### Answers -/

theorem length_prefixWithin_le (value : String) (maximum : Nat) : (prefixWithin value maximum).utf8ByteSize ≤ maximum := by
  induction maximum with
  | zero => simp [prefixWithin]
  | succ maximum ih =>
    rw [prefixWithin]
    split
    · next hv =>
      rw [String.Slice.utf8ByteSize_copy, String.utf8ByteSize_sliceTo]
    · omega

theorem length_boundedMessage_le (message : String) : (boundedMessage message).utf8ByteSize ≤ 256 := by
  rw [boundedMessage]
  split
  · assumption
  · exact length_prefixWithin_le message 256

theorem limits_serviceError (code : ErrorCode) (message : String) : (serviceError code message).Limits := by
  have hlen := length_boundedMessage_le message
  refine ⟨fun _ h => (by cases h), fun _ h => (by cases h), fun _ _ h => ?_, ?_⟩
  · cases h
    exact hlen
  · have hbytes : (Utf8.bytes (boundedMessage message)).length ≤ 256 := hlen
    have hmax : maxFrameBytes = 8192 := rfl
    have hheader : headerBytes = 10 := rfl
    rw [serviceError, Response.frameLength]
    omega

theorem limits_sessions {infos : List SessionInfo} (h : infos.length ≤ maxListedSessions) :
    (Response.sessions infos).Limits := by
  refine ⟨fun _ he => ?_, fun _ h => (by cases h), fun _ _ h => (by cases h), ?_⟩
  · cases he
    exact h
  · have hsum : (infos.map fun session => 3 + (Utf8.bytes session.name.asStr).length).sum ≤ infos.length * 67 := by
      refine sum_map_le fun session _ => ?_
      exact Nat.add_le_add_left session.name.short 3
    have hmax : maxFrameBytes = 8192 := rfl
    have hheader : headerBytes = 10 := rfl
    have hlisted : maxListedSessions = 64 := rfl
    rw [Response.frameLength]
    omega

theorem limits_pong (nonce : UInt64) : (Response.pong nonce).Limits :=
  ⟨fun _ h => (by cases h), fun _ h => (by cases h), fun _ _ h => (by cases h),
    (by decide : headerBytes + 8 ≤ maxFrameBytes)⟩

/-! ### Steps -/

variable {responses : List Response} {sessions sessions' : Sessions} {request : Request} {response : Response}
  {os os' : Os}

/-- The store after some requests and the responses to them. -/
structure Stored (responses : List Response) (sessions : Sessions) : Prop where
  few : sessions.size ≤ maxListedSessions
  named : ∀ (key : String) hosted, sessions[key]? = some hosted → hosted.session.name.asStr = key
  created : ∀ name : SessionName, (sessions[name.asStr]?).isSome ↔ .created name ∈ responses

/-- What a request does to a store: no session is lost or replaced, an error changes nothing, the response
    can be sent, and a list names what has been created so far. -/
structure Served (responses : List Response) (sessions : Sessions) (request : Request) (response : Response)
    (sessions' : Sessions) : Prop where
  kept : ∀ (key : String) hosted, sessions[key]? = some hosted → sessions'[key]? = some hosted
  refused : ∀ code message, response = .error code message → sessions' = sessions
  encodable : ∃ bytes, encodeResponse response = .ok bytes
  listed : request = .list → ∃ infos, response = .sessions infos ∧
    (infos.map fun info => Utf8.bytes info.name.asStr).Pairwise Utf8.ByteOrder ∧
    ∀ name, name ∈ infos.map SessionInfo.name ↔ .created name ∈ responses

theorem Stored.empty : Stored [] ∅ := by
  refine ⟨by simp, fun key hosted h => ?_, fun name => ?_⟩
  · simp at h
  · simp

/-- A response that creates nothing adds nothing to a store. -/
theorem Stored.append (h : Stored responses sessions) (hr : ∀ name, response ≠ .created name) :
    Stored (responses ++ [response]) sessions := by
  refine ⟨h.few, h.named, fun name => ?_⟩
  rw [h.created, List.mem_append, List.mem_singleton]
  exact ⟨Or.inl, fun hin => hin.resolve_right fun he => hr name he.symm⟩

/-- The keys of a store are the names of its sessions. -/
theorem Stored.names (h : Stored responses sessions) :
    sessions.values.map (fun hosted => hosted.session.name.asStr) = sessions.keys := by
  rw [values_eq_map_snd, ← ExtTreeMap.map_fst_toList_eq_keys, List.map_map]
  refine List.map_congr_left fun entry he => ?_
  exact h.named entry.1 entry.2 (ExtTreeMap.mem_toList_iff_getElem?_eq_some.mp he)

theorem Stored.listed (h : Stored responses sessions) :
    (sessions.values.map fun hosted => Utf8.bytes hosted.info.name.asStr).Pairwise Utf8.ByteOrder ∧
      ∀ name, name ∈ sessions.values.map (fun hosted => hosted.info.name) ↔ .created name ∈ responses := by
  refine ⟨?_, fun name => ?_⟩
  · have hkeys : (sessions.values.map fun hosted => hosted.session.name.asStr).Pairwise
        fun a b => compare a b = .lt := by
      rw [h.names]
      exact sessions.ordered_keys
    refine List.pairwise_map.mpr ((List.pairwise_map.mp hkeys).imp fun hlt => ?_)
    exact (Utf8.compare_eq_lt (SessionName.ascii _) (SessionName.ascii _)).mp hlt
  · rw [← h.created, List.mem_map]
    refine ⟨fun hin => ?_, fun hin => ?_⟩
    · obtain ⟨hosted, hv, rfl⟩ := hin
      obtain ⟨key, hkey⟩ := mem_values.mp hv
      have hname : hosted.info.name.asStr = key := h.named key hosted hkey
      rw [hname, hkey]
      rfl
    · obtain ⟨hosted, hget⟩ := Option.isSome_iff_exists.mp hin
      exact ⟨hosted, mem_values.mpr ⟨_, hget⟩, SessionName.eq_of_asStr (h.named _ hosted hget)⟩

theorem create_name {name : SessionName} {hosted : HostedSession} (h : HostedSession.create name os = (.ok hosted, os')) :
    hosted.session.name = name := by
  obtain ⟨-, panes, -, rfl⟩ := HostedSession.create_inv h
  rfl

/-- A session with a new name is added beside the others. -/
theorem Stored.insert (h : Stored responses sessions) {name : SessionName} {hosted : HostedSession}
    (hc : sessions.contains name.asStr = false) (hfew : sessions.size < maxListedSessions)
    (hn : hosted.session.name = name) :
    Stored (responses ++ [.created name]) (sessions.insert name.asStr hosted) ∧
      ∀ (key : String) other, sessions[key]? = some other → (sessions.insert name.asStr hosted)[key]? = some other := by
  have hnone : sessions[name.asStr]? = none := by
    rw [← Option.isSome_eq_false_iff.trans Option.isNone_iff_eq_none, ExtTreeMap.isSome_getElem?_eq_contains, hc]
  have hget : ∀ key : String, (sessions.insert name.asStr hosted)[key]? =
      if name.asStr = key then some hosted else sessions[key]? := fun key => by
    rw [ExtTreeMap.getElem?_insert]
    simp
  refine ⟨⟨?_, fun key other ho => ?_, fun other => ?_⟩, fun key other ho => ?_⟩
  · rw [ExtTreeMap.size_insert, hc]
    exact hfew
  · rw [hget] at ho
    split at ho
    · next he =>
      obtain rfl := Option.some.inj ho
      rw [hn, he]
    · exact h.named key other ho
  · rw [hget, List.mem_append, List.mem_singleton, Response.created.injEq]
    split
    -- Two names with one text are the same name.
    · next he => simp [SessionName.eq_of_asStr he]
    · next hne =>
      rw [h.created]
      exact ⟨Or.inl, fun hin => hin.resolve_right fun he => hne (he ▸ rfl)⟩
  · rw [hget]
    split
    · next he =>
      rw [← he, hnone] at ho
      cases ho
    · exact ho

/-- An answer that leaves the store alone. -/
theorem Stored.unchanged (h : Stored responses sessions) (hl : response.Limits)
    (hr : ∀ name, response ≠ .created name) (hreq : request ≠ .list) :
    Stored (responses ++ [response]) sessions ∧ Served responses sessions request response sessions :=
  ⟨h.append hr, fun _ _ hget => hget, fun _ _ _ => rfl, (encodeResponse_isOk response).mpr hl,
    fun he => absurd he hreq⟩

theorem Stored.dispatch (h : Stored responses sessions)
    (hd : NovaMux.dispatch sessions request os = (response, sessions', os')) :
    Stored (responses ++ [response]) sessions' ∧ Served responses sessions request response sessions' := by
  cases request with
  | ping nonce =>
    cases hd
    exact h.unchanged (limits_pong nonce) (fun _ he => by cases he) (fun he => by cases he)
  | list =>
    cases hd
    have hlen : (sessions.values.map HostedSession.info).length ≤ maxListedSessions := by
      rw [List.length_map, ← List.length_map fun hosted : HostedSession => hosted.session.name.asStr, h.names,
        ExtTreeMap.length_keys]
      exact h.few
    refine ⟨h.append fun _ he => (by cases he), fun _ _ hget => hget, fun _ _ _ => rfl,
      (encodeResponse_isOk _).mpr (limits_sessions hlen), fun _ => ⟨_, rfl, ?_⟩⟩
    rw [List.map_map, List.map_map]
    exact h.listed
  | create name =>
    simp only [NovaMux.dispatch] at hd
    split at hd
    · cases hd
      exact h.unchanged (limits_serviceError _ _) (fun _ he => by cases he) (fun he => by cases he)
    · next hc =>
      split at hd
      · cases hd
        exact h.unchanged (limits_serviceError _ _) (fun _ he => by cases he) (fun he => by cases he)
      · next hfew =>
        split at hd
        · next hcreate =>
          cases hd
          obtain ⟨hstored, hkept⟩ := h.insert (Bool.not_eq_true _ ▸ hc) (Nat.not_le.mp hfew) (create_name hcreate)
          exact ⟨hstored, hkept, fun _ _ he => (by cases he), (encodeResponse_isOk _).mpr (limits_named name (Or.inl rfl)),
            fun he => (by cases he)⟩
        · cases hd
          exact h.unchanged (limits_serviceError _ _) (fun _ he => by cases he) (fun he => by cases he)
  | attach | detach | input | resize | command | snapshot =>
    cases hd
    exact h.unchanged (limits_serviceError _ _) (fun _ he => by cases he) (fun he => by cases he)

/-! ### Runs -/

/-- The responses to requests in turn, and what they leave behind. -/
def dispatchAll : List Request → Sessions → Os → List Response × Sessions × Os
  | [], sessions, os => ([], sessions, os)
  | request :: requests, sessions, os =>
    let (response, sessions, os) := dispatch sessions request os
    let (responses, sessions, os) := dispatchAll requests sessions os
    (response :: responses, sessions, os)

theorem dispatchAll_cons (request : Request) (requests : List Request) (sessions : Sessions) (os : Os) :
    dispatchAll (request :: requests) sessions os =
      ((dispatch sessions request os).1 ::
          (dispatchAll requests (dispatch sessions request os).2.1 (dispatch sessions request os).2.2).1,
        (dispatchAll requests (dispatch sessions request os).2.1 (dispatch sessions request os).2.2).2) := rfl

theorem Stored.dispatchAll (h : Stored responses sessions) (requests : List Request) (os : Os) :
    Stored (responses ++ (NovaMux.dispatchAll requests sessions os).1) (NovaMux.dispatchAll requests sessions os).2.1 := by
  induction requests generalizing responses sessions os with
  | nil =>
    rw [NovaMux.dispatchAll, List.append_nil]
    exact h
  | cons request requests ih =>
    rw [dispatchAll_cons, ← List.singleton_append, ← List.append_assoc]
    exact ih (h.dispatch rfl).1 _

/-- A session is created exactly when its name is free, there is room for it and its shell starts; it is in the store
    then. -/
theorem dispatch_create (sessions : Sessions) (name : SessionName) (os : Os) :
    (dispatch sessions (.create name) os).1 = .created name ↔ sessions[name.asStr]? = none ∧
      sessions.size < maxListedSessions ∧ ∃ hosted, (HostedSession.create name os).1 = .ok hosted ∧
        (dispatch sessions (.create name) os).2.1[name.asStr]? = some hosted := by
  simp only [dispatch]
  split
  · next hc =>
    refine iff_of_false nofun fun h => ?_
    rw [ExtTreeMap.contains_eq_isSome_getElem?, h.1] at hc
    cases hc
  · next hc =>
    have hfree : sessions[name.asStr]? = none :=
      ExtTreeMap.getElem?_eq_none fun hmem => hc (ExtTreeMap.contains_iff_mem.mpr hmem)
    split
    · next hfull => exact iff_of_false nofun fun h => Nat.not_le.mpr h.2.1 hfull
    · next hfew =>
      split
      -- Nothing else stands in the way.
      · next hosted os' hcreate =>
        exact iff_of_true rfl ⟨hfree, Nat.not_le.mp hfew, hosted, by rw [hcreate], by simp⟩
      · next hcreate =>
        refine iff_of_false nofun ?_
        rintro ⟨-, -, hosted, hok, -⟩
        rw [hcreate] at hok
        cases hok

/-- After any run of requests from an empty store, whichever sessions could be created and with whatever
    errors, the store is as described by the responses, and so is what the next request does. A session is created
    whenever it can be. -/
theorem store_runs (os : Os) (requests : List Request) (request : Request) :
    Stored (dispatchAll requests ∅ os).1 (dispatchAll requests ∅ os).2.1 ∧
      Served (dispatchAll requests ∅ os).1 (dispatchAll requests ∅ os).2.1 request
        (dispatch (dispatchAll requests ∅ os).2.1 request (dispatchAll requests ∅ os).2.2).1
        (dispatch (dispatchAll requests ∅ os).2.1 request (dispatchAll requests ∅ os).2.2).2.1 ∧
      ∀ name, (dispatch (dispatchAll requests ∅ os).2.1 (.create name) (dispatchAll requests ∅ os).2.2).1 = .created name ↔
        .created name ∉ (dispatchAll requests ∅ os).1 ∧ (dispatchAll requests ∅ os).2.1.size < maxListedSessions ∧
          ∃ hosted, (HostedSession.create name (dispatchAll requests ∅ os).2.2).1 = .ok hosted ∧
            (dispatch (dispatchAll requests ∅ os).2.1 (.create name)
              (dispatchAll requests ∅ os).2.2).2.1[name.asStr]? = some hosted := by
  have h : Stored (dispatchAll requests ∅ os).1 (dispatchAll requests ∅ os).2.1 := Stored.empty.dispatchAll requests os
  refine ⟨h, (h.dispatch rfl).2, fun name => ?_⟩
  rw [dispatch_create, ← h.created]
  simp

end NovaMux

import NovaMux.Runtime.Commands
import NovaMux.Theorems.Host
import NovaMux.Theorems.Linearization

/-! What the commands `new` and `list` tell of a daemon that any number of processes use at the same time. In the history
    that the daemon has behind it a session is created at most once, and a list has exactly the sessions that have been
    created before. So at most one of the processes that create a session reports it, and a list that is printed later
    has a line for it. -/

namespace NovaMux

open Std Str

/-! ### Answers -/

/-- An answer that neither creates a session nor lists any. -/
def Response.Plain (response : Response) : Prop :=
  (∀ name, response ≠ .created name) ∧ ∀ infos, response ≠ .sessions infos

theorem HostedSession.Streamed.plain {response : Response} (h : HostedSession.Streamed response) : response.Plain := by
  refine ⟨fun name he => ?_, fun infos he => ?_⟩
  · rw [he] at h
    exact h
  · rw [he] at h
    exact h

theorem plain_attached (name : SessionName) : (Response.attached name).Plain :=
  ⟨fun _ he => (by cases he), fun _ he => (by cases he)⟩

theorem plain_detached (name : SessionName) : (Response.detached name).Plain :=
  ⟨fun _ he => (by cases he), fun _ he => (by cases he)⟩

theorem plain_serviceError (code : ErrorCode) (message : String) : (serviceError code message).Plain :=
  HostedSession.Streamed.plain trivial

variable {sessions sessions' : Sessions} {os os' : Os} {request : Request} {response : Response} {name : SessionName}
  {responses : List Response}

/-- Only a request for it creates a session, and only a new one. -/
theorem dispatch_created (h : (dispatch sessions request os).1 = .created name) :
    request = .create name ∧ sessions[name.asStr]? = none := by
  cases request with
  | create other =>
    simp only [dispatch] at h
    split at h
    · cases h
    · next hnone =>
      split at h
      · cases h
      · split at h
        · cases h
          exact ⟨rfl, by simpa using hnone⟩
        · cases h
  | list | attach | detach | ping | input | resize | command | snapshot => cases h

theorem dispatch_sessions_eq {infos : List SessionInfo} (h : (dispatch sessions request os).1 = .sessions infos) :
    request = .list := by
  cases request with
  | create other =>
    simp only [dispatch] at h
    split at h
    · cases h
    · split at h
      · cases h
      · split at h <;> cases h
  | list => rfl
  | attach | detach | ping | input | resize | command | snapshot => cases h

/-- A session is put back under its name. -/
def Returned (sessions sessions' : Sessions) : Prop :=
  sessions' = sessions ∨ ∃ (key : String) (old new : HostedSession), sessions[key]? = some old ∧
    new.session.name = old.session.name ∧ sessions' = sessions.insert key new

theorem Stored.returned (h : Stored responses sessions) (hr : Returned sessions sessions') :
    Stored responses sessions' := by
  rcases hr with rfl | ⟨key, old, new, hold, hname, rfl⟩
  · exact h
  · have hget : ∀ other : String, (sessions.insert key new)[other]? =
        if key = other then some new else sessions[other]? := fun other => by
      rw [ExtTreeMap.getElem?_insert]
      simp
    refine ⟨?_, fun other hosted hother => ?_, fun name => ?_⟩
    · have hthere : sessions.contains key = true := by
        rw [← ExtTreeMap.isSome_getElem?_eq_contains, hold]
        rfl
      rw [ExtTreeMap.size_insert, if_pos hthere]
      exact h.few
    · rw [hget] at hother
      split at hother
      · next he =>
        cases hother
        rw [hname, h.named key old hold, he]
      · exact h.named other hosted hother
    · rw [← h.created, hget]
      split
      · next he => simp [← he, hold]
      · rfl

/-- A plain answer, or none, adds nothing. -/
theorem Stored.plain {answer : Option Response} (h : Stored responses sessions)
    (hp : ∀ response, answer = some response → response.Plain) : Stored (responses ++ answer.toList) sessions := by
  cases answer with
  | none => exact (List.append_nil responses).symm ▸ h
  | some response => exact h.append (hp response rfl).1

theorem names_nodup {infos : List SessionInfo}
    (h : (infos.map fun info => Utf8.bytes info.name.asStr).Pairwise Utf8.ByteOrder) :
    (infos.map SessionInfo.name).Nodup := by
  refine List.pairwise_map.mpr ((List.pairwise_map.mp h).imp fun {a b} hlt he => ?_)
  have hless := (Utf8.compare_eq_lt (SessionName.ascii a.name) (SessionName.ascii b.name)).mpr hlt
  rw [he, compare_self] at hless
  cases hless

namespace Service

variable {u u' : Service} {standing standing' : Standing} {answer : Option Response}

/-- What a call answers, and what it does to the sessions. -/
theorem attend_answer (h : attend sessions os standing request = some (answer, standing', sessions', os')) :
    (answer = some (dispatch sessions request os).1 ∧ sessions' = (dispatch sessions request os).2.1) ∨
      (∀ response, answer = some response → response.Plain) ∧ Returned sessions sessions' := by
  cases standing with
  | fresh =>
    cases request with
    | attach name =>
      refine Or.inr ?_
      simp only [attend] at h
      split at h
      · cases h
        exact ⟨fun response hr => Option.some.inj hr ▸ plain_serviceError _ _, Or.inl rfl⟩
      · next hosted hget =>
        split at h
        · cases h
          exact ⟨fun response hr => Option.some.inj hr ▸ plain_serviceError _ _, Or.inl rfl⟩
        · cases h
          exact ⟨fun response hr => Option.some.inj hr ▸ plain_attached name,
            Or.inr ⟨_, hosted, { hosted with attached := true }, hget, rfl, rfl⟩⟩
    -- Before an attachment everything else is dispatched.
    | create | list | detach | ping | input | resize | command | snapshot =>
      cases h
      exact Or.inl ⟨rfl, rfl⟩
  | attached name =>
    refine Or.inr ?_
    simp only [attend] at h
    split at h
    · cases h
      exact ⟨fun response hr => (by cases hr), Or.inl rfl⟩
    · next hosted hget =>
      split at h
      · cases h
        exact ⟨fun response hr => Option.some.inj hr ▸ plain_detached name, Or.inl rfl⟩
      · obtain ⟨⟨reply, hosted', os₁⟩, hrespond, h⟩ := Option.bind_eq_some_iff.mp h
        -- What an attachment does to its session leaves the name alone.
        have hback : Returned sessions (sessions.insert name.asStr hosted') :=
          Or.inr ⟨_, hosted, hosted', hget, HostedSession.respond_name hrespond, rfl⟩
        rcases reply with error | response
        · cases h
          exact ⟨fun response hr => (by cases hr), hback⟩
        · cases h
          refine ⟨fun response hr => ?_, hback⟩
          cases hr
          exact (HostedSession.respond_streamed hrespond).plain
  | leaving | closed => cases h

/-- What has been answered so far. -/
def answers (calls : List Call) : List Response := calls.filterMap Call.answer

/-- What the answers of a service tell of its sessions. -/
structure Recorded (u : Service) : Prop where
  stored : Stored (answers u.calls) u.sessions
  asked : ∀ call ∈ u.calls, ∀ name, call.answer = some (.created name) → call.request = .create name
  once : u.calls.Pairwise fun call other => ∀ name, call.answer = some (.created name) →
    other.answer ≠ some (.created name)
  listed : ∀ earlier call later infos, u.calls = earlier ++ call :: later → call.answer = some (.sessions infos) →
    (infos.map SessionInfo.name).Nodup ∧ ∀ name, name ∈ infos.map SessionInfo.name ↔ .created name ∈ answers earlier

theorem recorded_start (os : Os) : (start os).Recorded where
  stored := Stored.empty
  asked _ hcall := absurd hcall List.not_mem_nil
  once := .nil
  listed earlier call later infos hcalls := by
    cases earlier <;> cases hcalls

theorem answers_append (calls : List Call) (call : Call) :
    answers (calls ++ [call]) = answers calls ++ call.answer.toList := by
  rw [answers, List.filterMap_append]
  cases hanswer : call.answer <;> simp [answers, hanswer]

/-- The same answers, with sessions put back. -/
theorem Recorded.returned (h : u.Recorded) (hcalls : u'.calls = u.calls) (hr : Returned u.sessions u'.sessions) :
    u'.Recorded := by
  obtain ⟨hstored, hasked, honce, hlisted⟩ := h
  refine ⟨?_, ?_, ?_, ?_⟩
  · exact hcalls ▸ hstored.returned hr
  · exact hcalls ▸ hasked
  · exact hcalls ▸ honce
  · exact hcalls ▸ hlisted

theorem Recorded.answered (h : u.Recorded) {call : Call} (hcalls : u'.calls = u.calls ++ [call])
    (hstored : Stored (answers u.calls ++ call.answer.toList) u'.sessions)
    (hcreated : ∀ name, call.answer = some (.created name) →
      call.request = .create name ∧ u.sessions[name.asStr]? = none)
    (hlisted : ∀ infos, call.answer = some (.sessions infos) → (infos.map SessionInfo.name).Nodup ∧
      ∀ name, name ∈ infos.map SessionInfo.name ↔ .created name ∈ answers u.calls) : u'.Recorded := by
  refine ⟨?_, fun other hother name hname => ?_, ?_, fun earlier other later infos he hinfos => ?_⟩
  · rw [hcalls, answers_append]
    exact hstored
  · rw [hcalls] at hother
    rcases List.mem_append.mp hother with hold | hnew
    · exact h.asked other hold name hname
    · cases List.mem_singleton.mp hnew
      exact (hcreated name hname).1
  · rw [hcalls, List.pairwise_append]
    refine ⟨h.once, List.pairwise_singleton _ _, fun old hold new hnew name hname hagain => ?_⟩
    cases List.mem_singleton.mp hnew
    -- the session is there since the old answer
    have hthere := (h.stored.created name).mpr (List.mem_filterMap.mpr ⟨old, hold, hname⟩)
    rw [(hcreated name hagain).2] at hthere
    cases hthere
  · rw [hcalls] at he
    rcases List.eq_nil_or_concat later with rfl | ⟨rest, last, rfl⟩
    · obtain ⟨rfl, hlast⟩ := List.append_inj' he rfl
      cases hlast
      exact hlisted infos hinfos
    · rw [List.concat_eq_append, ← List.cons_append, ← List.append_assoc] at he
      obtain ⟨hold, -⟩ := List.append_inj' he rfl
      exact h.listed earlier other rest infos hold hinfos

theorem Recorded.call (h : u.Recorded) {c : ConnId} (hs : u.step (.call c request) = some u') : u'.Recorded := by
  obtain ⟨⟨answer, standing, sessions, os⟩, hattend, hs⟩ := Option.bind_eq_some_iff.mp hs
  cases hs
  rcases attend_answer hattend with ⟨rfl, rfl⟩ | ⟨hplain, hreturned⟩
  · obtain ⟨hstored, hserved⟩ := h.stored.dispatch (rfl : dispatch u.sessions request u.os = _)
    refine h.answered rfl hstored (fun name hname => dispatch_created (Option.some.inj hname)) fun infos hinfos => ?_
    obtain ⟨infos', hsame, horder, hnames⟩ := hserved.listed (dispatch_sessions_eq (Option.some.inj hinfos))
    cases hsame.symm.trans (Option.some.inj hinfos)
    exact ⟨names_nodup horder, hnames⟩
  · refine h.answered rfl ((h.stored.plain hplain).returned hreturned) (fun name hname => ?_) fun infos hinfos => ?_
    · exact absurd rfl ((hplain _ hname).1 name)
    · exact absurd rfl ((hplain _ hinfos).2 infos)

theorem Recorded.step (h : u.Recorded) {op : Op} (hs : u.step op = some u') : u'.Recorded := by
  cases op with
  | call c request => exact h.call hs
  | hangup c | forget c =>
    simp only [Service.step] at hs
    split at hs
    all_goals
      cases hs
      try exact h.returned rfl (Or.inl rfl)
  | release c =>
    simp only [Service.step] at hs
    split at hs
    · next name hstanding =>
      cases hs
      refine h.returned rfl ?_
      dsimp only
      split
      · exact Or.inl rfl
      · next hosted hget => exact Or.inr ⟨_, hosted, { hosted with attached := false }, hget, rfl, rfl⟩
    · cases hs
    · cases hs
    · cases hs

/-- Calls are not forgotten. -/
theorem step_calls {op : Op} (hs : u.step op = some u') : u.calls <+: u'.calls := by
  cases op with
  | call c request =>
    obtain ⟨⟨answer, standing, sessions, os⟩, -, hs⟩ := Option.bind_eq_some_iff.mp hs
    cases hs
    exact List.prefix_append _ _
  | hangup c | forget c | release c =>
    simp only [Service.step] at hs
    split at hs
    all_goals
      cases hs
      try exact List.prefix_rfl

end Service

/-! ### Printed lists -/

namespace Commands

/-- A name has only the characters of its bytes. -/
theorem notMem_name (name : SessionName) {c : Char} (hc : c.val.toNat ≤ 127) (h : portableByte c.toUInt8 = false) :
    c ∉ name.asStr.toList := by
  intro hin
  have hbyte : c.toUInt8 ∈ Utf8.bytes name.asStr := by
    rw [Utf8.bytes_eq, List.mem_flatMap]
    refine ⟨c, hin, ?_⟩
    rw [Utf8.encodeChar_of_le hc]
    exact List.mem_singleton.mpr rfl
  have hportable := List.all_eq_true.mp name.portable _ hbyte
  rw [h] at hportable
  cases hportable

theorem isDigit_of_mem_toString {n : UInt16} {c : Char} (h : c ∈ (toString n).toList) : c.isDigit := by
  refine Nat.isDigit_of_mem_toDigits (b := 10) (n := n.toNat) (by decide) (by decide) ?_
  have hsame : toString n = toString n.toNat := rfl
  rw [hsame] at h
  simpa [toString, Nat.repr] using h

/-- The line of a session without its end. -/
def entry (info : SessionInfo) : List Char :=
  info.name.asStr.toList ++ '\t' :: ((toString info.attachedClients).toList ++ " attached".toList)

theorem toList_listLine (info : SessionInfo) : (listLine info).toList = entry info ++ ['\n'] := by
  simp only [listLine, entry, String.toList_append, List.append_assoc, List.cons_append]
  rfl

theorem newline_notMem_entry (info : SessionInfo) : '\n' ∉ entry info := by
  intro hin
  rcases List.mem_append.mp hin with hname | hin
  · exact notMem_name info.name (by decide) (by decide) hname
  · rcases List.mem_cons.mp hin with htab | hin
    · exact absurd htab (by decide)
    · rcases List.mem_append.mp hin with hdigit | htext
      · exact absurd (isDigit_of_mem_toString hdigit) (by decide)
      · exact absurd htext (by decide)

theorem getLast?_entry (info : SessionInfo) : (entry info).getLast? = some 'd' := by
  simp [entry, List.getLast?_append, List.getLast?_cons]

theorem lines_list (infos : List SessionInfo) : lines (String.join (infos.map listLine)).toList = infos.map entry := by
  rw [String.toList_join]
  induction infos with
  | nil => rfl
  | cons info infos ih =>
    have hlast : (entry info).getLast? ≠ some '\r' := by
      rw [getLast?_entry]
      decide
    rw [List.map_cons, List.flatMap_cons, toList_listLine, List.append_assoc, List.singleton_append,
      lines_line (newline_notMem_entry info) hlast, ih, List.map_cons]

theorem splitOnce_entry (info : SessionInfo) : (splitOnce '\t' (entry info)).map Prod.fst = some info.name.asStr.toList := by
  rw [entry, splitOnce_of_notMem (notMem_name info.name (by decide) (by decide))]
  rfl

/-- The names that a printed list has before its tabs, one for each line with a tab. -/
def printedNames (out : String) : List (List Char) :=
  (lines out.toList).filterMap fun line => (splitOnce '\t' line).map Prod.fst

theorem printedNames_list (infos : List SessionInfo) :
    printedNames (runList fun _ => .ok (.sessions infos)).out = infos.map fun info => info.name.asStr.toList := by
  cases infos with
  | nil => decide +kernel
  | cons info infos =>
    have hout : (runList fun _ => .ok (.sessions (info :: infos))).out = String.join ((info :: infos).map listLine) := rfl
    rw [printedNames, hout, lines_list, List.filterMap_map]
    simp only [Function.comp_def, splitOnce_entry]
    exact congrFun List.filterMap_eq_map' _

theorem runNew_eq (name : SessionName) (response : Response) : runNew name.asStr (fun _ => .ok response) =
    match response with
    | .created name => success ("created session " ++ name.asStr ++ "\n")
    | .error _ message => failure ("NovaMux: " ++ message ++ "\n")
    | _ => failure "NovaMux: unexpected daemon response\n" := by
  unfold runNew
  rw [SessionName.parse_eq_ok.mpr rfl]
  cases response <;> rfl

theorem runNew_code (name : SessionName) (response : Response) :
    (∃ other, response = .created other) ∧ (runNew name.asStr fun _ => .ok response).code = 0 ∨
      (∀ other, response ≠ .created other) ∧ (runNew name.asStr fun _ => .ok response).code = 1 := by
  rw [runNew_eq]
  cases response with
  | created other => exact Or.inl ⟨⟨other, rfl⟩, rfl⟩
  | sessions | attached | detached | pong | screen | error => exact Or.inr ⟨fun other he => (by cases he), rfl⟩

theorem runList_code {response : Response} (h : (runList fun _ => .ok response).code = 0) :
    ∃ infos, response = .sessions infos := by
  cases response with
  | sessions infos => exact ⟨infos, rfl⟩
  | created | attached | detached | pong | screen | error =>
    have hone : ¬(1 : UInt8) = 0 := by decide
    exact absurd h hone

end Commands

/-! ### Processes -/

namespace Daemon

open Machine Commands

variable {s t : Daemon} {u v : Service} {as bs : List Action} {c d : ConnId} {call : Call}

/-- A process has sent one request to the daemon and got this response. -/
def Got (as : List Action) (s : Daemon) (c : ConnId) (request : Request) (response : Response) : Prop :=
  sentBy c as = [request] ∧ ∃ conn, s.conns c = some conn ∧ response ∈ conn.outbox

theorem Linearized.got (h : Linearized as s u) (hg : Got as s c request response) :
    ∃ call ∈ u.calls, call.conn = c ∧ call.request = request ∧ call.answer = some response := by
  obtain ⟨hsent, conn, hc, hin⟩ := hg
  obtain ⟨-, -, hasked, unwritten, hanswered, -⟩ := h.served c conn hc
  have hanswer : some response ∈ (u.callsOf c).map Call.answer := by
    rw [hanswered]
    exact List.mem_append_left _ (List.mem_map_of_mem hin)
  obtain ⟨call, hcall, hresponse⟩ := List.mem_map.mp hanswer
  obtain ⟨hmem, hconn⟩ := List.mem_filter.mp hcall
  have hrequest : call.request ∈ sentBy c as := by
    rw [← hasked]
    exact List.mem_append_left _ (List.mem_append_left _ (List.mem_map_of_mem hcall))
  rw [hsent] at hrequest
  exact ⟨call, hmem, of_decide_eq_true hconn, List.mem_singleton.mp hrequest, hresponse⟩

theorem Linearized.sent (h : Linearized as s u) (hcall : call ∈ u.calls) : call.request ∈ sentBy call.conn as := by
  have hof : call ∈ u.callsOf call.conn := List.mem_filter.mpr ⟨hcall, decide_eq_true rfl⟩
  cases hc : s.conns call.conn with
  | none =>
    rw [(h.fresh call.conn hc).2.1] at hof
    cases hof
  | some conn =>
    rw [← (h.served call.conn conn hc).asked]
    exact List.mem_append_left _ (List.mem_append_left _ (List.mem_map_of_mem hof))

/-- The histories behind a run and behind a longer one. -/
theorem run_recorded (hr : run step (start os) as = some s) (ht : run step s bs = some t) : ∃ u v new,
    Linearized as s u ∧ Linearized (as ++ bs) t v ∧ u.Recorded ∧ v.Recorded ∧ v.calls = u.calls ++ new := by
  obtain ⟨u, hu, h⟩ := run_linearized hr
  obtain ⟨v, hv, h'⟩ := run_linearized (run_append_eq_some.mpr ⟨s, hr, ht⟩)
  have record : ∀ {ops : List Service.Op} {w}, run Service.step (.start os) ops = some w → w.Recorded := fun hw =>
    run_invariant (I := Service.Recorded) (fun _ _ _ hw hs => hw.step hs) (Service.recorded_start os) hw
  obtain ⟨u', hu', hrest⟩ := run_append_eq_some.mp (history_append hr ▸ hv)
  cases hu.symm.trans hu'
  obtain ⟨new, hnew⟩ := run_invariant (I := fun w => u.calls <+: w.calls)
    (fun _ _ _ hw hs => hw.trans (Service.step_calls hs)) List.prefix_rfl hrest
  exact ⟨u, v, new, h, h', record hu, record hv, hnew.symm⟩

/-- A session is created for one process only. -/
theorem created_conn (h : v.Recorded) {other : Call} (hcall : call ∈ v.calls) (hother : other ∈ v.calls)
    (hanswer : call.answer = some (.created name)) (hagain : other.answer = some (.created name)) :
    other.conn = call.conn := by
  by_contra hconn
  have hne : call ≠ other := fun he => hconn (he ▸ rfl)
  have hsymm : Std.Symm fun call other : Call =>
      ∀ name, call.answer = some (.created name) → other.answer ≠ some (.created name) :=
    ⟨fun _ _ hab name hb ha => hab name ha hb⟩
  exact h.once.forall hcall hother hne name hanswer hagain

/-- However many processes use a daemon at the same time: when one of them reports that it has created a session, no other
    one does, before or afterwards; and every list that another one prints, if it has connected since, has exactly one line
    for that session, and each of its lines is for a session that a process has asked for. -/
theorem created_once (hr : run step (start os) as = some s) (ht : run step s bs = some t) (name : SessionName)
    {done : Response} (hc : Got as s c (.create name) done)
    (hcode : (runNew name.asStr fun _ => .ok done).code = 0) :
    (runNew name.asStr fun _ => .ok done).out = "created session " ++ name.asStr ++ "\n" ∧
    (∀ d response, d ≠ c → Got (as ++ bs) t d (.create name) response →
      (runNew name.asStr fun _ => .ok response).code = 1) ∧
    ∀ d response, s.conns d = none → Got (as ++ bs) t d .list response → (runList fun _ => .ok response).code = 0 →
      (printedNames (runList fun _ => .ok response).out).count name.asStr.toList = 1 ∧
      ∀ printed ∈ printedNames (runList fun _ => .ok response).out, ∃ (other : SessionName) (e : ConnId),
        other.asStr.toList = printed ∧ .create other ∈ sentBy e (as ++ bs) := by
  obtain ⟨u, v, new, hu, hv, hrecorded, hrecorded', hnew⟩ := run_recorded hr ht
  obtain ⟨call, hcall, hconn, hrequest, hanswer⟩ := hu.got hc
  -- the session that has been created is the one that was asked for
  obtain rfl : done = .created name := by
    rcases runNew_code name done with ⟨⟨other, rfl⟩, -⟩ | ⟨-, hone⟩
    · cases hrequest.symm.trans (hrecorded.asked call hcall other hanswer)
      rfl
    · rw [hone] at hcode
      exact absurd hcode (by decide)
  have hthere : call ∈ v.calls := hnew ▸ List.mem_append_left new hcall
  refine ⟨by rw [runNew_eq]; rfl, fun d response hd hgot => ?_, fun d response hfresh hgot hlisted => ?_⟩
  · obtain ⟨other, hother, hconn', hrequest', hanswer'⟩ := hv.got hgot
    rcases runNew_code name response with ⟨⟨name', rfl⟩, -⟩ | ⟨-, hone⟩
    · cases hrequest'.symm.trans (hrecorded'.asked other hother name' hanswer')
      have hsame := created_conn hrecorded' hthere hother hanswer hanswer'
      exact absurd (hconn'.symm.trans (hsame.trans hconn)) hd
    · exact hone
  · obtain ⟨infos, rfl⟩ := runList_code hlisted
    obtain ⟨list, hlist, hconn', -, hanswer'⟩ := hv.got hgot
    have hlater : list ∈ new := by
      rw [hnew] at hlist
      refine (List.mem_append.mp hlist).resolve_left fun hold => ?_
      have hof : list ∈ u.callsOf d := List.mem_filter.mpr ⟨hold, decide_eq_true hconn'⟩
      rw [(hu.fresh d hfresh).2.1] at hof
      cases hof
    obtain ⟨between, later, rfl⟩ := List.append_of_mem hlater
    obtain ⟨hnodup, hnames⟩ := hrecorded'.listed (u.calls ++ between) list later infos
      (by rw [hnew, List.append_assoc]) hanswer'
    have hin : name ∈ infos.map SessionInfo.name := (hnames name).mpr
      (List.mem_filterMap.mpr ⟨call, List.mem_append_left between hcall, hanswer⟩)
    have hprinted : printedNames (runList fun _ => .ok (.sessions infos)).out =
        (infos.map SessionInfo.name).map fun other => other.asStr.toList := by
      rw [printedNames_list, List.map_map]
      rfl
    have hinjective : Function.Injective fun other : SessionName => other.asStr.toList :=
      fun a b he => SessionName.eq_of_asStr (String.toList_inj.mp he)
    rw [hprinted]
    refine ⟨List.count_eq_one_of_mem (hnodup.map hinjective) (List.mem_map_of_mem hin), fun printed hp => ?_⟩
    obtain ⟨other, hother, rfl⟩ := List.mem_map.mp hp
    obtain ⟨creation, hcreation, hcreated⟩ := List.mem_filterMap.mp ((hnames other).mp hother)
    have hmem : creation ∈ v.calls := by
      rw [hnew, ← List.append_assoc]
      exact List.mem_append_left _ hcreation
    exact ⟨other, creation.conn, rfl, hrecorded'.asked creation hmem other hcreated ▸ hv.sent hmem⟩

/-- A process that asks for one thing. -/
def asking (c : ConnId) (request : Request) : List Action :=
  [.accept c, .send c request, .read c true, .enter c, .write c true]

/-- Two processes that create a session of one name, and one that lists the sessions. -/
theorem created_once_list : ∃ (s t : Daemon) (refused : Response) (infos : List SessionInfo),
    run step (start ⟨0, [], []⟩) (asking 0 (.create .work)) = some s ∧
      run step s (asking 1 (.create .work) ++ asking 2 .list) = some t ∧
      Got (asking 0 (.create .work)) s 0 (.create .work) (.created .work) ∧
      Got (asking 0 (.create .work) ++ (asking 1 (.create .work) ++ asking 2 .list)) t 1 (.create .work) refused ∧
      (runNew "work" fun _ => .ok refused).code = 1 ∧ s.conns 2 = none ∧
      Got (asking 0 (.create .work) ++ (asking 1 (.create .work) ++ asking 2 .list)) t 2 .list (.sessions infos) ∧
      (runList fun _ => .ok (.sessions infos)).code = 0 ∧
      (printedNames (runList fun _ => .ok (.sessions infos)).out).count "work".toList = 1 := by
  obtain ⟨s, hs⟩ : ∃ s, run step (start ⟨0, [], []⟩) (asking 0 (.create .work)) = some s := ⟨_, rfl⟩
  obtain ⟨t, ht⟩ : ∃ t, run step s (asking 1 (.create .work) ++ asking 2 .list) = some t := by
    cases hs
    exact ⟨_, rfl⟩
  have hcreated : Got (asking 0 (.create .work)) s 0 (.create .work) (.created .work) := by
    refine ⟨rfl, ?_⟩
    cases hs
    exact ⟨_, rfl, List.mem_singleton.mpr rfl⟩
  obtain ⟨infos, conn, hconn, hout⟩ : ∃ infos conn, t.conns 2 = some conn ∧ conn.outbox = [.sessions infos] := by
    cases hs
    cases ht
    exact ⟨_, _, rfl, rfl⟩
  obtain ⟨refused, conn', hconn', hout'⟩ : ∃ refused conn, t.conns 1 = some conn ∧ conn.outbox = [refused] := by
    cases hs
    cases ht
    exact ⟨_, _, rfl, rfl⟩
  have hlisted : Got (asking 0 (.create .work) ++ (asking 1 (.create .work) ++ asking 2 .list)) t 2 .list
      (.sessions infos) := ⟨rfl, conn, hconn, hout ▸ List.mem_singleton.mpr rfl⟩
  have hrefused : Got (asking 0 (.create .work) ++ (asking 1 (.create .work) ++ asking 2 .list)) t 1 (.create .work)
      refused := ⟨rfl, conn', hconn', hout' ▸ List.mem_singleton.mpr rfl⟩
  obtain ⟨-, hother, hlist⟩ := created_once hs ht .work hcreated (by decide)
  have hfresh : s.conns 2 = none := by
    cases hs
    rfl
  have hcode : (runList fun _ => .ok (.sessions infos)).code = 0 := by
    cases infos <;> rfl
  exact ⟨s, t, refused, infos, hs, ht, hcreated, hrefused, hother 1 refused (by decide) hrefused, hfresh, hlisted, hcode,
    (hlist 2 _ hfresh hlisted hcode).1⟩

end Daemon

end NovaMux

import NovaMux.Runtime.Link
import NovaMux.Theorems.Streams
import NovaMux.Theorems.DaemonSteps

/-! Lock-step of requests and responses. Each direction of a connection carries the messages that were written
    and not read, and the thread answers each request before it reads the next one; so what has been read,
    applied, answered, written and received are prefixes of one another, although nothing in a response says
    which request it answers. -/

namespace NovaMux

open ByteStream Machine

/-! ### Framing -/

/-- No frame begins another one: both are what is read from the same bytes. -/
theorem frame_prefix_free {kind kind' : UInt8} {payload payload' bytes bytes' after after' : List UInt8}
    (h : frame kind payload = .ok bytes) (h' : frame kind' payload' = .ok bytes')
    (he : bytes ++ after = bytes' ++ after') : bytes = bytes' := by
  have hcons : ∃ b bs, bytes ++ after = b :: bs := by
    obtain ⟨-, rfl⟩ := frame_eq_ok.mp h
    exact ⟨_, _, rfl⟩
  have hflows : Flows [.data (bytes ++ after)] := by
    intro event hevent
    obtain ⟨b, bs, hb⟩ := hcons
    exact .inr ⟨b, bs, by rw [List.mem_singleton.mp hevent, hb]⟩
  obtain ⟨rest, hread, -⟩ := readFrame_flows hflows h (List.append_nil _)
  obtain ⟨rest', hread', -⟩ := readFrame_flows hflows h' ((List.append_nil _).trans he)
  cases hread.symm.trans hread'
  rfl

theorem frame_ne_nil {kind : UInt8} {payload bytes : List UInt8} (h : frame kind payload = .ok bytes) : bytes ≠ [] := by
  obtain ⟨-, rfl⟩ := frame_eq_ok.mp h
  exact List.cons_ne_nil _ _

theorem decoded_done {α : Type} {decode : List UInt8 → Except DecodeError α} {events rest : List Event} {message : α}
    (h : (readFrame events).bind (decoded decode) = .done message rest) :
    ∃ bytes, decode bytes = .ok message ∧ content events = bytes ++ content rest := by
  obtain ⟨bytes, between, hread, h⟩ := Outcome.bind_eq_done.mp h
  rw [decoded] at h
  split at h
  · next hd =>
    cases h
    exact ⟨bytes, hd, (readFrame_done hread).1⟩
  · cases h

theorem framing_request : Framing encodeRequest readRequest where
  get_done h := by
    obtain ⟨bytes, hd, hcontent⟩ := decoded_done h
    exact ⟨bytes, decodeRequest_eq_ok.mp hd, hcontent⟩
  prefix_free h h' he := by
    obtain rfl := frame_prefix_free (encodeRequest_eq_ok.mp h).2 (encodeRequest_eq_ok.mp h').2 he
    exact Except.ok.inj ((decodeRequest_eq_ok.mpr h).symm.trans (decodeRequest_eq_ok.mpr h'))
  nonempty h := frame_ne_nil (encodeRequest_eq_ok.mp h).2

theorem framing_response : Framing encodeResponse readResponse where
  get_done h := by
    obtain ⟨bytes, hd, hcontent⟩ := decoded_done h
    exact ⟨bytes, decodeResponse_eq_ok.mp hd, hcontent⟩
  prefix_free h h' he := by
    obtain rfl := frame_prefix_free (encodeResponse_eq_ok.mp h).2 (encodeResponse_eq_ok.mp h').2 he
    exact Except.ok.inj ((decodeResponse_eq_ok.mpr h).symm.trans (decodeResponse_eq_ok.mpr h'))
  nonempty h := frame_ne_nil (encodeResponse_eq_ok.mp h).2

namespace Daemon

variable {s t : Daemon}

/-- An action of one connection leaves the others alone. -/
theorem step_conns {a : Action} {c : ConnId} (h : s.step a = some t) (hc : a.conn ≠ c) : t.conns c = s.conns c := by
  have hne : ∀ {conn : Conn} {u : Daemon}, (u.setConn a.conn conn).conns c = u.conns c := fun {conn u} => if_neg hc.symm
  cases a with
  | accept d =>
    obtain ⟨-, rfl⟩ := accept_inv h
    exact hne
  | send d request =>
    obtain ⟨conn, -, rfl⟩ := send_inv h
    exact hne
  | read d ok =>
    cases ok with
    | true =>
      obtain ⟨conn, request, inbox, phase, -, -, -, rfl⟩ := read_inv h
      exact hne
    | false =>
      obtain ⟨conn, phase, -, -, rfl⟩ := failedRead_inv h
      exact hne
  | enter d =>
    obtain ⟨conn, phase, sessions, os, -, -, -, rfl⟩ := enter_inv h
    exact hne
  | write d ok =>
    cases ok with
    | true =>
      obtain ⟨conn, response, bytes, -, -, -, rfl⟩ := write_inv h
      exact hne
    | false =>
      obtain ⟨conn, response, -, -, rfl⟩ := failedWrite_inv h
      exact hne

end Daemon

namespace Link

/-! ### The turns of the thread -/

/-- Where the thread is between reading a request and writing the response to it. -/
inductive Turn (log : Log) : Phase → Bool → Prop where
  | ready {phase : Phase} (next : (∃ name, phase = .looping name) ∨ phase = .reading) (applied : log.applied = log.read)
    (answered : log.answers.map (·.1) = log.read) (written : log.written = log.answers.map (·.2)) :
    Turn log phase false
  | asked {phase : Phase} {request : Request} (asks : phase.request = some request)
    (applied : log.read = log.applied ++ [request]) (answered : log.answers.map (·.1) = log.applied)
    (written : log.written = log.answers.map (·.2)) : Turn log phase false
  | answered {phase : Phase} {response : Response} (replies : phase.reply = some response)
    (applied : log.applied = log.read) (answered : log.answers.map (·.1) = log.read)
    (written : log.answers.map (·.2) = log.written ++ [response]) : Turn log phase false
  | writing {phase : Phase} {response : Response} (replies : phase.reply = some response)
    (applied : log.applied = log.read) (answered : log.answers.map (·.1) = log.read)
    (written : log.written = log.answers.map (·.2)) : Turn log phase true
  | closed {phase : Phase} (ends : (∃ name, phase = .leaving name) ∨ phase = .done) (applied : log.applied = log.read)
    (answered : log.answers.map (·.1) <+: log.read) (written : log.written <+: log.answers.map (·.2)) :
    Turn log phase false

variable {log : Log} {phase : Phase} {writing : Bool}

theorem Turn.applied_prefix (h : Turn log phase writing) : log.applied <+: log.read := by
  cases h with
  | asked _ applied => exact ⟨_, applied.symm⟩
  | ready _ applied | answered _ applied | writing _ applied | closed _ applied => exact applied ▸ List.prefix_refl _

theorem Turn.answered_prefix (h : Turn log phase writing) : log.answers.map (·.1) <+: log.read := by
  cases h with
  | asked _ applied answered => exact answered ▸ ⟨_, applied.symm⟩
  | ready _ _ answered | answered _ _ answered | writing _ _ answered => exact answered ▸ List.prefix_refl _
  | closed _ _ answered => exact answered

theorem Turn.written_prefix (h : Turn log phase writing) : log.written <+: log.answers.map (·.2) := by
  cases h with
  | answered _ _ _ written => exact ⟨_, written.symm⟩
  | ready _ _ _ written | asked _ _ _ written | writing _ _ _ written => exact written ▸ List.prefix_refl _
  | closed _ _ _ written => exact written

/-- The turns are the thread's alone. -/
theorem Turn.client (h : Turn log phase writing) (sent : List Request) (received : List Response) :
    Turn { log with sent, received } phase writing := by
  cases h with
  | ready next applied answered written => exact .ready next applied answered written
  | asked asks applied answered written => exact .asked asks applied answered written
  | answered replies applied answered written => exact .answered replies applied answered written
  | writing replies applied answered written => exact .writing replies applied answered written
  | closed ends applied answered written => exact .closed ends applied answered written

theorem Turn.read {request : Request} {phase' : Phase} (h : Turn log phase writing)
    (hr : phase.afterRead request = some phase') : Turn { log with read := log.read ++ [request] } phase' writing := by
  have hasks : ((∃ name, phase = .looping name) ∨ phase = .reading) ∧ phase'.request = some request := by
    cases phase with
    | reading => cases request <;> cases hr <;> exact ⟨.inr rfl, rfl⟩
    | looping name =>
      cases hr
      exact ⟨.inl ⟨name, rfl⟩, rfl⟩
    | _ => cases hr
  obtain ⟨hready, hasks⟩ := hasks
  cases h with
  | ready _ applied answered written =>
    exact .asked hasks (congrArg (· ++ [request]) applied.symm) (answered.trans applied.symm) written
  | asked asks => rcases hready with ⟨name, rfl⟩ | rfl <;> cases asks
  | answered replies => rcases hready with ⟨name, rfl⟩ | rfl <;> cases replies
  | writing replies => rcases hready with ⟨name, rfl⟩ | rfl <;> cases replies
  | closed ends => rcases hready with ⟨name, rfl⟩ | rfl <;> rcases ends with ⟨_, he⟩ | he <;> cases he

theorem Turn.failedRead {phase' : Phase} (h : Turn log phase writing) (hr : phase.afterFailedRead = some phase') :
    Turn log phase' writing := by
  have hends : ((∃ name, phase = .looping name) ∨ phase = .reading) ∧
      ((∃ name, phase' = .leaving name) ∨ phase' = .done) := by
    cases phase with
    | reading =>
      cases hr
      exact ⟨.inr rfl, .inr rfl⟩
    | looping name =>
      cases hr
      exact ⟨.inl ⟨name, rfl⟩, .inl ⟨name, rfl⟩⟩
    | _ => cases hr
  obtain ⟨hready, hends⟩ := hends
  cases h with
  | ready _ applied answered written =>
    exact .closed hends applied (answered ▸ List.prefix_refl _) (written ▸ List.prefix_refl _)
  | asked asks => rcases hready with ⟨name, rfl⟩ | rfl <;> cases asks
  | answered replies => rcases hready with ⟨name, rfl⟩ | rfl <;> cases replies
  | writing replies => rcases hready with ⟨name, rfl⟩ | rfl <;> cases replies
  | closed ends => rcases hready with ⟨name, rfl⟩ | rfl <;> rcases ends with ⟨_, he⟩ | he <;> cases he

theorem reply_of_request {request : Request} {response : Response} (h : phase.request = some request) :
    phase.reply ≠ some response := by
  intro hr
  cases phase with
  | dispatching | attaching | serving => cases hr
  | _ => cases h

/-- With the sessions locked, the thread answers the request that it has read, or gives up. -/
theorem entered_request {s : Daemon} {phase' : Phase} {sessions : Sessions} {os : Os}
    (h : s.critical phase = some (phase', sessions, os)) :
    (∃ request, phase.request = some request ∧
      ((∃ response, phase'.reply = some response) ∨ ∃ name, phase' = .leaving name)) ∨
    (∃ name, phase = .leaving name) ∧ phase' = .done := by
  cases Daemon.critical_inv h with
  | dispatched request => exact .inl ⟨request, rfl, .inl ⟨_, rfl⟩⟩
  | unknown | refused | attached => exact .inl ⟨_, rfl, .inl ⟨_, rfl⟩⟩
  | disappeared request => exact .inl ⟨request, rfl, .inr ⟨_, rfl⟩⟩
  | detached => exact .inl ⟨_, rfl, .inl ⟨_, rfl⟩⟩
  | answered hs hd hr hp =>
    rcases hp with ⟨response, -, rfl⟩ | ⟨error, -, rfl⟩
    · exact .inl ⟨_, rfl, .inl ⟨response, rfl⟩⟩
    · exact .inl ⟨_, rfl, .inr ⟨_, rfl⟩⟩
  | gone | released => exact .inr ⟨⟨_, rfl⟩, rfl⟩

section
variable (log : Log) (before after : Phase)

@[simp] theorem sent_enter : (log.enter before after).sent = log.sent := by
  rw [Log.enter]
  split <;> rfl

@[simp] theorem read_enter : (log.enter before after).read = log.read := by
  rw [Log.enter]
  split <;> rfl

@[simp] theorem written_enter : (log.enter before after).written = log.written := by
  rw [Log.enter]
  split <;> rfl

@[simp] theorem received_enter : (log.enter before after).received = log.received := by
  rw [Log.enter]
  split <;> rfl

end

theorem Turn.enter {s : Daemon} {phase' : Phase} {sessions : Sessions} {os : Os} (h : Turn log phase writing)
    (hc : s.critical phase = some (phase', sessions, os)) : Turn (log.enter phase phase') phase' writing := by
  rcases entered_request hc with ⟨request, hasks, hnext⟩ | ⟨⟨name, rfl⟩, rfl⟩
  · have hlog : log.enter phase phase' = { log with
        applied := log.applied ++ [request]
        answers := log.answers ++ (phase'.reply.map (request, ·)).toList } := by
      rw [Log.enter, hasks]
    rw [hlog]
    cases h with
    | asked asks applied answered written =>
      obtain rfl := Option.some.inj (hasks.symm.trans asks)
      rcases hnext with ⟨response, hreply⟩ | ⟨name, rfl⟩
      · refine .answered hreply applied.symm ?_ ?_
        · simp [hreply, answered, applied]
        · simp [hreply, written]
      · refine .closed (.inl ⟨name, rfl⟩) applied.symm ?_ ?_
        · exact ⟨[request], by simp [Phase.reply, answered, applied]⟩
        · simp [Phase.reply, written]
    | ready next => rcases next with ⟨name, rfl⟩ | rfl <;> cases hasks
    | answered replies => exact absurd replies (reply_of_request hasks)
    | writing replies => exact absurd replies (reply_of_request hasks)
    | closed ends => rcases ends with ⟨_, rfl⟩ | rfl <;> cases hasks
  · cases h with
    | closed _ applied answered written => exact .closed (.inr rfl) applied answered written
    | ready next => rcases next with ⟨name, he⟩ | he <;> cases he
    | asked asks => cases asks
    | answered replies => cases replies
    | writing replies => cases replies

theorem Turn.respond {response : Response} (h : Turn log phase false) (hr : phase.reply = some response) :
    Turn { log with written := log.written ++ [response] } phase true := by
  cases h with
  | answered replies applied answered written =>
    obtain rfl := Option.some.inj (replies.symm.trans hr)
    exact .writing hr applied answered written.symm
  | ready next => rcases next with ⟨name, rfl⟩ | rfl <;> cases hr
  | asked asks => exact absurd hr (reply_of_request asks)
  | closed ends => rcases ends with ⟨_, rfl⟩ | rfl <;> cases hr

theorem Turn.flush (h : Turn log phase true) : Turn log phase.afterWrite false := by
  cases h with
  | writing replies applied answered written =>
    have hclosed : ∀ {phase' : Phase}, ((∃ name, phase' = .leaving name) ∨ phase' = .done) → Turn log phase' false :=
      fun ends => .closed ends applied (answered ▸ List.prefix_refl _) (written ▸ List.prefix_refl _)
    cases phase with
    | replying => exact hclosed (.inr rfl)
    | detaching name => exact hclosed (.inl ⟨name, rfl⟩)
    | greeting name | responding name => exact .ready (.inl ⟨name, rfl⟩) applied answered written
    | _ => cases replies

theorem Turn.failedWrite {response : Response} (h : Turn log phase writing) (hr : phase.reply = some response) :
    Turn log phase.afterFailedWrite false := by
  have hends : (∃ name, phase.afterFailedWrite = .leaving name) ∨ phase.afterFailedWrite = .done := by
    cases phase <;> first | exact .inl ⟨_, rfl⟩ | exact .inr rfl
  cases h with
  | answered _ applied answered written =>
    exact .closed hends applied (answered ▸ List.prefix_refl _) ⟨_, written.symm⟩
  | writing _ applied answered written =>
    exact .closed hends applied (answered ▸ List.prefix_refl _) (written ▸ List.prefix_refl _)
  | ready next => rcases next with ⟨name, rfl⟩ | rfl <;> cases hr
  | asked asks => exact absurd hr (reply_of_request asks)
  | closed ends => rcases ends with ⟨_, rfl⟩ | rfl <;> cases hr

/-! ### Lock-step -/

/-- What holds between any two steps of a connection. -/
structure Lockstep (c : ConnId) (s : Link) : Prop where
  turn : ∃ conn, s.daemon.conns c = some conn ∧ conn.inbox = [] ∧ Turn s.log conn.phase s.writing
  upward : ∃ pending, s.log.sent = s.log.read ++ pending ∧ s.up.Carries encodeRequest pending
  downward : ∃ pending, s.log.written = s.log.received ++ pending ∧ s.down.Carries encodeResponse pending

variable {s t : Link} {c : ConnId} {name : SessionName}

theorem lockstep_start (daemon : Daemon) (c : ConnId) : Lockstep c (start daemon c) where
  turn := ⟨_, if_pos rfl, rfl, .ready (.inr rfl) rfl rfl rfl⟩
  upward := ⟨[], rfl, Pipe.carries_empty⟩
  downward := ⟨[], rfl, Pipe.carries_empty⟩

/-- The client can stop or go on whenever it likes. -/
theorem Lockstep.client (h : Lockstep c s) (client : ClientPhase) : Lockstep c { s with client } :=
  ⟨h.turn, h.upward, h.downward⟩

theorem Lockstep.upPipe {up : Pipe} (h : Lockstep c s) (hbytes : up.bytes = s.up.bytes) : Lockstep c { s with up } := by
  obtain ⟨pending, hsent, hcarries⟩ := h.upward
  exact ⟨h.turn, ⟨pending, hsent, hcarries.of_bytes hbytes⟩, h.downward⟩

theorem Lockstep.downPipe {down : Pipe} (h : Lockstep c s) (hbytes : down.bytes = s.down.bytes) :
    Lockstep c { s with down } := by
  obtain ⟨pending, hwritten, hcarries⟩ := h.downward
  exact ⟨h.turn, h.upward, ⟨pending, hwritten, hcarries.of_bytes hbytes⟩⟩

theorem Lockstep.writeRequest (h : Lockstep c s) (request : Request) : Lockstep c (s.writeRequest request) := by
  rw [Link.writeRequest]
  split
  · next frame hframe =>
    obtain ⟨conn, hconn, hinbox, hturn⟩ := h.turn
    obtain ⟨pending, hsent, hcarries⟩ := h.upward
    exact {
      turn := ⟨conn, hconn, hinbox, hturn.client _ _⟩
      upward := ⟨pending ++ [request], by simp [hsent], hcarries.write hframe⟩
      downward := h.downward }
  · exact h.client _

theorem Lockstep.receive {response : Response} {rest : List Event} (h : Lockstep c s)
    (hr : readResponse s.down.arrived = .done response rest) : Lockstep c (s.receive name response rest) := by
  obtain ⟨conn, hconn, hinbox, hturn⟩ := h.turn
  obtain ⟨pending, hwritten, hcarries⟩ := h.downward
  obtain ⟨pending', rfl, hcarries'⟩ := hcarries.read framing_response hr
  exact {
    turn := ⟨conn, hconn, hinbox, hturn.client _ _⟩
    upward := h.upward
    downward := ⟨pending', by simp [Link.receive, hwritten], hcarries'⟩ }

/-- A step of the thread that writes or reads nothing. -/
theorem Lockstep.thread {daemon : Daemon} {writing : Bool} (conn : Conn) (h : Lockstep c s)
    (hconn : daemon.conns c = some conn) (hinbox : conn.inbox = []) (hturn : Turn s.log conn.phase writing) :
    Lockstep c { s with daemon, writing } :=
  ⟨⟨conn, hconn, hinbox, hturn⟩, h.upward, h.downward⟩

theorem Lockstep.failedRead {daemon : Daemon} (h : Lockstep c s) (hs : s.daemon.step (.read c false) = some daemon) :
    Lockstep c { s with daemon } := by
  obtain ⟨conn, hconn, hinbox, hturn⟩ := h.turn
  obtain ⟨conn', phase, hconn', hp, rfl⟩ := Daemon.failedRead_inv hs
  obtain rfl := Option.some.inj (hconn.symm.trans hconn')
  exact h.thread { conn with phase } (if_pos rfl) hinbox (hturn.failedRead hp)

theorem Lockstep.failedWrite {daemon : Daemon} (h : Lockstep c s) (hs : s.daemon.step (.write c false) = some daemon) :
    Lockstep c { s with daemon, writing := false } := by
  obtain ⟨conn, hconn, hinbox, hturn⟩ := h.turn
  obtain ⟨conn', response, hconn', hr, rfl⟩ := Daemon.failedWrite_inv hs
  obtain rfl := Option.some.inj (hconn.symm.trans hconn')
  exact h.thread { conn with phase := conn.phase.afterFailedWrite } (if_pos rfl) hinbox (hturn.failedWrite hr)

theorem Lockstep.serverRead {request : Request} {rest : List Event} {daemon : Daemon} (h : Lockstep c s)
    (hr : readRequest s.up.arrived = .done request rest)
    (hs : run Daemon.step s.daemon [.send c request, .read c true] = some daemon) :
    Lockstep c { s with
      daemon
      up := { s.up with arrived := rest }
      log := { s.log with read := s.log.read ++ [request] } } := by
  obtain ⟨conn, hconn, hinbox, hturn⟩ := h.turn
  obtain ⟨pending, hsent, hcarries⟩ := h.upward
  obtain ⟨between, hsend, hread⟩ := run_cons_eq_some.mp hs
  rw [run_singleton] at hread
  obtain ⟨conn₁, hconn₁, rfl⟩ := Daemon.send_inv hsend
  obtain rfl := Option.some.inj (hconn.symm.trans hconn₁)
  obtain ⟨conn₂, request', inbox, phase, hconn₂, hinbox₂, hphase, rfl⟩ := Daemon.read_inv hread
  obtain rfl := Option.some.inj ((if_pos rfl : _ = some _).symm.trans hconn₂)
  rw [hinbox, List.nil_append] at hinbox₂
  obtain ⟨rfl, rfl⟩ := List.cons.inj hinbox₂
  obtain ⟨pending', rfl, hcarries'⟩ := hcarries.read framing_request hr
  exact {
    turn := ⟨{ conn with phase, inbox := [] }, if_pos rfl, rfl, hturn.read hphase⟩
    upward := ⟨pending', by simp [hsent], hcarries'⟩
    downward := h.downward }

theorem Lockstep.serverEnter {before after : Conn} {daemon : Daemon} (h : Lockstep c s)
    (hbefore : s.daemon.conns c = some before) (hs : s.daemon.step (.enter c) = some daemon)
    (hafter : daemon.conns c = some after) :
    Lockstep c { s with daemon, log := s.log.enter before.phase after.phase } := by
  obtain ⟨conn, hconn, hinbox, hturn⟩ := h.turn
  obtain rfl := Option.some.inj (hbefore.symm.trans hconn)
  obtain ⟨conn', phase, sessions, os, hconn', -, hcritical, rfl⟩ := Daemon.enter_inv hs
  obtain rfl := Option.some.inj (hbefore.symm.trans hconn')
  obtain rfl := Option.some.inj ((if_pos rfl : _ = some _).symm.trans hafter)
  obtain ⟨pending, hsent, hcarries⟩ := h.upward
  obtain ⟨pending', hwritten, hcarries'⟩ := h.downward
  exact {
    turn := ⟨_, if_pos rfl, hinbox, hturn.enter hcritical⟩
    upward := ⟨pending, by simpa using hsent, hcarries⟩
    downward := ⟨pending', by simpa using hwritten, hcarries'⟩ }

theorem Lockstep.respond {conn : Conn} {response : Response} {frame : List UInt8} (h : Lockstep c s)
    (hconn : s.daemon.conns c = some conn) (hr : conn.phase.reply = some response) (hw : s.writing = false)
    (hframe : encodeResponse response = .ok frame) :
    Lockstep c { s with
      writing := true
      down := s.down.write frame
      log := { s.log with written := s.log.written ++ [response] } } := by
  obtain ⟨conn', hconn', hinbox, hturn⟩ := h.turn
  obtain rfl := Option.some.inj (hconn.symm.trans hconn')
  obtain ⟨pending, hwritten, hcarries⟩ := h.downward
  rw [hw] at hturn
  exact {
    turn := ⟨conn, hconn, hinbox, hturn.respond hr⟩
    upward := h.upward
    downward := ⟨pending ++ [response], by simp [hwritten], hcarries.write hframe⟩ }

theorem getElem?_of_prefix {α : Type} {a b : List α} (h : a <+: b) {i : Nat} {x : α} (hi : a[i]? = some x) :
    b[i]? = some x := by
  obtain ⟨rest, rfl⟩ := h
  rw [List.getElem?_append_left (List.getElem?_eq_some_iff.mp hi).1, hi]

theorem Lockstep.flush {daemon : Daemon} (h : Lockstep c s) (hw : s.writing = true)
    (hs : s.daemon.step (.write c true) = some daemon) : Lockstep c { s with daemon, writing := false } := by
  obtain ⟨conn, hconn, hinbox, hturn⟩ := h.turn
  obtain ⟨conn', response, bytes, hconn', -, -, rfl⟩ := Daemon.write_inv hs
  obtain rfl := Option.some.inj (hconn.symm.trans hconn')
  rw [hw] at hturn
  exact h.thread _ (if_pos rfl) hinbox hturn.flush

theorem step_lockstep {a : Action} (h : Lockstep c s) (hs : step c name s a = some t) : Lockstep c t := by
  cases a with
  | connect =>
    obtain ⟨-, hs⟩ := Option.ite_none_right_eq_some.mp hs
    cases hs
    -- A request is only sent between two exchanges, so nothing is on its way.
    exact h.writeRequest _
  | exchange request =>
    obtain ⟨-, hs⟩ := Option.ite_none_right_eq_some.mp hs
    cases hs
    exact h.writeRequest _
  | clientPush n =>
    obtain ⟨-, hs⟩ := Option.ite_none_right_eq_some.mp hs
    cases hs
    exact h.upPipe (Pipe.bytes_push _ _)
  | clientFlush =>
    obtain ⟨-, hs⟩ := Option.ite_none_right_eq_some.mp hs
    cases hs
    exact h.client _
  | clientFail =>
    obtain ⟨-, hs⟩ := Option.ite_none_right_eq_some.mp hs
    cases hs
    exact h.client _
  | clientRead =>
    obtain ⟨-, hs⟩ := Option.ite_none_right_eq_some.mp hs
    split at hs
    · next response rest hr =>
      cases hs
      exact h.receive hr
    · cases hs
      exact h.client _
    · cases hs
  | serverRead =>
    simp only [step] at hs
    split at hs
    · next request rest hr =>
      obtain ⟨daemon, hd, hs⟩ := Option.bind_eq_some_iff.mp hs
      cases hs
      exact h.serverRead hr hd
    · obtain ⟨daemon, hd, hs⟩ := Option.bind_eq_some_iff.mp hs
      cases hs
      exact h.failedRead hd
    · cases hs
  | serverEnter =>
    obtain ⟨before, hbefore, hs⟩ := Option.bind_eq_some_iff.mp hs
    obtain ⟨daemon, hd, hs⟩ := Option.bind_eq_some_iff.mp hs
    obtain ⟨after, hafter, hs⟩ := Option.bind_eq_some_iff.mp hs
    cases hs
    exact h.serverEnter hbefore hd hafter
  | respond =>
    obtain ⟨conn, hconn, hs⟩ := Option.bind_eq_some_iff.mp hs
    obtain ⟨response, hr, hs⟩ := Option.bind_eq_some_iff.mp hs
    obtain ⟨hw, hs⟩ := Option.ite_none_left_eq_some.mp hs
    have hw : s.writing = false := Bool.eq_false_iff.mpr hw
    split at hs
    · next frame hframe =>
      cases hs
      exact h.respond hconn hr hw hframe
    · obtain ⟨daemon, hd, hs⟩ := Option.bind_eq_some_iff.mp hs
      cases hs
      -- A response that cannot be encoded is one whose write fails.
      have hl := h.failedWrite hd
      rwa [← hw] at hl
  | serverPush n =>
    obtain ⟨-, hs⟩ := Option.ite_none_right_eq_some.mp hs
    cases hs
    exact h.downPipe (Pipe.bytes_push _ _)
  | serverFlush =>
    obtain ⟨hw, hs⟩ := Option.ite_none_right_eq_some.mp hs
    obtain ⟨daemon, hd, hs⟩ := Option.bind_eq_some_iff.mp hs
    cases hs
    exact h.flush hw.1 hd
  | serverFail =>
    obtain ⟨-, hs⟩ := Option.ite_none_right_eq_some.mp hs
    obtain ⟨daemon, hd, hs⟩ := Option.bind_eq_some_iff.mp hs
    cases hs
    exact h.failedWrite hd
  | upward arrival =>
    cases hs
    exact h.upPipe (Pipe.bytes_arrive _ _)
  | downward arrival =>
    cases hs
    exact h.downPipe (Pipe.bytes_arrive _ _)
  | other action =>
    obtain ⟨hne, hs⟩ := Option.ite_none_left_eq_some.mp hs
    obtain ⟨daemon, hd, hs⟩ := Option.bind_eq_some_iff.mp hs
    cases hs
    -- The step of another connection leaves this one as it is.
    obtain ⟨conn, hconn, hinbox, hturn⟩ := h.turn
    exact h.thread conn ((Daemon.step_conns hd hne).trans hconn) hinbox hturn

theorem run_lockstep {daemon : Daemon} {as : List Action} (hr : run (step c name) (start daemon c) as = some t) :
    Lockstep c t :=
  run_invariant (fun _ _ _ h hs => step_lockstep h hs) (lockstep_start daemon c) hr

/-- On every run of a connection, the requests are applied in the order in which they are sent and each at most
    once, there are at most as many responses as requests that have been read, and each response the client
    decodes is the answer to the request it sent in the same place. -/
theorem lockstep (daemon : Daemon) (c : ConnId) (name : SessionName) (as : List Action) (t : Link)
    (hr : run (step c name) (start daemon c) as = some t) :
    t.log.applied <+: t.log.sent ∧ t.log.written.length ≤ t.log.read.length ∧
      ∀ (i : Nat) (response : Response), t.log.received[i]? = some response →
        ∃ request, t.log.sent[i]? = some request ∧ t.log.answers[i]? = some (request, response) := by
  have h := run_lockstep hr
  obtain ⟨conn, -, -, hturn⟩ := h.turn
  obtain ⟨pending, hsent, -⟩ := h.upward
  obtain ⟨pending', hwritten, -⟩ := h.downward
  have hread : t.log.read <+: t.log.sent := ⟨pending, hsent.symm⟩
  refine ⟨hturn.applied_prefix.trans hread, ?_, fun i response hi => ?_⟩
  · calc t.log.written.length ≤ t.log.answers.length := by simpa using hturn.written_prefix.length_le
      _ ≤ t.log.read.length := by simpa using hturn.answered_prefix.length_le
  · have hreceived : t.log.received <+: t.log.answers.map (·.2) :=
      List.IsPrefix.trans ⟨pending', hwritten.symm⟩ hturn.written_prefix
    have hanswer := getElem?_of_prefix hreceived hi
    rw [List.getElem?_map, Option.map_eq_some_iff] at hanswer
    obtain ⟨⟨request, response'⟩, hanswer, rfl⟩ := hanswer
    refine ⟨request, getElem?_of_prefix (hturn.answered_prefix.trans hread) ?_, hanswer⟩
    rw [List.getElem?_map, hanswer]
    rfl

/-- An exchange whose messages arrive in pieces. -/
def exchanged (first : Action) : List Action :=
  [first, .clientPush 3, .upward (.bytes 2), .upward .interrupted, .clientPush 100, .clientFlush, .upward (.bytes 100),
    .serverRead, .serverEnter, .respond, .serverPush 1000, .serverFlush, .downward (.bytes 7), .downward (.bytes 1000),
    .clientRead]

/-- Another connection creates the session; then a client attaches to it, types, splits and detaches. -/
def attachment : List Action :=
  [.other (.accept 1), .other (.send 1 (.create .work)), .other (.read 1 true), .other (.enter 1),
    .other (.write 1 true)] ++
  ([.connect, .exchange (.resize 80 24), .exchange (.input [97]), .exchange (.command 1), .exchange (.detach .work)] :
    List Action).flatMap exchanged

theorem lockstep_attachment : ∃ t : Link, run (step 0 .work) (start (.start ⟨0, [], []⟩) 0) attachment = some t ∧
    t.log.received.length = 5 ∧
    t.log.applied <+: t.log.sent ∧ t.log.written.length ≤ t.log.read.length ∧
      ∀ (i : Nat) (response : Response), t.log.received[i]? = some response →
        ∃ request, t.log.sent[i]? = some request ∧ t.log.answers[i]? = some (request, response) := by
  have hrun : (run (step 0 .work) (start (.start ⟨0, [], []⟩) 0) attachment).map (fun t => t.log.received.length) =
      some 5 := by decide +kernel
  obtain ⟨t, ht, hlength⟩ := Option.map_eq_some_iff.mp hrun
  exact ⟨t, ht, hlength, lockstep _ _ _ _ _ ht⟩

/-! ### The daemon -/

theorem daemon_writeRequest (s : Link) (request : Request) : (s.writeRequest request).daemon = s.daemon := by
  rw [Link.writeRequest]
  split <;> rfl

/-- What a connection does to the daemon, the daemon can do when whole messages arrive at once. -/
theorem step_daemon {a : Action} (hs : step c name s a = some t) :
    ∃ as, run Daemon.step s.daemon as = some t.daemon := by
  have one : ∀ {action : Daemon.Action} {daemon : Daemon}, s.daemon.step action = some daemon →
      ∃ as, run Daemon.step s.daemon as = some daemon := fun {action _} hd => ⟨[action], by rwa [run_singleton]⟩
  cases a with
  | connect | exchange request =>
    obtain ⟨-, hs⟩ := Option.ite_none_right_eq_some.mp hs
    cases hs
    exact ⟨[], congrArg some (daemon_writeRequest _ _).symm⟩
  | clientPush n | clientFlush | clientFail | serverPush n =>
    obtain ⟨-, hs⟩ := Option.ite_none_right_eq_some.mp hs
    cases hs
    exact ⟨[], rfl⟩
  | clientRead =>
    obtain ⟨-, hs⟩ := Option.ite_none_right_eq_some.mp hs
    split at hs
    · cases hs
      exact ⟨[], rfl⟩
    · cases hs
      exact ⟨[], rfl⟩
    · cases hs
  | serverRead =>
    simp only [step] at hs
    split at hs
    -- To the daemon the message arrives when it has arrived as a whole.
    · obtain ⟨daemon, hd, hs⟩ := Option.bind_eq_some_iff.mp hs
      cases hs
      exact ⟨_, hd⟩
    · obtain ⟨daemon, hd, hs⟩ := Option.bind_eq_some_iff.mp hs
      cases hs
      exact one hd
    · cases hs
  | serverEnter =>
    obtain ⟨before, -, hs⟩ := Option.bind_eq_some_iff.mp hs
    obtain ⟨daemon, hd, hs⟩ := Option.bind_eq_some_iff.mp hs
    obtain ⟨after, -, hs⟩ := Option.bind_eq_some_iff.mp hs
    cases hs
    exact one hd
  | respond =>
    obtain ⟨conn, -, hs⟩ := Option.bind_eq_some_iff.mp hs
    obtain ⟨response, -, hs⟩ := Option.bind_eq_some_iff.mp hs
    obtain ⟨-, hs⟩ := Option.ite_none_left_eq_some.mp hs
    split at hs
    · cases hs
      exact ⟨[], rfl⟩
    · obtain ⟨daemon, hd, hs⟩ := Option.bind_eq_some_iff.mp hs
      cases hs
      exact one hd
  | serverFlush | serverFail =>
    obtain ⟨-, hs⟩ := Option.ite_none_right_eq_some.mp hs
    obtain ⟨daemon, hd, hs⟩ := Option.bind_eq_some_iff.mp hs
    cases hs
    exact one hd
  | upward arrival | downward arrival =>
    cases hs
    exact ⟨[], rfl⟩
  | other action =>
    obtain ⟨-, hs⟩ := Option.ite_none_left_eq_some.mp hs
    obtain ⟨daemon, hd, hs⟩ := Option.bind_eq_some_iff.mp hs
    cases hs
    exact one hd

/-- So what holds on every run of the daemon holds while it serves a connection byte by byte. -/
theorem run_daemon {as : List Action} (hr : run (step c name) s as = some t) :
    ∃ bs, run Daemon.step s.daemon bs = some t.daemon := by
  refine run_invariant (I := fun t => ∃ bs, run Daemon.step s.daemon bs = some t.daemon) ?_ ⟨[], rfl⟩ hr
  intro u a v hu hs
  obtain ⟨bs, hbs⟩ := hu
  obtain ⟨cs, hcs⟩ := step_daemon hs
  exact ⟨bs ++ cs, run_append_eq_some.mpr ⟨_, hbs, hcs⟩⟩

end Link

end NovaMux

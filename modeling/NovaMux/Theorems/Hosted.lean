import NovaMux.Theorems.Runtimes
import NovaMux.Theorems.RoundTrip
import NovaMux.Runtime.Hosted

/-! What each operation on a hosted session can do, and what all of them keep: the registry holds a runtime
    for exactly the panes of a well-formed session. -/

namespace NovaMux.HostedSession

variable {hosted hosted' : HostedSession} {os os' : Os} {direction : SplitDirection} {cols rows : UInt16}
  {result : Except ServiceError Unit}

def Tended (hosted : HostedSession) : Prop := Owned hosted.session hosted.panes

/-! ### What each operation can do -/

theorem create_inv {name : SessionName} (h : create name os = (.ok hosted, os')) : ∃ removed panes,
    PaneRegistry.new.reconcile (Session.new name) (fun _ => LivePty.spawn (.new 24 80)) os = (.ok removed, panes, os') ∧
      hosted = { session := Session.new name, panes, attached := false, viewport := (80, 24) } := by
  simp only [create] at h
  split at h
  · cases h
  · next hr =>
    cases h
    exact ⟨_, _, hr, rfl⟩

theorem resize_inv (h : hosted.resize cols rows os = (result, hosted', os')) :
    ∃ outcome panes, hosted' = { hosted with viewport := (max cols 2, max rows 2), panes } ∧
      resizeRuntimes hosted'.layout hosted.panes os = (outcome, panes, os') ∧
      result = outcome.mapError .runtime := by
  simp only [resize] at h
  split at h
  all_goals
    next hr =>
      cases h
      exact ⟨_, _, rfl, hr, rfl⟩

theorem split_inv (h : hosted.split direction os = some (result, hosted', os')) :
    ∃ id candidate, hosted.session.splitFocused direction = some (id, candidate) ∧
      ((∃ error, hosted.panes.reconcile candidate (fun _ => LivePty.spawn (.new 2 2)) os =
          (.error error, hosted.panes, os') ∧ result = .error (.runtime error) ∧ hosted' = hosted) ∨
        ∃ removed panes os₁, hosted.panes.reconcile candidate (fun _ => LivePty.spawn (.new 2 2)) os =
            (.ok removed, panes, os₁) ∧
          { hosted with panes, session := candidate }.resize hosted.viewport.1 hosted.viewport.2 os₁ =
            (result, hosted', os')) := by
  simp only [split, Option.bind_eq_bind, Option.bind_eq_some_iff] at h
  obtain ⟨⟨id, candidate⟩, hs, h⟩ := h
  refine ⟨id, candidate, hs, ?_⟩
  split at h
  · next hr =>
    cases h
    obtain rfl := PaneRegistry.reconcile_error hr
    exact Or.inl ⟨_, hr, rfl, rfl⟩
  · next hr =>
    exact Or.inr ⟨_, _, _, hr, Option.some.inj h⟩

/-- A close of the last pane changes nothing; otherwise the runtimes follow the session. -/
theorem close_inv (h : hosted.close os = some (result, hosted', os')) :
    (∃ session, hosted.session.closeFocused = some (false, session) ∧ hosted' = hosted ∧ result = .ok () ∧ os' = os) ∨
      ∃ session outcome panes os₁, hosted.session.closeFocused = some (true, session) ∧
        hosted.panes.reconcile session (fun _ => LivePty.spawn (.new 2 2)) os = (outcome, panes, os₁) ∧
        hosted' = { hosted with session, panes } ∧
        ((∃ error, outcome = .error error ∧ result = .error (.runtime error) ∧ os' = os₁) ∨
          ∃ removed ended, outcome = .ok removed ∧ terminateRuntimes removed os₁ = (ended, os') ∧
            result = ended.mapError .runtime) := by
  simp only [close, Option.bind_eq_bind, Option.bind_eq_some_iff] at h
  obtain ⟨⟨closed, session⟩, hs, h⟩ := h
  cases closed with
  | false =>
    rcases Session.closeFocused_inv hs with ⟨-, -, rfl⟩ | ⟨hc, -⟩
    · cases h
      exact Or.inl ⟨_, hs, rfl, rfl, rfl⟩
    · cases hc
  | true =>
    refine Or.inr ⟨session, ?_⟩
    simp only [if_true] at h
    split at h
    · next hr =>
      cases h
      exact ⟨_, _, _, hs, hr, rfl, Or.inl ⟨_, rfl, rfl, rfl⟩⟩
    · next hr =>
      split at h
      all_goals
        next ht =>
          cases h
          exact ⟨_, _, _, hs, hr, rfl, Or.inr ⟨_, _, rfl, ht, rfl⟩⟩

/-! ### What every operation keeps -/

theorem Tended.create {name : SessionName} (h : HostedSession.create name os = (.ok hosted, os')) : hosted.Tended := by
  obtain ⟨removed, panes, hr, rfl⟩ := create_inv h
  exact Owned.of_reconciled (Session.Wf.new name) (PaneRegistry.reconcile_ok hr)

theorem Tended.resize (h : hosted.Tended) (hr : hosted.resize cols rows os = (result, hosted', os')) :
    hosted'.Tended := by
  obtain ⟨outcome, panes, rfl, hres, -⟩ := resize_inv hr
  exact Owned.resize h hres

theorem Tended.split (h : hosted.Tended) (hs : hosted.split direction os = some (result, hosted', os')) :
    hosted'.Tended := by
  rcases split_inv hs with ⟨id, candidate, hsplit, ⟨-, -, -, rfl⟩ | ⟨removed, panes, os₁, hrec, hres⟩⟩
  · exact h
  · have started : Tended { hosted with panes, session := candidate } := Owned.reconcile_split h hsplit hrec
    exact started.resize hres

theorem Tended.close (h : hosted.Tended) (hc : hosted.close os = some (result, hosted', os')) : hosted'.Tended := by
  rcases close_inv hc with ⟨-, -, rfl, -⟩ | ⟨session, outcome, panes, os₁, hs, hr, rfl, -⟩
  · exact h
  · exact (Owned.reconcile_close h hs hr).2

theorem Tended.command (h : hosted.Tended) {code : UInt8} (hc : hosted.command code os = some (result, hosted', os')) :
    hosted'.Tended := by
  unfold HostedSession.command at hc
  split at hc
  · exact h.split hc
  · exact h.split hc
  · obtain ⟨session, hf, hc⟩ := Option.bind_eq_some_iff.mp hc
    cases hc
    exact Owned.focusNext h hf
  · exact h.close hc
  · cases hc
    exact h

theorem Tended.input (h : hosted.Tended) {bytes : List UInt8} (hi : hosted.input bytes os = (result, hosted', os')) :
    hosted'.Tended := by
  unfold HostedSession.input at hi
  split at hi
  · cases hi
    exact h
  · split at hi <;>
    · cases hi
      exact Owned.set h h.wf.focused _

@[simp] theorem thenSnapshot_hosted (r : Except ServiceError Unit × HostedSession × Os) :
    (thenSnapshot r).2.1 = r.2.1 := by
  rcases r with ⟨_ | _, hosted, os⟩ <;> rfl

/-- No request, whether it succeeds or not, leaves a pane without its runtime or a runtime without its pane. -/
theorem Tended.respond (h : hosted.Tended) {request : Request} {reply : Except ServiceError Response}
    (hr : hosted.respond request os = some (reply, hosted', os')) : hosted'.Tended := by
  cases request with
  | snapshot =>
    cases hr
    exact h
  | input bytes =>
    have he : (hosted.input bytes os).2.1 = hosted' := by rw [← thenSnapshot_hosted, Option.some.inj hr]
    rw [← he]
    exact h.input rfl
  | resize cols rows =>
    have he : (hosted.resize cols rows os).2.1 = hosted' := by rw [← thenSnapshot_hosted, Option.some.inj hr]
    rw [← he]
    exact h.resize rfl
  | command code =>
    obtain ⟨⟨result, hosted₁, os₁⟩, hc, he⟩ := Option.map_eq_some_iff.mp hr
    have he : hosted₁ = hosted' := (thenSnapshot_hosted _).symm.trans (congrArg (·.2.1) he)
    rw [← he]
    exact h.command hc
  | create | list | attach | detach | ping =>
    cases hr
    exact h

end NovaMux.HostedSession

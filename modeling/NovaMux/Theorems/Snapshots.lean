import NovaMux.Theorems.Delivery
import NovaMux.Theorems.Sizes

/-! What a snapshot shows: every pane once, in tree order, with the rectangle that the layout gives it and
    the end of its text, as long as the budget of the screen admits. -/

namespace NovaMux

/-! ### The end of a text -/

/-- The longest end of a text that starts at a character boundary and has at most `maximum` bytes. -/
structure LongestSuffix (value : String) (maximum : Nat) (text : String) : Prop where
  suffix : ∃ before, value = before ++ text
  within : text.utf8ByteSize ≤ maximum
  longest : ∀ before other, value = before ++ other → other.utf8ByteSize ≤ maximum →
    other.utf8ByteSize ≤ text.utf8ByteSize

theorem suffixWithin_longest (value : String) {maximum : Nat} (h : maximum ≤ value.utf8ByteSize) :
    LongestSuffix value maximum (suffixWithin value maximum) := by
  induction maximum with
  | zero =>
    rw [suffixWithin]
    exact ⟨⟨value, by simp⟩, by simp, fun _ _ _ hle => hle.trans (Nat.zero_le _)⟩
  | succ maximum ih =>
    rw [suffixWithin]
    split
    · next hv =>
      have hsize : ((value.sliceFrom ⟨_, hv⟩).copy).utf8ByteSize = maximum + 1 := by
        rw [String.Slice.utf8ByteSize_copy, String.utf8ByteSize_sliceFrom]
        show value.utf8ByteSize - (value.utf8ByteSize - (maximum + 1)) = maximum + 1
        omega
      refine ⟨⟨_, (String.Pos.splits ⟨⟨value.utf8ByteSize - (maximum + 1)⟩, hv⟩).eq_append⟩, hsize.le, ?_⟩
      intro before other _ hle
      exact hle.trans hsize.ge
    · next hv =>
      have hshort := ih (by omega)
      refine ⟨hshort.suffix, hshort.within.trans (Nat.le_succ _), fun before other he hle => ?_⟩
      -- A suffix of that many bytes would start at the boundary that there is not.
      have hne : other.utf8ByteSize ≠ maximum + 1 := by
        intro hsize
        refine hv (String.Pos.Raw.isValid_iff_exists_append.mpr ⟨before, other, he, ?_⟩)
        have hlen : value.utf8ByteSize = before.utf8ByteSize + other.utf8ByteSize := by
          rw [he, String.utf8ByteSize_append]
        refine String.Pos.Raw.ext ?_
        show value.utf8ByteSize - (maximum + 1) = before.utf8ByteSize
        omega
      exact hshort.longest before other he (by omega)

theorem truncateUtf8_longest (value : String) (maximum : Nat) :
    LongestSuffix value maximum (truncateUtf8 value maximum) := by
  rw [truncateUtf8]
  split
  · next hle =>
    refine ⟨⟨"", by simp⟩, hle, fun before other he _ => ?_⟩
    rw [he, String.utf8ByteSize_append]
    exact Nat.le_add_left _ _
  · next hlt => exact suffixWithin_longest value (Nat.le_of_not_le hlt)

/-! ### Readings -/

variable {os os' : Os}

/-- The next readings of terminals all succeed. -/
def Os.Readable (os : Os) (count : Nat) : Prop := ∀ outcome ∈ os.faults.take count, outcome = none

/-- What a terminal shows at the reading `index` from now. -/
def Os.shown (os : Os) (index : Nat) : String := os.screens.getD index ""

theorem LivePty.visibleText_readable (runtime : LivePty) {count : Nat} (h : os.Readable (count + 1)) :
    ∃ os', runtime.visibleText os = (.ok (os.shown 0), os') ∧ os'.Readable count ∧
      ∀ index, os'.shown index = os.shown (index + 1) := by
  obtain ⟨os₁, ha, h₁, hscreens⟩ : ∃ os₁, os.attempt = (none, os₁) ∧ os₁.Readable count ∧ os₁.screens = os.screens := by
    unfold Os.attempt
    unfold Os.Readable at h
    cases hf : os.faults with
    | nil => exact ⟨os, rfl, by simp [Os.Readable, hf], rfl⟩
    | cons outcome faults =>
      rw [hf, List.take_succ_cons] at h
      obtain ⟨rfl, hrest⟩ := List.forall_mem_cons.mp h
      exact ⟨_, rfl, hrest, rfl⟩
  simp only [visibleText, ha, Os.screen, Os.shown, ← hscreens]
  cases hs : os₁.screens with
  | nil => exact ⟨os₁, rfl, h₁, fun index => by simp [hs]⟩
  | cons text screens => exact ⟨_, rfl, h₁, fun index => by simp⟩

namespace HostedSession

open Machine

variable {hosted : HostedSession}

/-- A pane as a snapshot lists it. -/
def shot (hosted : HostedSession) (allowance : Nat) (entry : PaneId × Rect) (text : String) : PaneSnapshot where
  id := entry.1.get
  x := entry.2.x
  y := entry.2.y
  width := entry.2.width
  height := entry.2.height
  focused := entry.1 = hosted.session.focused
  text := truncateUtf8 text allowance

theorem snapshotPanes_readable (allowance : Nat) (layout : List (PaneId × Rect))
    (hp : ∀ entry ∈ layout, (hosted.panes.get entry.1).isSome) (h : os.Readable layout.length) :
    ∃ os', hosted.snapshotPanes allowance layout os =
      (.ok (layout.mapIdx fun index entry => hosted.shot allowance entry (os.shown index)), os') := by
  induction layout generalizing os with
  | nil => exact ⟨os, rfl⟩
  | cons entry layout ih =>
    obtain ⟨pane, rect⟩ := entry
    obtain ⟨hhead, hrest⟩ := List.forall_mem_cons.mp hp
    obtain ⟨runtime, hget⟩ := Option.isSome_iff_exists.mp hhead
    obtain ⟨os₁, htext, h₁, hshown⟩ := runtime.visibleText_readable h
    obtain ⟨os₂, hpanes⟩ := ih hrest h₁
    refine ⟨os₂, ?_⟩
    simp only [snapshotPanes, paneText, hget, htext, hpanes, List.mapIdx_cons, hshown]
    rfl

/-! ### Snapshots of reachable sessions -/

/-- What a screen says about a session: its panes in order, the focused one, rectangles that cover the viewport
    above its status line exactly, and the ends of the texts that the terminals show. -/
structure Faithful (hosted : HostedSession) (os : Os) (panes : List PaneSnapshot) : Prop where
  ids : panes.map PaneSnapshot.id = hosted.session.panes.map PaneId.get
  distinct : (panes.map PaneSnapshot.id).Nodup
  focused : (panes.filter PaneSnapshot.focused).map PaneSnapshot.id = [hosted.session.focused.get]
  inside : ∀ pane ∈ panes, (⟨pane.x, pane.y, pane.width, pane.height⟩ : Rect).Inside hosted.area
  tiles : ∀ column row, panes.countP (fun pane =>
    (⟨pane.x, pane.y, pane.width, pane.height⟩ : Rect).contains column row) =
      if hosted.area.contains column row then 1 else 0
  texts : ∀ index pane, panes[index]? = some pane →
    LongestSuffix (os.shown index) (6500 / hosted.session.panes.length) pane.text

theorem area_fits (hosted : HostedSession) : hosted.area.Fits := by
  have hw := hosted.viewport.1.toNat_lt
  have hh := (hosted.viewport.2.saturatingSub 1).toNat_lt
  refine ⟨?_, ?_⟩
  · show 0 + hosted.viewport.1.toNat ≤ 65535
    omega
  · show 0 + (hosted.viewport.2.saturatingSub 1).toNat ≤ 65535
    omega

/-- The panes of a screen, with the text that each terminal shows. -/
def shots (hosted : HostedSession) (os : Os) : List PaneSnapshot :=
  hosted.layout.mapIdx fun index entry =>
    hosted.shot (6500 / hosted.session.panes.length) entry (os.shown index)

/-- What the screen says of a pane without its text is said by the layout. -/
theorem map_shots {α : Type} (hosted : HostedSession) (os : Os) (g : PaneSnapshot → α) (g' : PaneId × Rect → α)
    (h : ∀ allowance entry text, g (hosted.shot allowance entry text) = g' entry) :
    (hosted.shots os).map g = hosted.layout.map g' := by
  refine List.ext_getElem? fun index => ?_
  rw [shots, List.getElem?_map, List.getElem?_mapIdx, List.getElem?_map, Option.map_map]
  exact Option.map_congr fun entry _ => h _ entry _

theorem map_fst_layout (hosted : HostedSession) : hosted.layout.map Prod.fst = hosted.session.panes := by
  rw [layout_area, Session.layout_eq, Node.map_fst_rects, Session.panes_eq]

theorem length_layout (hosted : HostedSession) : hosted.layout.length = hosted.session.panes.length := by
  rw [← map_fst_layout, List.length_map]

theorem ids_shots (hosted : HostedSession) (os : Os) :
    (hosted.shots os).map PaneSnapshot.id = hosted.session.panes.map PaneId.get := by
  rw [map_shots hosted os PaneSnapshot.id (fun entry => entry.1.get) fun _ _ _ => rfl, ← map_fst_layout, List.map_map]
  rfl

theorem PaneId.get_injective : Function.Injective PaneId.get := by
  intro a b h
  cases a
  cases b
  exact congrArg PaneId.mk h

theorem focused_shots (h : hosted.session.Wf) (os : Os) :
    ((hosted.shots os).filter PaneSnapshot.focused).map PaneSnapshot.id = [hosted.session.focused.get] := by
  have hpairs := map_shots hosted os (fun pane => (pane.id, pane.focused))
    (fun entry => (entry.1.get, decide (entry.1 = hosted.session.focused))) fun _ _ _ => rfl
  have hone : hosted.session.panes.filter (· = hosted.session.focused) = [hosted.session.focused] := by
    rw [List.filter_eq, List.count_eq_one_of_mem h.nodup h.focused]
    rfl
  calc ((hosted.shots os).filter PaneSnapshot.focused).map PaneSnapshot.id
      = (((hosted.shots os).map fun pane => (pane.id, pane.focused)).filter Prod.snd).map Prod.fst := by
        rw [List.filter_map, List.map_map]
        rfl
    _ = (hosted.session.panes.filter (· = hosted.session.focused)).map PaneId.get := by
        rw [hpairs, List.filter_map, List.map_map, ← map_fst_layout, List.filter_map, List.map_map]
        rfl
    _ = [hosted.session.focused.get] := by rw [hone]; rfl

theorem faithful_shots (h : hosted.session.Wf) (os : Os) : Faithful hosted os (hosted.shots os) where
  ids := ids_shots hosted os
  distinct := by
    rw [ids_shots]
    exact h.nodup.map PaneId.get_injective
  focused := focused_shots h os
  inside := by
    intro pane hp
    obtain ⟨index, hlt, rfl⟩ := List.mem_mapIdx.mp hp
    have hall : ∀ entry ∈ hosted.layout, entry.2.Inside hosted.area := by
      rw [layout_area, Session.layout_eq]
      exact hosted.session.root.rects_inside hosted.area_fits
    exact hall _ (List.getElem_mem hlt)
  tiles := by
    intro column row
    have hrects := map_shots hosted os (fun pane => (⟨pane.x, pane.y, pane.width, pane.height⟩ : Rect))
      Prod.snd fun _ _ _ => rfl
    have hcount : (hosted.shots os).countP (fun pane =>
        (⟨pane.x, pane.y, pane.width, pane.height⟩ : Rect).contains column row) =
          hosted.layout.countP fun entry => entry.2.contains column row := by
      rw [← Function.comp_def (fun rect : Rect => rect.contains column row), ← List.countP_map, hrects, List.countP_map]
      rfl
    rw [hcount, layout_area, Session.layout_eq]
    exact hosted.session.root.count_contains hosted.area_fits column row
  texts := by
    intro index pane hpane
    rw [shots, List.getElem?_mapIdx, Option.map_eq_some_iff] at hpane
    obtain ⟨entry, -, rfl⟩ := hpane
    exact truncateUtf8_longest _ _

theorem Tended.snapshot (h : hosted.Tended) (hread : os.Readable hosted.session.panes.length) :
    ∃ os', hosted.snapshot os = (.ok (.screen (hosted.shots os)), os') := by
  obtain ⟨os', hshot⟩ := snapshotPanes_readable (6500 / max hosted.layout.length 1) hosted.layout
    (fun entry he => (h.owned entry.1).mpr (hosted.map_fst_layout ▸ List.mem_map_of_mem he)) (hosted.length_layout ▸ hread)
  have hmax : max hosted.layout.length 1 = hosted.session.panes.length := by
    rw [length_layout]
    exact max_eq_left hosted.session.length_panes_pos
  refine ⟨os', ?_⟩
  simp only [HostedSession.snapshot, hshot]
  rw [hmax]
  rfl

/-- With at most 32 panes, whatever the history of a session, its viewport and the texts of its terminals, the
    screen is sent, and what the client decodes is faithful. -/
theorem snapshot_faithful {name : SessionName} {os₀ os₁ os₂ : Os} {hosted₀ : HostedSession}
    (hc : create name os₀ = (.ok hosted₀, os₁)) {requests : List Request}
    (hr : run serve (hosted₀, os₁) requests = some (hosted, os₂)) (viewport : UInt16 × UInt16)
    (hcount : hosted.session.panes.length ≤ 32) (hread : os.Readable hosted.session.panes.length) :
    ∃ response os' bytes panes, { hosted with viewport }.snapshot os = (.ok response, os') ∧
      encodeResponse response = .ok bytes ∧ decodeResponse bytes = .ok (.screen panes) ∧
      Faithful { hosted with viewport } os panes := by
  have tended : hosted.Tended := run_invariant (I := fun s : HostedSession × Os => s.1.Tended) (fun s request t h hs => by
    obtain ⟨⟨reply, t⟩, hrespond, rfl⟩ := Option.map_eq_some_iff.mp hs
    exact h.respond hrespond) (Tended.create hc) hr
  have shown : Tended { hosted with viewport } := tended
  obtain ⟨os', hsnap⟩ := shown.snapshot hread
  have hlen : (shots { hosted with viewport } os).length = hosted.session.panes.length := by
    rw [← List.length_map PaneSnapshot.id, ids_shots, List.length_map]
  have hlimits : (Response.screen (shots { hosted with viewport } os)).Limits := by
    refine limits_screen (hlen ▸ hcount) fun pane hp => ?_
    obtain ⟨index, hlt, rfl⟩ := List.getElem_of_mem hp
    rw [hlen]
    exact ((faithful_shots shown.wf os).texts index _ (List.getElem?_eq_getElem hlt)).within
  obtain ⟨bytes, he⟩ := (encodeResponse_isOk _).mpr hlimits
  exact ⟨_, os', bytes, _, hsnap, he, decodeResponse_eq_ok.mpr he, faithful_shots shown.wf os⟩

/-- Two panes in a small viewport, one of them with a text of two-byte characters. -/
theorem snapshot_faithful_two : ∃ (hosted : HostedSession) (response : Response) (os' : Os) (bytes : List UInt8)
    (panes : List PaneSnapshot), { hosted with viewport := (7, 3) }.snapshot ⟨0, [none], ["ééé", "$"]⟩ = (.ok response, os') ∧
      encodeResponse response = .ok bytes ∧ decodeResponse bytes = .ok (.screen panes) ∧
      Faithful { hosted with viewport := (7, 3) } ⟨0, [none], ["ééé", "$"]⟩ panes := by
  obtain ⟨hosted₀, os₁, hc⟩ : ∃ hosted₀ os₁, create .work ⟨0, [], []⟩ = (.ok hosted₀, os₁) := ⟨_, _, rfl⟩
  have hcount : ((create .work ⟨0, [], []⟩).1.toOption.bind fun hosted =>
      (run serve (hosted, (create .work ⟨0, [], []⟩).2) [.command 1]).map fun s => s.1.session.panes.length) =
      some 2 := by decide +kernel
  rw [hc] at hcount
  obtain ⟨⟨hosted, os₂⟩, hr, htwo⟩ := Option.map_eq_some_iff.mp hcount
  have hlen : hosted.session.panes.length = 2 := htwo
  refine ⟨hosted, snapshot_faithful hc hr (7, 3) (by rw [hlen]; decide) ?_⟩
  rw [hlen]
  intro outcome ho
  exact List.mem_singleton.mp ho

end HostedSession

end NovaMux

import Mathlib.Tactic.Ring
import NovaMux.Core.CopyMode
import NovaMux.Lib.Machine
import NovaMux.Runtime.Terminal

/-! The retained history of a terminal. A search runs through the viewports from the current one on and finds the one that
    moving line by line in copy mode would have brought up first, as the terminal library keeps positions within the
    history. What a terminal holds depends on the bytes a shell has printed and not on how they were read. -/

namespace NovaMux

open ByteStream

/-- The documented behaviour of the terminal library: the position in the history is clamped to its size. -/
structure Vt100.Documented {P : Type} (vt : Vt100 P) (retained : P → UInt64) : Prop where
  position : ∀ screen rows, vt.scrollback (vt.setScrollback screen rows) = min rows (retained screen)
  clamp : ∀ screen rows, vt.setScrollback screen (min rows (retained screen)) = vt.setScrollback screen rows
  reposition : ∀ screen rows rows', vt.setScrollback (vt.setScrollback screen rows) rows' = vt.setScrollback screen rows'

/-! ### Sequences that settle -/

section

variable {α : Type} {f g : Nat → α} {p : α → Bool} {n : Nat} {a : α}

/-- Where a sequence meets a condition first. -/
def FirstHit (p : α → Bool) (f : Nat → α) (a : α) : Prop := ∃ k, p (f k) = true ∧ (∀ j < k, p (f j) = false) ∧ a = f k

theorem find?_settled (hf : ∀ k, n ≤ k → f k = f n) : ((List.range (n + 1)).map f).find? p = some a ↔ FirstHit p f a := by
  rw [List.find?_map, Option.map_eq_some_iff]
  constructor
  · rintro ⟨k, hk, rfl⟩
    obtain ⟨hit, -, hbefore⟩ := List.find?_range_eq_some.mp hk
    exact ⟨k, hit, fun j hj => by simpa using hbefore j hj, rfl⟩
  · rintro ⟨k, hit, hbefore, rfl⟩
    refine ⟨k, List.find?_range_eq_some.mpr ⟨hit, ?_, fun j hj => by simpa using hbefore j hj⟩, rfl⟩
    rw [List.mem_range]
    by_contra hlate
    rw [hf k (by omega), hbefore n (by omega)] at hit
    cases hit

theorem find?_settled_none (hf : ∀ k, n ≤ k → f k = f n) :
    ((List.range (n + 1)).map f).find? p = none ↔ ∀ k, p (f k) = false := by
  rw [List.find?_eq_none]
  constructor
  · intro h k
    have hin : f (min k n) ∈ (List.range (n + 1)).map f := List.mem_map_of_mem (List.mem_range.mpr (by omega))
    have hsame : f k = f (min k n) := by
      rcases Nat.le_total k n with hle | hle
      · rw [min_eq_left hle]
      · rw [min_eq_right hle, hf k hle]
    rw [hsame]
    simpa using h _ hin
  · intro h a ha
    obtain ⟨k, -, rfl⟩ := List.mem_map.mp ha
    simpa using h k

/-- A sequence that lingers at its start meets a condition where it would have without that. -/
theorem firstHit_linger {d : Nat} (hfg : ∀ k, f k = g (k - d)) : FirstHit p f a ↔ FirstHit p g a := by
  constructor
  · rintro ⟨k, hit, hbefore, rfl⟩
    refine ⟨k - d, hfg k ▸ hit, fun j hj => ?_, hfg k⟩
    have hearlier := hbefore (j + d) (by omega)
    rwa [hfg, Nat.add_sub_cancel] at hearlier
  · rintro ⟨k, hit, hbefore, rfl⟩
    rcases Nat.eq_zero_or_pos k with rfl | hpos
    · have hstart : f 0 = g 0 := by rw [hfg, Nat.zero_sub]
      exact ⟨0, hstart ▸ hit, fun j hj => absurd hj (Nat.not_lt_zero j), hstart.symm⟩
    · have hthere : f (k + d) = g k := by rw [hfg, Nat.add_sub_cancel]
      refine ⟨k + d, hthere ▸ hit, fun j hj => ?_, hthere.symm⟩
      rw [hfg]
      exact hbefore _ (by omega)

end

/-! ### Copy mode -/

/-- The key that moves the viewport in a direction by one line. -/
def SearchDirection.key : SearchDirection → CopyModeAction
  | .older => .olderLine
  | .newer => .newerLine

namespace CopyMode

/-- Copy mode after a key has been pressed a number of times. -/
def press (mode : CopyMode) (action : CopyModeAction) (pageRows maximum : UInt64) : Nat → CopyMode
  | 0 => mode
  | k + 1 => (mode.press action pageRows maximum k).apply action pageRows maximum

variable {mode : CopyMode} {pageRows maximum : UInt64}

theorem active_press (h : mode.active = true) (direction : SearchDirection) (k : Nat) :
    (mode.press direction.key pageRows maximum k).active = true := by
  induction k with
  | zero => exact h
  | succ k ih =>
    cases direction <;>
    · simp only [SearchDirection.key] at ih ⊢
      simp [press, apply, ih]

theorem offset_press_older (h : mode.active = true) (pageRows maximum : UInt64) (k : Nat) :
    min (mode.press .olderLine pageRows maximum k).offset.toNat maximum.toNat = min (mode.offset.toNat + k) maximum.toNat := by
  induction k with
  | zero => rfl
  | succ k ih =>
    have hone : (1 : UInt64).toNat = 1 := rfl
    have hlt := maximum.toNat_lt
    have hactive : (mode.press .olderLine pageRows maximum k).active = true := active_press h .older k
    simp only [press, apply, hactive, Bool.true_eq_false, if_false, UInt64.toNat_min, UInt64.toNat_saturatingAdd, hone]
    omega

theorem offset_press_newer (h : mode.active = true) (pageRows maximum : UInt64) (k : Nat) :
    (mode.press .newerLine pageRows maximum k).offset.toNat = mode.offset.toNat - k := by
  induction k with
  | zero => rfl
  | succ k ih =>
    have hone : (1 : UInt64).toNat = 1 := rfl
    have hactive : (mode.press .newerLine pageRows maximum k).active = true := active_press h .newer k
    simp only [press, apply, hactive, Bool.true_eq_false, if_false, UInt64.toNat_saturatingSub, hone, ih]
    omega

end CopyMode

/-! ### Searching -/

namespace TerminalBuffer

variable {P : Type} {vt : Vt100 P} {retained : P → UInt64} {buffer : TerminalBuffer P} {query : SearchQuery}
  {direction : SearchDirection} {start maximum : UInt64}

theorem maxScrollbackOffset_eq (hd : vt.Documented retained) (buffer : TerminalBuffer P) :
    buffer.maxScrollbackOffset vt = retained buffer.parser := by
  have hmax : (-1 : UInt64).toNat = 2 ^ 64 - 1 := rfl
  have hlt := (retained buffer.parser).toNat_lt
  rw [maxScrollbackOffset, hd.position, ← UInt64.toNat_inj, UInt64.toNat_min]
  omega

theorem viewportText_clamp (hd : vt.Documented retained) (buffer : TerminalBuffer P) (offset : UInt64) :
    buffer.viewportText vt (buffer.clampScrollbackOffset vt offset) = buffer.viewportText vt offset := by
  rw [viewportText, clampScrollbackOffset, maxScrollbackOffset_eq hd, hd.clamp, viewportText]

/-- Whether the viewport at an offset contains a query. -/
def hits (vt : Vt100 P) (buffer : TerminalBuffer P) (query : SearchQuery) (offset : UInt64) : Bool :=
  contains (buffer.viewportText vt offset) query.asStr

/-- Where the screen has been before does not matter. -/
theorem findViewport_eq (hd : vt.Documented retained) (screen : P) (offsets : List UInt64) :
    findViewport vt query screen offsets =
      offsets.find? fun offset => contains (vt.contents (vt.setScrollback screen offset)) query.asStr := by
  induction offsets generalizing screen with
  | nil => rfl
  | cons offset offsets ih =>
    rw [findViewport, ih, List.find?_cons]
    simp only [hd.reposition]
    split
    · next h => rw [h]
    · next h =>
      rw [Bool.not_eq_true] at h
      rw [h]

theorem search_eq (hd : vt.Documented retained) (buffer : TerminalBuffer P) (query : SearchQuery) (start : UInt64)
    (direction : SearchDirection) : buffer.search vt query start direction =
      (searched (min start (buffer.maxScrollbackOffset vt)) (buffer.maxScrollbackOffset vt) direction).find?
        (buffer.hits vt query) :=
  findViewport_eq hd buffer.parser _

/-- The offsets from a start within the history on, which end up at its end. -/
def along (start maximum : Nat) : SearchDirection → Nat → Nat
  | .older, k => min (start + k) maximum
  | .newer, k => start - k

theorem searched_eq (h : start.toNat ≤ maximum.toNat) (direction : SearchDirection) :
    ∃ n, searched start maximum direction =
        (List.range (n + 1)).map (fun k => UInt64.ofNat (along start.toNat maximum.toNat direction k)) ∧
      ∀ k, n ≤ k → along start.toNat maximum.toNat direction k = along start.toNat maximum.toNat direction n := by
  cases direction with
  | older =>
    refine ⟨maximum.toNat - start.toNat, ?_, fun k hk => ?_⟩
    · have hlength : maximum.toNat + 1 - start.toNat = maximum.toNat - start.toNat + 1 := by omega
      rw [searched, hlength, List.range'_eq_map_range, List.map_map]
      refine List.map_congr_left fun k hk => ?_
      rw [List.mem_range] at hk
      have hin : along start.toNat maximum.toNat .older k = start.toNat + k := by
        rw [along]
        omega
      rw [hin]
      rfl
    · simp only [along]
      omega
  | newer =>
    refine ⟨start.toNat, ?_, fun k hk => ?_⟩
    · have hreverse : (List.range (start.toNat + 1)).reverse = (List.range (start.toNat + 1)).map (start.toNat - ·) := by
        conv_lhs => rw [List.range_eq_range', List.reverse_range']
        refine List.map_congr_left fun k _ => ?_
        omega
      rw [searched, hreverse, List.map_map]
      rfl
    · simp only [along]
      omega

/-- The viewports that the key brings up are those along the history, the first of them again and again while a position
    beyond the history comes back to it. -/
theorem clamp_press (vt : Vt100 P) (buffer : TerminalBuffer P) {mode : CopyMode} (h : mode.active = true)
    (pageRows : UInt64) (direction : SearchDirection) : ∃ d, ∀ k, buffer.clampScrollbackOffset vt
        (mode.press direction.key pageRows (buffer.maxScrollbackOffset vt) k).offset =
      UInt64.ofNat (along (min mode.offset (buffer.maxScrollbackOffset vt)).toNat (buffer.maxScrollbackOffset vt).toNat
        direction (k - d)) := by
  obtain ⟨maximum, hmax⟩ : ∃ maximum, buffer.maxScrollbackOffset vt = maximum := ⟨_, rfl⟩
  have hlt := maximum.toNat_lt
  cases direction with
  | older =>
    refine ⟨0, fun k => ?_⟩
    have hpress := CopyMode.offset_press_older h pageRows maximum k
    rw [clampScrollbackOffset, hmax, ← UInt64.toNat_inj, UInt64.toNat_min, UInt64.toNat_ofNat', along, UInt64.toNat_min]
    rw [SearchDirection.key, hpress, Nat.mod_eq_of_lt (by omega)]
    omega
  | newer =>
    refine ⟨mode.offset.toNat - maximum.toNat, fun k => ?_⟩
    have hpress := CopyMode.offset_press_newer h pageRows maximum k
    rw [clampScrollbackOffset, hmax, ← UInt64.toNat_inj, UInt64.toNat_min, UInt64.toNat_ofNat', along, UInt64.toNat_min]
    rw [SearchDirection.key, hpress, Nat.mod_eq_of_lt (by omega)]
    omega

/-- A search finds the viewport that the key of its direction, pressed again and again in copy mode, brings up first with
    the query, even from a position that the history no longer has; it finds nothing when the key never would. -/
theorem search_presses (hd : vt.Documented retained) (buffer : TerminalBuffer P) (query : SearchQuery) {mode : CopyMode}
    (h : mode.active = true) (pageRows : UInt64) (direction : SearchDirection) :
    let pressed := fun k => (mode.press direction.key pageRows (buffer.maxScrollbackOffset vt) k).offset
    (∀ offset, buffer.search vt query mode.offset direction = some offset ↔
      ∃ k, buffer.hits vt query (pressed k) = true ∧ (∀ j < k, buffer.hits vt query (pressed j) = false) ∧
        offset = buffer.clampScrollbackOffset vt (pressed k)) ∧
    (buffer.search vt query mode.offset direction = none ↔ ∀ k, buffer.hits vt query (pressed k) = false) := by
  intro pressed
  obtain ⟨d, hpress⟩ := clamp_press vt buffer h pageRows direction
  have hstart : (min mode.offset (buffer.maxScrollbackOffset vt)).toNat ≤ (buffer.maxScrollbackOffset vt).toNat := by
    rw [UInt64.toNat_min]
    exact min_le_right _ _
  obtain ⟨n, hsearched, hsettled⟩ := searched_eq hstart direction
  have hhits : ∀ offset, buffer.hits vt query (buffer.clampScrollbackOffset vt offset) = buffer.hits vt query offset :=
    fun offset => by rw [hits, viewportText_clamp hd, hits]
  rw [search_eq hd, hsearched]
  refine ⟨fun offset => ?_, ?_⟩
  · rw [find?_settled fun k hk => congrArg UInt64.ofNat (hsettled k hk), ← firstHit_linger hpress]
    simp only [FirstHit, hhits, pressed]
  · rw [find?_settled_none fun k hk => congrArg UInt64.ofNat (hsettled k hk)]
    refine ⟨fun hnone k => ?_, fun hnone k => ?_⟩
    · rw [← hhits, hpress]
      exact hnone _
    · have hthere := hnone (k + d)
      rwa [← hhits, hpress, Nat.add_sub_cancel] at hthere

end TerminalBuffer

/-- A terminal of one row, which knows printed ASCII characters, carriage returns and line feeds. -/
structure OneRow where
  cols : Nat
  limit : Nat
  /-- The rows that have left the screen, the last one first. -/
  past : List (List UInt8)
  row : List UInt8
  column : Nat
  offset : UInt64
deriving DecidableEq

namespace OneRow

/-- The row leaves the screen. A viewport in the history stays where it is. -/
def scroll (s : OneRow) : OneRow :=
  let past := (s.row :: s.past).take s.limit
  { s with past, row := [], offset := if s.offset = 0 then 0 else min (UInt64.ofNat past.length) (s.offset + 1) }

def write (s : OneRow) (byte : UInt8) : OneRow :=
  let before := (s.row ++ List.replicate (s.column - s.row.length) 32).take s.column
  { s with row := before ++ byte :: s.row.drop (s.column + 1), column := s.column + 1 }

def put (s : OneRow) (byte : UInt8) : OneRow :=
  if byte = 13 then { s with column := 0 }
  else if byte = 10 then s.scroll
  else if byte < 32 ∨ 126 < byte then s
  -- a full row is left by the next character only
  else if s.column < s.cols then s.write byte
  else { s.scroll with column := 0 }.write byte

end OneRow

def oneRow : Vt100 OneRow where
  new _ cols limit := { cols := cols.toNat, limit := limit.toNat, past := [], row := [], column := 0, offset := 0 }
  process screen bytes := bytes.foldl OneRow.put screen
  setSize screen _ cols :=
    { screen with cols := cols.toNat, row := screen.row.take cols.toNat, column := min screen.column (cols.toNat - 1) }
  setScrollback screen rows := { screen with offset := min rows (UInt64.ofNat screen.past.length) }
  scrollback := OneRow.offset
  contents screen :=
    let shown := if screen.offset = 0 then screen.row else screen.past.getD (screen.offset.toNat - 1) []
    (Utf8.text? shown).getD ""

theorem oneRow_documented : oneRow.Documented fun screen => UInt64.ofNat screen.past.length where
  position _ _ := rfl
  clamp screen rows := by
    simp only [oneRow, OneRow.mk.injEq, true_and, ← UInt64.toNat_inj, UInt64.toNat_min]
    omega
  reposition _ _ _ := rfl

def countdown : TerminalBuffer OneRow :=
  (TerminalBuffer.new oneRow (.new 1 12)).process oneRow (Utf8.bytes "zero\r\none\r\ntwo\r\nthree\r\nfour")

/-- Three lines up. -/
theorem search_presses_one : ∃ query, SearchQuery.parse "one" = .ok query ∧
    countdown.search oneRow query CopyMode.default.enter.offset .older = some 3 ∧
      ∃ k, countdown.hits oneRow query
          (CopyMode.default.enter.press .olderLine 1 (countdown.maxScrollbackOffset oneRow) k).offset = true ∧
        (∀ j < k, countdown.hits oneRow query
          (CopyMode.default.enter.press .olderLine 1 (countdown.maxScrollbackOffset oneRow) j).offset = false) ∧
        3 = countdown.clampScrollbackOffset oneRow
          (CopyMode.default.enter.press .olderLine 1 (countdown.maxScrollbackOffset oneRow) k).offset := by
  have hfound : countdown.search oneRow ⟨"one", by decide, by decide, by decide⟩ CopyMode.default.enter.offset .older =
      some 3 := by decide +kernel
  refine ⟨⟨"one", by decide, by decide, by decide⟩, by decide +kernel, hfound, ?_⟩
  exact ((TerminalBuffer.search_presses oneRow_documented countdown _ rfl 1 .older).1 3).mp hfound

/-! ### What a shell prints -/

/-- The documented behaviour of the terminal library: a byte stream may come in pieces. -/
structure Vt100.Streams {P : Type} (vt : Vt100 P) : Prop where
  nil : ∀ screen, vt.process screen [] = screen
  append : ∀ screen bytes bytes', vt.process screen (bytes ++ bytes') = vt.process (vt.process screen bytes) bytes'

theorem oneRow_streams : oneRow.Streams where
  nil _ := rfl
  append _ _ _ := List.foldl_append

/-- As long as nobody else touches the terminal, the loop hands it all that comes before the end or the first failure. -/
theorem readOutput_eq {P : Type} {vt : Vt100 P} (hs : vt.Streams) (events : List Event) (terminal : TerminalBuffer P) :
    readOutput vt false events terminal = (ending events, terminal.process vt (arrived events)) := by
  have feed : ∀ taken (s : TerminalBuffer P) bytes s', s = terminal.process vt taken →
      ((.ok (), s.process vt bytes) : Except IoError Unit × TerminalBuffer P) = (.ok (), s') →
        s' = terminal.process vt (taken ++ bytes) := by
    rintro taken s bytes s' rfl he
    cases he
    simp only [TerminalBuffer.process, hs.append]
  have hstart : terminal = terminal.process vt [] := by rw [TerminalBuffer.process, hs.nil]
  rcases pump_rule events feed hstart with ⟨hend, hwhole⟩ | ⟨_, _, _, _, _, _, _, hrefused, _⟩
  · exact Prod.ext hend hwhole
  · cases hrefused

namespace SharedTerminal

variable {P : Type} {vt : Vt100 P} {s t : SharedTerminal P} {a : Action} {actions past : List Action}

/-- What comes to a terminal: one byte after the other, and the sizes that it is given in between. -/
inductive Input where
  | byte (b : UInt8)
  | size (size : TerminalSize)
deriving DecidableEq

def feed (vt : Vt100 P) (terminal : TerminalBuffer P) : Input → TerminalBuffer P
  | .byte b => terminal.process vt [b]
  | .size size => terminal.resize vt size

/-- What actions bring to the terminal; behind a panic that is nothing. -/
def inputs : List Action → List Input
  | [] => []
  | .poison :: _ => []
  | .read (.data bytes) :: actions => bytes.map .byte ++ inputs actions
  | .read _ :: actions => inputs actions
  | .resize size :: actions => .size size :: inputs actions

/-- What the reads return. -/
def reads (actions : List Action) : List Event :=
  actions.filterMap fun
    | .read event => some event
    | _ => none

/-- The bytes among the inputs. -/
def bytes (inputs : List Input) : List UInt8 :=
  inputs.filterMap fun
    | .byte b => some b
    | .size _ => none

theorem foldl_feed_byte (hs : vt.Streams) (terminal : TerminalBuffer P) (bytes : List UInt8) :
    (bytes.map Input.byte).foldl (feed vt) terminal = terminal.process vt bytes := by
  induction bytes generalizing terminal with
  | nil => rw [List.map_nil, List.foldl_nil, TerminalBuffer.process, hs.nil]
  | cons b bytes ih =>
    rw [List.map_cons, List.foldl_cons, ih, feed, TerminalBuffer.process, TerminalBuffer.process, TerminalBuffer.process,
      ← hs.append, List.singleton_append]

theorem bytes_append (inputs inputs' : List Input) : bytes (inputs ++ inputs') = bytes inputs ++ bytes inputs' :=
  List.filterMap_append

theorem bytes_map (data : List UInt8) : bytes (data.map .byte) = data := by
  rw [bytes, List.filterMap_map]
  exact List.filterMap_some

theorem reads_concat (past : List Action) (event : Event) : reads (past ++ [.read event]) = reads past ++ [event] := by
  rw [reads, List.filterMap_append, ← reads]
  rfl

theorem inputs_append (past actions : List Action) :
    inputs (past ++ actions) = inputs past ++ if .poison ∈ past then [] else inputs actions := by
  induction past with
  | nil => simp [inputs]
  | cons a past ih =>
    cases a with
    | poison => simp [inputs]
    | resize size => simp [inputs, ih]
    | read event => cases event <;> simp [inputs, ih]

/-- What holds behind some actions. -/
structure Fed (vt : Vt100 P) (terminal : TerminalBuffer P) (past : List Action) (s : SharedTerminal P) : Prop where
  poisoned : s.poisoned = true ↔ .poison ∈ past
  terminal : s.terminal = (inputs past).foldl (feed vt) terminal
  ended : .poison ∉ past → s.ended = ending (reads past)
  bytes : .poison ∉ past → bytes (inputs past) = arrived (reads past)

theorem inputs_read (event : Event) : inputs [.read event] = (arrived [event]).map .byte := by
  cases event with
  | data bytes =>
    cases bytes with
    | nil => rfl
    | cons b bs => simp [inputs, arrived]
  | interrupted | failed => rfl

theorem readOutput_poisoned (event : Event) (terminal : TerminalBuffer P) :
    (readOutput vt true [event] terminal).2 = terminal := by
  cases event with
  | data bytes =>
    cases bytes with
    | nil => simp [readOutput, pump]
    | cons b bs => simp [readOutput, pump]
  | interrupted | failed => simp [readOutput, pump]

theorem Fed.step (hs : vt.Streams) {terminal : TerminalBuffer P} (h : Fed vt terminal past s)
    (hstep : s.step vt a = some t) : Fed vt terminal (past ++ [a]) t := by
  have hinputs := inputs_append past [a]
  cases a with
  | poison =>
    cases hstep
    rw [inputs, ite_self, List.append_nil] at hinputs
    have hin : Action.poison ∈ past ++ [.poison] := List.mem_append_right past (List.mem_singleton.mpr rfl)
    exact ⟨iff_of_true rfl hin, hinputs ▸ h.terminal, fun hno => absurd hin hno, fun hno => absurd hin hno⟩
  | resize size =>
    cases hstep
    have hreads : reads (past ++ [.resize size]) = reads past := by
      rw [reads, List.filterMap_append, ← reads]
      exact List.append_nil _
    have hmem : Action.poison ∈ past ++ [.resize size] ↔ .poison ∈ past := by simp
    cases hpoisoned : s.poisoned with
    | true =>
      have hin := h.poisoned.mp hpoisoned
      rw [if_pos hin, List.append_nil] at hinputs
      rw [if_pos rfl]
      refine ⟨h.poisoned.trans hmem.symm, hinputs ▸ h.terminal, fun hno => ?_, fun hno => ?_⟩
      · exact absurd (hmem.mpr hin) hno
      · exact absurd (hmem.mpr hin) hno
    | false =>
      have hout : Action.poison ∉ past := fun hin => by
        rw [h.poisoned.mpr hin] at hpoisoned
        cases hpoisoned
      rw [if_neg hout, inputs, inputs] at hinputs
      rw [if_neg Bool.false_ne_true]
      refine ⟨iff_of_false Bool.false_ne_true (fun hin => hout (hmem.mp hin)), ?_,
        fun _ => hreads.symm ▸ h.ended hout, fun _ => ?_⟩
      · rw [hinputs, List.foldl_append, ← h.terminal]
        rfl
      · rw [hinputs, bytes_append, hreads, ← h.bytes hout]
        exact List.append_nil _
  | read event =>
    simp only [SharedTerminal.step] at hstep
    split at hstep
    · next hreads =>
      obtain ⟨hnone, -⟩ := hreads
      cases hstep
      have hmem : Action.poison ∈ past ++ [.read event] ↔ .poison ∈ past := by simp
      cases hpoisoned : s.poisoned with
      | true =>
        have hin := h.poisoned.mp hpoisoned
        rw [if_pos hin, List.append_nil] at hinputs
        refine ⟨iff_of_true rfl (hmem.mpr hin), ?_, fun hno => absurd (hmem.mpr hin) hno,
          fun hno => absurd (hmem.mpr hin) hno⟩
        rw [hinputs, ← h.terminal]
        exact readOutput_poisoned event s.terminal
      | false =>
        have hout : Action.poison ∉ past := fun hin => by
          rw [h.poisoned.mpr hin] at hpoisoned
          cases hpoisoned
        -- the loop has not ended, so that the stream goes on with this read
        have hgoes : ending (reads past) = none := (h.ended hout).symm.trans hnone
        rw [if_neg hout, inputs_read] at hinputs
        rw [readOutput_eq hs]
        refine ⟨?_, ?_, fun _ => ?_, fun _ => ?_⟩
        · exact iff_of_false Bool.false_ne_true (fun hin => hout (hmem.mp hin))
        · rw [hinputs, List.foldl_append, ← h.terminal, foldl_feed_byte hs]
        · rw [reads_concat, ending_append hgoes]
        · rw [hinputs, bytes_append, bytes_map, h.bytes hout, reads_concat, arrived_append hgoes]
    · cases hstep

/-- The terminal of a pane while its reader and the threads that resize it take turns: it ends as one that is given the same
    bytes one by one, with the same sizes in between, however they were read. Unless a thread panics with the terminal in
    its hands, the bytes are all that came before the end of the output or the first failed read, and nothing behind. -/
theorem fed_bytewise (hs : vt.Streams) {terminal : TerminalBuffer P}
    (hr : Machine.run (SharedTerminal.step vt) ⟨terminal, false, none⟩ actions = some s) :
    s.terminal = (inputs actions).foldl (feed vt) terminal ∧
      (.poison ∉ actions → s.ended = ending (reads actions) ∧ bytes (inputs actions) = arrived (reads actions)) := by
  have hstart : Fed vt terminal [] ⟨terminal, false, none⟩ :=
    ⟨iff_of_false Bool.false_ne_true List.not_mem_nil, rfl, fun _ => rfl, fun _ => rfl⟩
  have hfed : Fed vt terminal actions s := Machine.run_past (fun _ _ _ _ h hstep => Fed.step hs h hstep) hstart hr
  exact ⟨hfed.terminal, fun hsound => ⟨hfed.ended hsound, hfed.bytes hsound⟩⟩

/-- A line that is read in two pieces, with the terminal made narrower in between. -/
theorem fed_bytewise_cut : ∃ s,
    Machine.run (SharedTerminal.step oneRow) ⟨.new oneRow (.new 1 4), false, none⟩
      [.read (.data [0x7a]), .resize (.new 1 2), .read (.data [0x6f, 0x6f, 13, 10]), .read (.data [])] = some s ∧
      s.ended = some (.ok ()) ∧
      s.terminal = [.byte 0x7a, .size (.new 1 2), .byte 0x6f, .byte 0x6f, .byte 13, .byte 10].foldl (feed oneRow)
        (.new oneRow (.new 1 4)) ∧ s.terminal.parser.past = [[0x6f], [0x7a, 0x6f]] := by
  let actions : List Action :=
    [.read (.data [0x7a]), .resize (.new 1 2), .read (.data [0x6f, 0x6f, 13, 10]), .read (.data [])]
  have hsome : (Machine.run (SharedTerminal.step oneRow) ⟨.new oneRow (.new 1 4), false, none⟩ actions).isSome := by
    simp [actions, Machine.run, SharedTerminal.step, readOutput_eq oneRow_streams, ending, content, bufferBytes]
  obtain ⟨s, hs⟩ := Option.isSome_iff_exists.mp hsome
  obtain ⟨hterminal, hends⟩ := fed_bytewise oneRow_streams hs
  have hended := (hends (by decide)).1
  refine ⟨s, hs, hended, hterminal, ?_⟩
  rw [hterminal]
  decide +kernel

end SharedTerminal

namespace Output

variable {output output' : Output} {bytes : List UInt8} {error : IoError}

def Reliable (output : Output) : Prop := ∀ outcome ∈ output.faults, outcome = none

@[simp] theorem attempt_written (output : Output) : output.attempt.2.written = output.written := by
  unfold attempt
  split <;> rfl

theorem Reliable.attempt (h : output.Reliable) : output.attempt.1 = none ∧ output.attempt.2.Reliable := by
  unfold Output.attempt
  split
  · exact ⟨rfl, h⟩
  · next outcome faults hf =>
    unfold Reliable at h
    rw [hf] at h
    exact ⟨h outcome List.mem_cons_self, fun other ho => h other (List.mem_cons_of_mem _ ho)⟩

theorem Reliable.put (h : output.Reliable) (bytes : List UInt8) :
    (output.put bytes).1 = .ok () ∧ (output.put bytes).2.Reliable := by
  obtain ⟨hw, h₁⟩ := h.attempt
  obtain ⟨hf, h₂⟩ :=
    (show Output.Reliable { output.attempt.2 with written := output.attempt.2.written ++ bytes } from h₁).attempt
  rcases hattempt : output.attempt with ⟨outcome, between⟩
  simp only [hattempt] at hw hf h₂
  subst hw
  rcases hattempt' : Output.attempt { between with written := between.written ++ bytes } with ⟨outcome', last⟩
  simp only [hattempt'] at hf h₂
  subst hf
  have hput : output.put bytes = (.ok (), { last with flushed := last.written }) := by
    simp only [Output.put, writeAll, hattempt, flush, hattempt']
  rw [hput]
  exact ⟨rfl, h₂⟩

theorem flush_written (output : Output) : output.flush.2.written = output.written := by
  unfold flush
  split <;> next h => simp [← attempt_written output, h]

theorem flush_ok (h : output.flush = (.ok (), output')) : output'.flushed = output'.written := by
  unfold flush at h
  split at h
  · cases h
  · cases h
    rfl

theorem writeAll_ok (h : output.writeAll bytes = (.ok (), output')) : output'.written = output.written ++ bytes := by
  unfold writeAll at h
  split at h
  · cases h
  · next ha =>
    cases h
    simp [← attempt_written output, ha]

theorem writeAll_error (h : output.writeAll bytes = (.error error, output')) :
    ∃ n, output'.written = output.written ++ bytes.take n := by
  unfold writeAll at h
  split at h
  · next fault _ ha =>
    cases h
    exact ⟨fault.accepted, by simp [← attempt_written output, ha]⟩
  · cases h

theorem put_ok (h : output.put bytes = (.ok (), output')) :
    output'.written = output.written ++ bytes ∧ output'.flushed = output'.written := by
  unfold put at h
  split at h
  · cases h
  · next between hw =>
    refine ⟨?_, flush_ok h⟩
    rw [← writeAll_ok hw, ← flush_written between, h]

theorem put_error (h : output.put bytes = (.error error, output')) :
    ∃ n, output'.written = output.written ++ bytes.take n := by
  unfold put at h
  split at h
  · next hw =>
    cases h
    exact writeAll_error hw
  · next between hw =>
    refine ⟨bytes.length, ?_⟩
    rw [List.take_length, ← writeAll_ok hw, ← flush_written between, h]

/-- What has been copied to an output. -/
structure Copied (start : Output) (taken : List UInt8) (output : Output) : Prop where
  written : output.written = start.written ++ taken
  flushed : taken ≠ [] → output.flushed = output.written
  reliable : start.Reliable → output.Reliable

end Output

/-- What is copied is a part of what has arrived, from its first byte on and in order. Unless the writer fails, it is all
    that has arrived before the end or the first failure, and none of it waits to be flushed. -/
theorem copyAndFlush_whole (events : List Event) (output : Output) : ∃ copied, copied <+: arrived events ∧
    (copyAndFlush events output).2.written = output.written ++ copied ∧
    ((copyAndFlush events output).1 = ending events ∧ copied = arrived events ∧
        (copied ≠ [] → (copyAndFlush events output).2.flushed = (copyAndFlush events output).2.written) ∨
      ¬output.Reliable ∧ ∃ error, (copyAndFlush events output).1 = some (.error error)) := by
  have feed : ∀ taken (s : Output) bytes s', Output.Copied output taken s → s.put bytes = (.ok (), s') →
      Output.Copied output (taken ++ bytes) s' := by
    rintro taken s bytes s' h hput
    obtain ⟨hmore, hflushed⟩ := Output.put_ok hput
    refine ⟨by rw [hmore, h.written, List.append_assoc], fun _ => hflushed, fun hreliable => ?_⟩
    have hput' := ((h.reliable hreliable).put bytes).2
    rwa [hput] at hput'
  have hstart : Output.Copied output [] output := ⟨(List.append_nil _).symm, fun h => absurd rfl h, id⟩
  rcases pump_rule events feed hstart with
    ⟨hend, h⟩ | ⟨before, bytes, after, u, error, hcut, h, hrefused, herror⟩
  · exact ⟨arrived events, List.prefix_rfl, h.written, Or.inl ⟨hend, rfl, h.flushed⟩⟩
  · obtain ⟨n, hpart⟩ := Output.put_error hrefused
    have hfaulty : ¬output.Reliable := fun hreliable => by
      have hput := ((h.reliable hreliable).put bytes).1
      rw [hrefused] at hput
      cases hput
    refine ⟨before ++ bytes.take n, ?_, ?_, Or.inr ⟨hfaulty, error, herror⟩⟩
    · rw [hcut, List.append_assoc, List.prefix_append_right_inj]
      exact (List.take_prefix n bytes).trans (List.prefix_append bytes after)
    · rw [← List.append_assoc, ← List.nil_append before, ← h.written]
      exact hpart

end NovaMux

import NovaMux.Core.Input

/-! No keystroke is lost by the prefix router: what it emits for an input, read back, is the input, and the
    bytes it forwards are those of the greedy parse of the input into prefixed pairs and single bytes. -/

namespace NovaMux.InputRouter

/-- The key that asks for a command behind the prefix. -/
def keyOf : MultiplexerCommand → UInt8
  | .splitHorizontal => '%'.toUInt8
  | .splitVertical => '"'.toUInt8
  | .focusNext => 'o'.toUInt8
  | .closeFocused => 'x'.toUInt8
  | .detach => 'd'.toUInt8
  | .enterCopyMode => '['.toUInt8
  | .quit => 'q'.toUInt8

/-- The actions of an input that is fed one byte at a time, and the router behind it. -/
def feed (router : InputRouter) : List UInt8 → List InputAction × InputRouter
  | [] => ([], router)
  | byte :: input =>
    let (action, router) := router.route byte
    let (actions, router) := feed router input
    (action :: actions, router)

/-- The input bytes behind an action. A lone prefix is only ever forwarded for a doubled one. -/
def typed : InputAction → List UInt8
  | .pending => []
  | .forward bytes => if bytes = [commandPrefix] then [commandPrefix, commandPrefix] else bytes
  | .command command => [commandPrefix, keyOf command]

/-- The bytes that an action delivers to the focused pane. -/
def delivered : InputAction → List UInt8
  | .forward bytes => bytes
  | .pending | .command _ => []

/-! ### The reference parse -/

/-- A prefix with the key behind it, or a byte on its own. -/
inductive Token where
  | prefixed (key : UInt8)
  | single (byte : UInt8)

namespace Token

/-- Takes a pair at each prefix that has a key behind it. -/
def parse : List UInt8 → List Token
  | [] => []
  | [byte] => [.single byte]
  | byte :: key :: input =>
    if byte = commandPrefix then .prefixed key :: parse input else .single byte :: parse (key :: input)

/-- A command key is not delivered, and a doubled prefix is delivered once. -/
def delivered : Token → List UInt8
  | .single byte => [byte]
  | .prefixed key =>
    if (commandKey key).isSome then [] else if key = commandPrefix then [commandPrefix] else [commandPrefix, key]

end Token

/-! ### Steps -/

variable {router : InputRouter} {byte : UInt8}

/-- The bytes that a router has taken and not yet emitted. -/
def held (router : InputRouter) : List UInt8 := if router.prefixPending then [commandPrefix] else []

theorem commandKey_eq_some {key : UInt8} {command : MultiplexerCommand} :
    commandKey key = some command ↔ key = keyOf command := by
  refine ⟨fun h => ?_, fun h => ?_⟩
  · unfold commandKey at h
    iterate 7
      split at h
      · obtain rfl := Option.some.inj h
        assumption
    cases h
  · subst h
    cases command <;> rfl

theorem route_prefix : route ⟨false⟩ commandPrefix = (.pending, ⟨true⟩) := rfl

theorem route_single (hb : byte ≠ commandPrefix) : route ⟨false⟩ byte = (.forward [byte], ⟨false⟩) := by
  simp [route, hb]

theorem route_command {command : MultiplexerCommand} (hk : commandKey byte = some command) :
    route ⟨true⟩ byte = (.command command, ⟨false⟩) := by
  simp [route, hk]

theorem route_unknown (hk : commandKey byte = none) : route ⟨true⟩ byte =
    (.forward (if byte = commandPrefix then [commandPrefix] else [commandPrefix, byte]), ⟨false⟩) := by
  simp [route, hk]

/-- What a step emits, with what it still holds, is what it held with the byte behind it. -/
theorem typed_route (router : InputRouter) (byte : UInt8) :
    typed (router.route byte).1 ++ held (router.route byte).2 = held router ++ [byte] := by
  obtain ⟨pending⟩ := router
  cases pending with
  | false =>
    by_cases hb : byte = commandPrefix
    · rw [hb, route_prefix]
      rfl
    · rw [route_single hb]
      simp [typed, held, hb]
  | true =>
    cases hk : commandKey byte with
    | some command =>
      rw [route_command hk, commandKey_eq_some.mp hk]
      rfl
    | none =>
      rw [route_unknown hk]
      by_cases hb : byte = commandPrefix
      · simp [typed, held, hb]
      · simp [typed, held, hb]

theorem Token.parse_cons (hb : byte ≠ commandPrefix) (input : List UInt8) :
    parse (byte :: input) = .single byte :: parse input := by
  cases input with
  | nil => rfl
  | cons key input => rw [parse, if_neg hb]

theorem Token.parse_pair (key : UInt8) (input : List UInt8) :
    parse (commandPrefix :: key :: input) = .prefixed key :: parse input := by
  rw [parse, if_pos rfl]

/-- A step delivers what the reference parse does up to what it still holds. -/
theorem delivered_route (router : InputRouter) (byte : UInt8) (input : List UInt8) :
    (Token.parse (held router ++ byte :: input)).flatMap Token.delivered =
      delivered (router.route byte).1 ++
        (Token.parse (held (router.route byte).2 ++ input)).flatMap Token.delivered := by
  obtain ⟨pending⟩ := router
  cases pending with
  | false =>
    by_cases hb : byte = commandPrefix
    · rw [hb, route_prefix]
      rfl
    · rw [route_single hb]
      simp [delivered, held, Token.parse_cons hb, Token.delivered]
  | true =>
    have hpair : Token.parse (held ⟨true⟩ ++ byte :: input) = .prefixed byte :: Token.parse input :=
      Token.parse_pair byte input
    rw [hpair]
    cases hk : commandKey byte with
    | some command =>
      rw [route_command hk]
      simp [delivered, held, Token.delivered, hk]
    | none =>
      rw [route_unknown hk]
      simp [delivered, held, Token.delivered, hk]

/-! ### Whole inputs -/

theorem flush_eq_held (router : InputRouter) : (router.finish).1.getD [] = held router := by
  unfold finish held
  split <;> rfl

theorem feed_cons (router : InputRouter) (byte : UInt8) (input : List UInt8) :
    router.feed (byte :: input) =
      ((router.route byte).1 :: ((router.route byte).2.feed input).1, ((router.route byte).2.feed input).2) := rfl

theorem typed_feed (router : InputRouter) (input : List UInt8) :
    (router.feed input).1.flatMap typed ++ held (router.feed input).2 = held router ++ input := by
  induction input generalizing router with
  | nil => simp [feed]
  | cons byte input ih =>
    rw [feed_cons, List.flatMap_cons, List.append_assoc, ih, ← List.append_assoc, typed_route, List.append_assoc]
    rfl

theorem delivered_feed (router : InputRouter) (input : List UInt8) :
    (router.feed input).1.flatMap delivered ++ held (router.feed input).2 =
      (Token.parse (held router ++ input)).flatMap Token.delivered := by
  induction input generalizing router with
  | nil =>
    obtain ⟨pending⟩ := router
    cases pending <;> rfl
  | cons byte input ih =>
    rw [feed_cons, List.flatMap_cons, List.append_assoc, ih, delivered_route]

/-- The actions for an input, each replaced by the bytes behind it, and the flush at its end are the input;
    the bytes delivered are those of the reference parse. -/
theorem lossless (input : List UInt8) :
    (new.feed input).1.flatMap typed ++ ((new.feed input).2.finish).1.getD [] = input ∧
      (new.feed input).1.flatMap delivered ++ ((new.feed input).2.finish).1.getD [] =
        (Token.parse input).flatMap Token.delivered := by
  rw [flush_eq_held]
  exact ⟨typed_feed new input, delivered_feed new input⟩

end NovaMux.InputRouter

import TexFormula.Diagnostic.Syntactic
import TexFormula.Parser.Cursor
import TexFormula.Parser.Rules

/-!
# What a parser holds and the steps it is made of

A parser holds a cursor, how many levels it is in, and how many bare bars are open around it. It
stops for one of two causes: the tokens are in error, or it has used up the steps it was given.
Whatever the cause, it keeps what it held at that moment.

* `ParserState`, `Halt`, `ParseM` : what is held, why a run stops, and runs;
* `current`, `currentKind`, `advance`, `expect` : the current token;
* `reject`, `refuseIf`, `unexpected` : errors;
* `enter`, `leave`, `nested` : levels of nesting;
* `withBars` : reading with another number of open bars.
-/

namespace TexFormula

structure ParserState where
  cursor : Cursor
  depth : Nat
  /-- How many bare bars are open, so that a bar closes one instead of starting a factor. -/
  openBars : Nat
deriving DecidableEq

def ParserState.ofTokens (tokens : List Token) : ParserState := ⟨.ofTokens tokens, 0, 0⟩

/-- Why a run of the parser stops without a result. -/
inductive Halt
  | rejected (error : SyntaxError)
  | exhausted
deriving DecidableEq

abbrev ParseM := EStateM Halt ParserState

instance decidableEqResult {ε σ α : Type} [DecidableEq ε] [DecidableEq σ] [DecidableEq α] :
    DecidableEq (EStateM.Result ε σ α)
  | .ok a s, .ok b t => decidable_of_iff (a = b ∧ s = t) (by simp)
  | .error halt s, .error found t => decidable_of_iff (halt = found ∧ s = t) (by simp)
  | .ok _ _, .error _ _ | .error _ _, .ok _ _ => isFalse nofun

namespace ParseM

def state : ParseM ParserState := get

def exhausted {α : Type} : ParseM α := throw .exhausted

def current : ParseM Token := do return (← get).cursor.current

def currentKind : ParseM Kind := do return (← get).cursor.current.kind

def peek (n : Nat) : ParseM Token := do return (← get).cursor.peek n

/-- Passes the current token and returns it; a token of kind `eof` is returned but not passed. -/
def advance : ParseM Token := do
  let state ← get
  set { state with cursor := state.cursor.advance }
  return state.cursor.current

/-- Stops with an error pinned to the given token. -/
def reject {α : Type} (fault : SyntaxFault) (token : Token) : ParseM α :=
  throw (.rejected ⟨fault, token⟩)

def rejectHere {α : Type} (fault : SyntaxFault) : ParseM α := do reject fault (← current)

def unexpected {α : Type} : ParseM α := do
  let token ← current
  reject (if token.kind = .eof then .unexpectedEndOfInput else .unexpectedToken token.text) token

def refuseIf (refused : Bool) (fault : SyntaxFault) (token : Token) : ParseM Unit :=
  if refused then reject fault token else pure ()

/-- Stops with the given error, unless the current token is of the given kind. -/
def demandOr (kind : Kind) (fault : Token → SyntaxFault) : ParseM Unit := do
  let token ← current
  refuseIf (token.kind != kind) (fault token) token

def demand (kind : Kind) : ParseM Unit :=
  demandOr kind fun found => .expectedToken kind.spelling found.text

/-- Passes a token of the given kind, or stops with the given error. -/
def expectOr (kind : Kind) (fault : Token → SyntaxFault) : ParseM Token := do
  demandOr kind fault
  advance

def expect (kind : Kind) : ParseM Token := do
  demand kind
  advance

def close (opened : Token) (kind : Kind) : ParseM Token :=
  expectOr kind fun found => .unmatchedDelimiter opened.text kind.spelling found.text

/-- Goes one level deeper, unless that is over the limit. -/
def enter (limit : Nat) : ParseM Unit := do
  let state ← get
  if limit ≤ state.depth then rejectHere (.nestingTooDeep limit)
  else set { state with depth := state.depth + 1 }

def leave : ParseM Unit := modify fun state => { state with depth := state.depth - 1 }

def nested {α : Type} (limit : Nat) (inner : ParseM α) : ParseM α := do
  enter limit
  let result ← inner
  leave
  return result

def setBars (bars : Nat) : ParseM Unit := modify fun state => { state with openBars := bars }

/-- Reads with a number of open bars that is found from the one outside, which then comes back. -/
def withBars {α : Type} (bars : Nat → Nat) (inner : ParseM α) : ParseM α := do
  let outside := (← get).openBars
  setBars (bars outside)
  let result ← inner
  setBars outside
  return result

/-! ## What the steps do -/

section
variable {α : Type}

theorem demandOr_eq (kind : Kind) (fault : Token → SyntaxFault) (s : ParserState) : demandOr kind fault s =
    if s.cursor.current.kind = kind then .ok () s
    else .error (.rejected ⟨fault s.cursor.current, s.cursor.current⟩) s := by
  show refuseIf (s.cursor.current.kind != kind) _ _ s = _
  by_cases h : s.cursor.current.kind = kind
  · rw [if_pos h, h, bne_self_eq_false]
    rfl
  · rw [if_neg h, bne_iff_ne.2 h]
    rfl

theorem enter_eq (limit : Nat) (s : ParserState) : enter limit s =
    if limit ≤ s.depth then .error (.rejected ⟨.nestingTooDeep limit, s.cursor.current⟩) s
    else .ok () { s with depth := s.depth + 1 } := by
  show (if limit ≤ s.depth then _ else _ : ParseM Unit) s = _
  split
  · rfl
  · rfl

theorem nested_eq (limit : Nat) (m : ParseM α) (s : ParserState) : nested limit m s =
    if limit ≤ s.depth then .error (.rejected ⟨.nestingTooDeep limit, s.cursor.current⟩) s
    else match m { s with depth := s.depth + 1 } with
      | .ok a t => .ok a { t with depth := t.depth - 1 }
      | .error halt t => .error halt t := by
  show EStateM.bind (enter limit) (fun _ => EStateM.bind m _) s = _
  unfold EStateM.bind
  rw [enter_eq]
  by_cases hd : limit ≤ s.depth
  · rw [if_pos hd, if_pos hd]
  · rw [if_neg hd, if_neg hd]
    dsimp only
    cases m { s with depth := s.depth + 1 } <;> rfl

theorem nested_congr {limit : Nat} {m m' : ParseM α} {s : ParserState}
    (h : m { s with depth := s.depth + 1 } = m' { s with depth := s.depth + 1 }) :
    nested limit m s = nested limit m' s := by rw [nested_eq, nested_eq, h]

theorem withBars_eq (bars : Nat → Nat) (m : ParseM α) (s : ParserState) : withBars bars m s =
    match m { s with openBars := bars s.openBars } with
      | .ok a t => .ok a { t with openBars := s.openBars }
      | .error halt t => .error halt t := by
  show EStateM.bind m _ { s with openBars := bars s.openBars } = _
  unfold EStateM.bind
  cases m { s with openBars := bars s.openBars } <;> rfl

theorem withBars_congr {bars : Nat → Nat} {m m' : ParseM α} {s : ParserState}
    (h : m { s with openBars := bars s.openBars } = m' { s with openBars := bars s.openBars }) :
    withBars bars m s = withBars bars m' s := by rw [withBars_eq, withBars_eq, h]

end

end ParseM

/-! ## Looking at the rules -/

namespace ParserState

def level (state : ParserState) (rules : Rules) : Level := rules.level state.cursor.current.kind

/-- Whether the current token starts a factor that is multiplied without a sign. -/
def atImplicitOperand (state : ParserState) (rules : Rules) : Bool :=
  let kind := state.cursor.current.kind
  (rules.primary? kind).isSome && !(kind == .bar && 0 < state.openBars)

end ParserState

end TexFormula

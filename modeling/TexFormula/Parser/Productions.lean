import TexFormula.Parser.Interpretation
import TexFormula.Parser.Name
import TexFormula.Token.Lexer

/-!
# The productions of the grammar

One definition for each part of the grammar. Wherever a production reads another one it calls
`again`, so none of the definitions here is recursive but for the loops, and each loop counts down
the steps it may take. `Read.body` puts them together.

* `comparison` to `primary` : the operators, the loosest first;
* `number` to `operatorname` : the nine ways to read a primary;
* `grouping`, `index`, `argument` : the parts that may hold a list.
-/

namespace TexFormula

open ParseM Interpretation

/-- The tokens that spell a symbol without anything around it. -/
def Kind.isBareSymbol : Kind → Bool
  | .identifier | .symbol | .transpose | .mathrm => true
  | _ => false

/-- Digits, and a point with digits after it if there is one. -/
def isDecimal (text : String) : Bool :=
  match text.toList with
  | [] => false
  | c :: cs => c.isDigit && numberTail cs == cs.length

def Kind.closing? : Kind → Option Kind
  | .openParen => some .closeParen
  | .openCurly => some .closeCurly
  | .bar => some .bar
  | _ => none

namespace Read

section
variable {m : Type → Type} [Monad m] [MonadLiftT ParseM m] [Interpretation m]
variable (rules : Rules) (again : Production → m Expr)

/-! ## Operators -/

/-- The name to assign to, if a symbol was read that nothing stands around. -/
def assignmentTarget (start : Token) (left : Expr) : ParseM String :=
  match left.asSymbol?, start.kind.isBareSymbol with
  | some name, true => pure name
  | _, _ => reject (.invalidAssignmentTarget start.text) start

def assignment (start : Token) (left : Expr) : m Expr := do
  let target ← assignmentTarget start left
  let _ ← advance
  let value ← deeper rules.limit (again .comparison)
  return .assignment target value

/-- At most one relation between two expressions, or an assignment. -/
def comparison : m Expr := do
  let start ← current
  let left ← again .expression
  if (← currentKind) = .assign then assignment rules again start left
  else if (← state).level rules = .relational then
    let operator ← advance
    let right ← again .expression
    return .comparison (← operationOf operator) left right
  else return left

/-- Terms with additive operators between them, grouped to the left. -/
def sumTail : Nat → Expr → m Expr
  | 0, _ => exhausted
  | steps + 1, left => do
    if (← state).level rules = .additive then
      let operator ← advance
      let right ← again .term
      sumTail steps (Expr.binary (← operationOf operator) left right false)
    else return left

def expression (steps : Nat) : m Expr := do sumTail rules again steps (← again .term)

/-- The number before the current token, if that is a number too. -/
def numberBefore? (cursor : Cursor) : Option Token :=
  if cursor.current.kind = .number then cursor.previous?.filter (·.kind == .number) else none

def refuseSecondNumber : ParseM Unit := do
  let cursor := (← state).cursor
  match numberBefore? cursor with
  | some first => reject (.ambiguousNumbers first.text cursor.current.text) cursor.current
  | none => pure ()

/--
Factors with multiplicative operators or nothing between them, grouped to the left. A sign may be
followed by a minus, neighbours may not; a number next to a number is refused.
-/
def productTail : Nat → Expr → m Expr
  | 0, _ => exhausted
  | steps + 1, left => do
    if (← state).level rules = .multiplicative then
      let operator ← advance
      let right ← again .factor
      productTail steps (.binary (← operationOf operator) left right false)
    else if (← state).atImplicitOperand rules then
      refuseSecondNumber
      let right ← neighbour (again .power)
      productTail steps (.product left right)
    else return left

def term (steps : Nat) : m Expr := do productTail rules again steps (← again .factor)

/-- A power, with at most one minus sign before it. -/
def factor : m Expr := do
  if (← currentKind) = .dash then
    let _ ← advance
    return .negate (← again .power)
  else again .power

/-- Raises to an exponent; the exponent `T` alone means the transpose. -/
def raise (operator : Token) (base exponent : Expr) : m Expr := do
  if exponent.asSymbol? = some "T" then return .transpose base
  else return .binary (← operationOf operator) base exponent false

def powerTail : Nat → Expr → m Expr
  | 0, _ => exhausted
  | steps + 1, left => do
    if (← state).level rules = .power then
      let operator ← advance
      let exponent ← again .primary
      powerTail steps (← raise operator left exponent)
    else return left

def power (steps : Nat) : m Expr := do powerTail rules again steps (← again .subscript)

/-! ## Groupings -/

/-- The values after the first of a list; `allowed` says whether there may be any. -/
def listTail (allowed : Bool) : Nat → m (List Expr)
  | 0 => exhausted
  | steps + 1 => do
    let token ← current
    if token.kind = .comma then
      refuseIf (!allowed) (.unexpectedList token.text) token
      let _ ← advance
      let value ← again .comparison
      return value :: (← listTail allowed steps)
    else return []

def listed (allowed : Bool) (steps : Nat) : m (List Expr) := do
  let value ← again .comparison
  return value :: (← listTail again allowed steps)

/-- How many bars are open inside a grouping: one more in bare bars, none in other delimiters. -/
def barsInside (opening : Token) (left? : Option Token) (outside : Nat) : Nat :=
  if opening.kind = .bar ∧ left?.isNone then outside + 1 else 0

def takeLeft : ParseM (Option Token) := do
  if (← currentKind) = .left then return some (← advance) else return none

def closeLeft : Option Token → ParseM Unit
  | some left => do
    let _ ← close left .right
  | none => pure ()

/-- What delimiters make of the values between them: bars stand for an operation on these. -/
def enclose (opening : Token) (values : List Expr) : m (List Expr) := do
  if opening.kind = .bar then return [.call (← operationOf opening) values] else return values

/--
What stands in parentheses, braces or bars, with `\left` and `\right` before both delimiters or
neither. Only parentheses may hold a list, and only if `allowList`. A bar closes the group that a
bare bar opened; inside any other delimiters no bar is open.
-/
def grouping (allowList : Bool) (steps : Nat) : m (List Expr) := delimited do
  let left? ← takeLeft
  let opening ← current
  match opening.kind.closing? with
  | none => reject (.expectedToken Kind.openParen.spelling opening.text) opening
  | some closing =>
    let _ ← advance
    let values ← barred (barsInside opening left?)
      (listed again (opening.kind == .openParen && allowList) steps)
    closeLeft left?
    let _ ← close opening closing
    enclose opening values

def groupingValue (steps : Nat) : m Expr := do
  match (← grouping again false steps).getLast? with
  | some value => return value
  | none => noValue

/-- Whether a parenthesis opens here, with or without a `\left` before it. -/
def atParenthesis : ParseM Bool := do
  let cursor := (← state).cursor
  return cursor.current.kind == .openParen || cursor.current.kind == .left && (cursor.peek 1).kind == .openParen

def parenthesized (steps : Nat) : m (List Expr) := deeper rules.limit (grouping again true steps)

/-- What a function is applied to: a list in parentheses, or one primary. -/
def argument (steps : Nat) : m (List Expr) := do
  if ← atParenthesis then parenthesized rules again steps else return [← again .primary]

/-! ## Subscripts -/

/--
Whether braces open here around two or more letter-like tokens, the first of them no number, and
nothing else.
-/
def atBracedName (cursor : Cursor) : Bool :=
  let run := (cursor.fragments 1).length
  cursor.current.kind == .openCurly && 2 ≤ run && (cursor.peek 1).kind != .number &&
    (cursor.peek (run + 1)).kind == .closeCurly

/-- What follows an underscore: a name in braces, a list in parentheses, or one primary. -/
def index (steps : Nat) : m (List Expr) := do
  if atBracedName (← state).cursor then return [.symbol (← bracedName)]
  else argument rules again steps

def subscriptTail : Nat → Expr → m Expr
  | 0, _ => exhausted
  | steps + 1, left => do
    if (← state).level rules = .subscript then
      let _ ← advance
      subscriptTail steps (.accessor left (← index rules again steps))
    else return left

def subscript (steps : Nat) : m Expr := do subscriptTail rules again steps (← again .primary)

/-! ## Primaries -/

/-- Whatever the current token starts, one level deeper. -/
def primary : m Expr := do
  match rules.primary? (← currentKind) with
  | some production => deeper rules.limit (again production)
  | none => unexpected

def number : m Expr := do
  let token ← advance
  if isDecimal token.text then return .number token.text else noNumber token

/-- A letter, or a named symbol under the name it resolves to. -/
def symbol : m Expr := do
  let token ← advance
  if token.kind = .symbol then
    match symbolName? token.text with
    | some name => return .symbol name
    | none => noSymbol token
  else return .symbol token.text

/-- An upright name: a truth value, or a symbol. -/
def mathrm : ParseM Expr := do
  let _ ← advance
  match ← bracedName with
  | "True" => return .boolean true
  | "False" => return .boolean false
  | name => return .symbol name

/-- A bold question mark, which stands for no value. -/
def mathbf : ParseM Expr := do
  let _ ← advance
  let _ ← expect .openCurly
  let _ ← expect .question
  let _ ← expect .closeCurly
  return .undefined

def rowTail : Nat → m (List Expr)
  | 0 => exhausted
  | steps + 1 => do
    if (← currentKind) = .ampersand then
      let _ ← advance
      let entry ← again .expression
      return entry :: (← rowTail steps)
    else return []

def row (steps : Nat) : m Row := do
  let entry ← again .expression
  return .ofEntries (entry :: (← rowTail again steps))

/-- The rows of a matrix up to its end; the last one may be closed by a row break too. -/
def rows (opening : Token) : Nat → m (List Row)
  | 0 => exhausted
  | steps + 1 => do
    let first ← row again steps
    match ← currentKind with
    | .endEnv => return [first]
    | .rowBreak =>
      let _ ← advance
      if (← currentKind) = .endEnv then return [first]
      else return first :: (← rows opening steps)
    | _ =>
      rejectHere (.unmatchedDelimiter opening.text Kind.endEnv.spelling (← current).text)

/-- A matrix. Its rows may differ in length, and no bar is open inside. -/
def matrix (steps : Nat) : m Expr := do
  let opening ← advance
  environmentName
  let result ← barred (fun _ => 0) (rows again opening steps)
  let _ ← expect .endEnv
  environmentName
  return .matrix result

/-- What a fraction is divided by: a value in braces, or one primary. -/
def denominator (steps : Nat) : m Expr := do
  if (← currentKind) = .openCurly then groupingValue again steps else again .primary

def frac (steps : Nat) : m Expr := do
  let operator ← advance
  demand .openCurly
  let numerator ← groupingValue again steps
  let denominator ← denominator again steps
  return .binary (← operationOf operator) numerator denominator false

/-- The base of a logarithm, read after an underscore; there is none for other functions. -/
def base (function : Token) : m (List Expr) := do
  if function.kind = .log ∧ (← currentKind) = .underscore then
    let _ ← advance
    return [← again .primary]
  else return []

/-- A named function with its argument; the base of a logarithm comes after the other arguments. -/
def function (steps : Nat) : m Expr := do
  let token ← advance
  let name ← operationOf token
  let base ← base again token
  let arguments ← argument rules again steps
  return .call name (arguments ++ base)

def operatorname (steps : Nat) : m Expr := do
  let _ ← advance
  let name ← bracedName
  return .call name (← argument rules again steps)

/-- Reads one production, given how to read the others and how often its loops may turn. -/
def body (steps : Nat) : Production → m Expr
  | .comparison => comparison rules again
  | .expression => expression rules again steps
  | .term => term rules again steps
  | .factor => factor again
  | .power => power rules again steps
  | .subscript => subscript rules again steps
  | .primary => primary rules again
  | .number => number
  | .symbol => symbol
  | .mathrm => mathrm
  | .mathbf => mathbf
  | .grouping => groupingValue again steps
  | .matrix => matrix again steps
  | .frac => frac again steps
  | .function => function rules again steps
  | .operatorname => operatorname rules again steps

end

end Read

end TexFormula

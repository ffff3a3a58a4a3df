import TexFormula.Parser.Productions

/-!
# Running the parser

`Read.production` ties the productions together, counting down the steps it may take, and
`Read.run` gives it enough of them: reading goes one step deeper only by passing a token or by
entering a level, and eight productions at most lie between two such moments. Under the rules of the
grammar a run is never exhausted. It can be only if rules of another making let a primary start at
the end of the input, where nothing is passed.

* `Production.run`, `Production.runGrouping` : one production from the current token on;
* `wholeInput` : a whole stream as one expression.
-/

namespace TexFormula

open ParseM

/-- As many steps as any reading from this state on takes. -/
def Production.enough (rules : Rules) (state : ParserState) : Nat :=
  8 * (state.cursor.ahead.length + (rules.limit - state.depth) + 2)

/-! ## In any monad -/

namespace Read

variable {m : Type → Type} [Monad m] [MonadLiftT ParseM m] [Interpretation m]

/-- Reads a production in the given number of steps. -/
def production (rules : Rules) : Nat → Production → m Expr
  | 0, _ => exhausted
  | steps + 1, p => body rules (production rules steps) steps p

def run (rules : Rules) (p : Production) : m Expr := do
  production rules (Production.enough rules (← state)) p

/-- Reads a comparison and stops if any token is left before the end. -/
def wholeInput (rules : Rules) : m Expr := do
  let result ← run rules .comparison
  if (← currentKind) = .eof then return result else unexpected

end Read

/-! ## Plainly -/

namespace Production

def read (rules : Rules) (steps : Nat) (production : Production) : ParseM Expr := Read.production rules steps production

def run (rules : Rules) (production : Production) : ParseM Expr := Read.run rules production

/-- Reads what stands in delimiters from the current token on. -/
def runGrouping (rules : Rules) (allowList : Bool) : ParseM (List Expr) := do
  let steps := enough rules (← state)
  Read.grouping (read rules steps) allowList steps

end Production

def wholeInput (rules : Rules) : ParseM Expr := Read.wholeInput rules

end TexFormula

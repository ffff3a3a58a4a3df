import TexFormula.Expr.Basic
import TexFormula.Parser.State

/-!
# Monads to read in

The productions of the grammar are written for any monad that can run the steps of the parser and that says
what becomes of a reading inside a level, inside bars, next to a factor and inside delimiters, and what is done
where one of the parser's own checks fails. `ParseM` is the plain one: there a check that fails stops the run.
-/

namespace TexFormula

/-- What a monad needs besides the steps of the parser, so that the productions can be read in it. -/
class Interpretation (m : Type → Type) where
  deeper {α : Type} : Nat → m α → m α
  barred {α : Type} : (Nat → Nat) → m α → m α
  /-- Reads a factor that stands next to another. -/
  neighbour {α : Type} : m α → m α
  /-- Reads what stands in delimiters, these included. -/
  delimited {α : Type} : m α → m α
  noOperation : Token → m String
  noNumber : Token → m Expr
  noSymbol : Token → m Expr
  noValue : m Expr

instance : Interpretation ParseM where
  deeper := ParseM.nested
  barred := ParseM.withBars
  neighbour inner := inner
  delimited inner := inner
  noOperation token := ParseM.reject (.unexpectedToken token.text) token
  noNumber token := ParseM.reject (.unexpectedToken token.text) token
  noSymbol token := ParseM.reject (.unexpectedToken token.text) token
  noValue := ParseM.unexpected

def operationOf {m : Type → Type} [Monad m] [Interpretation m] (token : Token) : m String :=
  match token.kind.operation? with
  | some operation => pure operation
  | none => Interpretation.noOperation token

end TexFormula

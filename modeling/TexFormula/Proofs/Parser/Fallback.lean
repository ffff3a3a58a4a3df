import TexFormula.Parser.Run

/-!
# Parsers with another fallback

Four times the parser checks what is always so of tokens that come from a text: that a token stands for an
operation where one is asked for, that a number is written as one, that a named symbol resolves to a name, and that
a grouping holds a value. `Fallback` says what to do where one of these checks fails, and is all that the parsers
here differ in.

* `Lenient fallback` : runs of the parser with the given fallback, as a monad to read in;
* `Fallback.wholeInput` : the parser with the given fallback;
* `Fallback.refusing` : the fallback of the parser itself, by `Fallback.wholeInput_refusing`.
-/

namespace TexFormula

/-- What to do where one of the four checks fails. -/
structure Fallback where
  noOperation : Token → ParseM String
  noNumber : Token → ParseM Expr
  noSymbol : Token → ParseM Expr
  noValue : ParseM Expr

/-- A run of the parser with the given fallback. -/
def Lenient (_ : Fallback) (α : Type) : Type := ParseM α

variable {fallback : Fallback}

instance : Monad (Lenient fallback) := inferInstanceAs (Monad ParseM)

instance : MonadLiftT ParseM (Lenient fallback) := ⟨fun run => run⟩

instance : Interpretation (Lenient fallback) where
  deeper limit inner := ParseM.nested limit inner
  barred bars inner := ParseM.withBars bars inner
  neighbour inner := inner
  delimited inner := inner
  noOperation := fallback.noOperation
  noNumber := fallback.noNumber
  noSymbol := fallback.noSymbol
  noValue := fallback.noValue

namespace Fallback

def wholeInput (fallback : Fallback) (rules : Rules) : ParseM Expr :=
  (Read.wholeInput rules : Lenient fallback Expr)

/-- The parser calls the token unexpected. -/
def refusing : Fallback where
  noOperation token := ParseM.reject (.unexpectedToken token.text) token
  noNumber token := ParseM.reject (.unexpectedToken token.text) token
  noSymbol token := ParseM.reject (.unexpectedToken token.text) token
  noValue := ParseM.unexpected

/-- With its own fallback this is the parser itself. -/
theorem wholeInput_refusing (rules : Rules) : refusing.wholeInput rules = TexFormula.wholeInput rules := rfl

end Fallback

end TexFormula

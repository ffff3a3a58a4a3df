import TexFormula.Diagnostic.Syntactic
import TexFormula.Diagnostic.Lexical

/-!
# Diagnostics

`Diagnostic` is what can be wrong with a formula, in its characters or in its tokens. Its name,
wording, advice and position are those of the error inside.
-/

namespace TexFormula

/-- An error in the characters or in the tokens of a formula. -/
inductive Diagnostic
  | lexical (error : LexError)
  | syntactic (error : SyntaxError)
deriving DecidableEq

namespace Diagnostic

def name : Diagnostic → String
  | lexical error => error.fault.name
  | syntactic error => error.fault.name

def message : Diagnostic → String
  | lexical error => error.message
  | syntactic error => error.message

def tip? : Diagnostic → Option String
  | lexical error => error.fault.tip?
  | syntactic error => error.fault.tip?

def position : Diagnostic → Position
  | lexical error => error.position
  | syntactic error => error.token.position

end Diagnostic

end TexFormula

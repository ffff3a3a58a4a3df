import TexFormula.Diagnostic.Basic
import TexFormula.Parser.Parse
import TexFormula.Token.Lexer

/-!
# Reading a formula

`parseFormula` takes the text of a formula to its expression tree: characters to tokens, tokens to a
tree, with a `Diagnostic` from whichever of the two steps fails first.
-/

namespace TexFormula

/-- The tree of a formula that nests at most `limit` levels deep. -/
def parseFormulaWithin (limit : Nat) (source : String) : Except Diagnostic Expr :=
  match tokenize source with
  | .error error => .error (.lexical error)
  | .ok tokens => (parseTokens limit tokens).mapError .syntactic

def parseFormula (source : String) : Except Diagnostic Expr := parseFormulaWithin defaultLimit source

end TexFormula

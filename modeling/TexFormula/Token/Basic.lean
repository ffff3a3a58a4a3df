import TexFormula.Source.Position
import TexFormula.Token.Vocabulary

/-!
# Tokens

* `Token` : a kind, the text it was written with and where it stands;
* `Token.fragment?` : what a token adds to a name spelled over several tokens;
* `Token.summary`, `Token.listing` : the texts that show a token.
-/

namespace TexFormula

structure Token where
  kind : Kind
  text : String
  span : Span
deriving DecidableEq

namespace Token

def position (token : Token) : Position := token.span.start

/-- What a letter-like token adds to a name such as `max` that is spelled over several tokens. -/
def fragment? (token : Token) : Option String :=
  match token.kind with
  | .identifier | .number | .transpose | .trueWord | .falseWord | .bmatrix => some token.text
  | .symbol => symbolName? token.text
  | _ => none

/-- One line on a token: its kind, its text if the kind leaves it open, and its position. -/
def summary (token : Token) : String :=
  let text :=
    match token.kind with
    | .identifier | .number | .symbol => token.text
    | _ => ""
  token.kind.name ++ " (" ++ text ++ ") @" ++ toString token.position.offset

/-- The kind and the text of a token, one to a line. -/
def listing (token : Token) : String :=
  "Token \x7b\nkind: " ++ token.kind.name ++ ",\nvalue: " ++ token.text ++ "\x7d"

def endOfInput (place : Position) : Token := ⟨.eof, "EOF", ⟨place, place⟩⟩

end Token

end TexFormula

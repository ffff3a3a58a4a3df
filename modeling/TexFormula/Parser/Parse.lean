import TexFormula.Parser.Termination

/-!
# Parsing a stream of tokens

`parseTokens` reads a stream as one expression under the rules of the grammar. Its result is a tree
or an error in the tokens, for `settles_wholeInput` leaves no third outcome.
-/

namespace TexFormula

/-- What a run that settles comes to. -/
def settled {α : Type} {Q : α → ParserState → Prop} (result : EStateM.Result Halt ParserState α)
    (h : Settles result Q) : Except SyntaxError α :=
  match result, h with
  | .ok value _, _ => .ok value
  | .error (.rejected error) _, _ => .error error
  | .error .exhausted _, h => h.elim

theorem settled_eq_ok_iff {α : Type} {Q : α → ParserState → Prop}
    {result : EStateM.Result Halt ParserState α} {h : Settles result Q} {value : α} :
    settled result h = .ok value ↔ ∃ state, result = .ok value state := by
  match result, h with
  | .ok a s, _ => simp [settled]
  | .error (.rejected e) s, _ => simp [settled]
  | .error .exhausted _, h => exact h.elim

theorem settled_eq_error_iff {α : Type} {Q : α → ParserState → Prop}
    {result : EStateM.Result Halt ParserState α} {h : Settles result Q} {error : SyntaxError} :
    settled result h = .error error ↔ ∃ state, result = .error (.rejected error) state := by
  match result, h with
  | .ok a s, _ => simp [settled]
  | .error (.rejected e) s, _ => simp [settled]
  | .error .exhausted _, h => exact h.elim

/-- The expression that some tokens form, nesting at most `limit` levels. -/
def parseTokens (limit : Nat) (tokens : List Token) : Except SyntaxError Expr :=
  settled (wholeInput (.standard limit) (.ofTokens tokens)) (settles_wholeInput limit _)

def errorOf? {ε α : Type} : Except ε α → Option ε
  | .ok _ => none
  | .error error => some error

theorem errorOf?_eq_some_iff {ε α : Type} {x : Except ε α} {error : ε} :
    errorOf? x = some error ↔ x = .error error := by
  cases x <;> simp [errorOf?]

end TexFormula

import TexFormula.Token.Basic

/-!
# A cursor over tokens

`Cursor` splits a stream into the tokens passed and the tokens to come. Every stream ends in a token
of kind `eof`, which is kept apart as an `EndMark`, so that there always is a current token.

* `Cursor.ofTokens` : the cursor before the first token, closing the stream where it is open;
* `Cursor.current`, `Cursor.peek`, `Cursor.previous?` : looking around;
* `Cursor.advance` : passing the current token; a token of kind `eof` is never passed;
* `Cursor.fragments` : the longest run of letter-like tokens, as the fragments of a name;
* `Cursor.tokens` : the whole stream, which no move changes.
-/

namespace TexFormula

/-- The token that ends a stream; its kind is `eof`. -/
structure EndMark where
  text : String
  span : Span
deriving DecidableEq

def EndMark.token (mark : EndMark) : Token := ⟨.eof, mark.text, mark.span⟩

def EndMark.atPosition (place : Position) : EndMark := ⟨"EOF", ⟨place, place⟩⟩

/-- A stream of tokens and a place in it. -/
structure Cursor where
  /-- The tokens passed, the latest first. -/
  passed : List Token
  /-- The tokens to come, but for the one that ends the stream. -/
  ahead : List Token
  stop : EndMark
deriving DecidableEq

/-- The fragments of the letter-like tokens at the head of a list. -/
def fragmentRun : List Token → List String
  | [] => []
  | token :: tokens =>
    match token.fragment? with
    | some fragment => fragment :: fragmentRun tokens
    | none => []

namespace Cursor

/-- The cursor before the first token. A stream that does not end in `eof` is closed where it stops. -/
def ofTokens (tokens : List Token) : Cursor :=
  match tokens.getLast? with
  | none => ⟨[], [], .atPosition (.ofOffset 0)⟩
  | some last =>
    if last.kind = .eof then ⟨[], tokens.dropLast, ⟨last.text, last.span⟩⟩
    else ⟨[], tokens, .atPosition last.span.stop⟩

def tokens (cursor : Cursor) : List Token :=
  cursor.passed.reverse ++ cursor.ahead ++ [cursor.stop.token]

/-- The token `n` places after the current one; past the end, the one that ends the stream. -/
def peek (cursor : Cursor) (n : Nat) : Token := cursor.ahead[n]?.getD cursor.stop.token

def current (cursor : Cursor) : Token := cursor.peek 0

def previous? (cursor : Cursor) : Option Token := cursor.passed.head?

/-- The cursor after the current token, or the same cursor if that token is of kind `eof`. -/
def advance (cursor : Cursor) : Cursor :=
  match cursor.ahead with
  | [] => cursor
  | token :: tokens =>
    if token.kind = .eof then cursor else { cursor with passed := token :: cursor.passed, ahead := tokens }

def advanceBy : Nat → Cursor → Cursor
  | 0, cursor => cursor
  | n + 1, cursor => advanceBy n cursor.advance

/-- The fragments of the letter-like tokens that start `n` places after the current one. -/
def fragments (cursor : Cursor) (n : Nat) : List String := fragmentRun (cursor.ahead.drop n)

/-! ## What a move keeps -/

theorem tokens_advance (cursor : Cursor) : cursor.advance.tokens = cursor.tokens := by
  unfold advance
  split
  · rfl
  · next token rest h =>
    split
    · rfl
    · simp [tokens, h]

theorem length_ahead_advance_le (cursor : Cursor) : cursor.advance.ahead.length ≤ cursor.ahead.length := by
  unfold advance
  split
  · exact Nat.le_refl _
  · next token rest h =>
    split
    · exact Nat.le_refl _
    · simp [h]

theorem length_ahead_advance_lt {cursor : Cursor} (h : cursor.current.kind ≠ .eof) :
    cursor.advance.ahead.length < cursor.ahead.length := by
  unfold advance
  split
  · next h' => simp [current, peek, h', EndMark.token] at h
  · next token rest h' =>
    have hk : token.kind ≠ .eof := by simpa [current, peek, h'] using h
    simp [hk, h']

end Cursor

end TexFormula

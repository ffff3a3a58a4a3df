import TexFormula.Diagnostic.Lexical
import TexFormula.Token.Basic

/-!
# From characters to tokens

`scan c cs` says what stands at the head of the text `c :: cs`: a gap, a lexeme or a fault. Gaps and
lexemes are given by the number of characters they take beyond the first, so every step uses up at
least one. `tokenize` repeats `scan` up to the end and closes the stream with a token of kind `eof`.

* a space, or a backslash and a space, is a gap;
* a backslash with letters is a command of the vocabulary, two backslashes are a row break;
* digits, with a point and more digits if both are there, are a number;
* a run of letters is one token if the vocabulary has the whole run, otherwise its first letter is;
* everything else that the vocabulary has is one character, but for the assignment sign.
-/

namespace TexFormula

/-- What stands at the head of a text; `more` counts the characters taken beyond the first. -/
inductive Scan
  | gap (more : Nat)
  | lexeme (kind : Kind) (more : Nat)
  | fault (fault : LexFault)
deriving DecidableEq

def isControl (c : Char) : Bool := c.toNat < 0x20 || c.toNat == 0x7f

/-- How many characters of a number follow its first digit. -/
def numberTail (cs : List Char) : Nat :=
  let digits := (cs.takeWhile Char.isDigit).length
  match cs.drop digits with
  | '.' :: c :: rest => if c.isDigit then digits + 2 + (rest.takeWhile Char.isDigit).length else digits
  | _ => digits

/-- What a backslash and the given text after it are. -/
def scanCommand : List Char → Scan
  | [] => .fault (.unrecognised "\\")
  | ' ' :: _ => .gap 1
  | '\\' :: _ => .lexeme .rowBreak 1
  | c :: cs =>
    if c.isAlpha then
      let letters := c :: cs.takeWhile Char.isAlpha
      match kindOf? (String.ofList ('\\' :: letters)) with
      | some kind => .lexeme kind letters.length
      | none => .fault (.unknownCommand (String.ofList ('\\' :: letters)))
    else .fault (.unknownCommand (String.ofList ['\\', c]))

def scanLetters (c : Char) (cs : List Char) : Scan :=
  let letters := cs.takeWhile Char.isAlpha
  match kindOf? (String.ofList (c :: letters)) with
  | some kind => .lexeme kind letters.length
  | none => .lexeme ((kindOf? (String.singleton c)).getD .identifier) 0

/-- What stands at the head of the text `c :: cs`. -/
def scan (c : Char) (cs : List Char) : Scan :=
  if isControl c then .fault (.controlCharacter c)
  else if c = ' ' then .gap 0
  else if c = '\\' then scanCommand cs
  else if c.isDigit then .lexeme .number (numberTail cs)
  else if c = ':' ∧ cs.head? = some '=' then .lexeme .assign 1
  else if c.isAlpha then scanLetters c cs
  else
    match kindOf? (String.singleton c) with
    | some kind => .lexeme kind 0
    | none => .fault (.unrecognised (String.singleton c))

/--
The tokens of a text that starts `offset` bytes into the source. The first `covered` characters
belong to the piece scanned before and are passed over.
-/
def tokensFrom (offset covered : Nat) : List Char → Except LexError (List Token)
  | [] => .ok [.endOfInput (.ofOffset offset)]
  | c :: cs =>
    match covered with
    | more + 1 => tokensFrom (offset + c.utf8Size) more cs
    | 0 =>
      match scan c cs with
      | .fault fault => .error ⟨fault, .ofOffset offset⟩
      | .gap more => tokensFrom (offset + c.utf8Size) more cs
      | .lexeme kind more =>
        let text := c :: cs.take more
        let token : Token := ⟨kind, String.ofList text, .ofBytes offset (byteLength text)⟩
        (tokensFrom (offset + c.utf8Size) more cs).map (token :: ·)

/-- The tokens of a source text, or the first place where there is none. -/
def tokenize (source : String) : Except LexError (List Token) := tokensFrom 0 0 source.toList

end TexFormula

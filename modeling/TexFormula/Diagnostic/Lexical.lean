import TexFormula.Source.Position
import TexFormula.Text.Quoted

/-!
# What can be wrong with the characters of a formula

`LexFault` is the cause, `LexError` adds where it was found. The wording is `LexFault.message` and
`LexError.message`; `LexFault.tip?` is the advice that goes with a cause, if there is any.
-/

namespace TexFormula

open Text (quoteChar quoteString)

/-- Why the characters at some place form no token. -/
inductive LexFault
  /-- A control character, usually left by a backslash that was not escaped. -/
  | controlCharacter (character : Char)
  | unknownCommand (command : String)
  | unrecognised (text : String)
deriving DecidableEq

namespace LexFault

def name : LexFault → String
  | controlCharacter _ => "ControlCharacter"
  | unknownCommand _ => "UnknownCommand"
  | unrecognised _ => "UnrecognisedToken"

def message : LexFault → String
  | controlCharacter character =>
    "invalid control character " ++ quoteChar character ++ ", backslashes must be escaped"
  | unknownCommand command => "unknown command " ++ quoteString command
  | unrecognised text => "unrecognised token: " ++ quoteString text

def tip? : LexFault → Option String
  | controlCharacter _ =>
    some "Backslashes must be escaped, `\\frac` in a string literal is a form feed followed by `rac`"
  | unknownCommand command => some ("Command `" ++ command ++ "` is not supported")
  | unrecognised _ => none

end LexFault

/-- A cause and where it was found. -/
structure LexError where
  fault : LexFault
  position : Position
deriving DecidableEq

def LexError.message (error : LexError) : String :=
  error.fault.message ++ " at position " ++ toString error.position.offset

end TexFormula

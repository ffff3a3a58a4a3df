import TexFormula.Text.Quoted
import TexFormula.Token.Basic

/-!
# What can be wrong with the tokens of a formula

`SyntaxFault` is the cause, `SyntaxError` adds the token it is pinned to. The wording is
`SyntaxFault.message` and `SyntaxError.message`; `SyntaxFault.tip?` is the advice that goes with a
cause. Advice shows texts between back quotes as they stand, messages quote them.
-/

namespace TexFormula

open Text (quoteString)

/-- Why the tokens form no expression. -/
inductive SyntaxFault
  | unexpectedToken (found : String)
  | expectedToken (expected found : String)
  /-- A delimiter that was opened and met something other than its closing partner. -/
  | unmatchedDelimiter (opened expected found : String)
  | invalidAssignmentTarget (found : String)
  | ambiguousNumbers (left right : String)
  | unexpectedEndOfInput
  | unsupportedEnvironment (name : String)
  /-- A comma where no list is allowed. -/
  | unexpectedList (found : String)
  | nestingTooDeep (limit : Nat)
deriving DecidableEq

namespace SyntaxFault

def name : SyntaxFault → String
  | unexpectedToken _ => "UnexpectedToken"
  | expectedToken _ _ => "ExpectedToken"
  | unmatchedDelimiter _ _ _ => "UnmatchedDelimiter"
  | invalidAssignmentTarget _ => "InvalidAssignmentTarget"
  | ambiguousNumbers _ _ => "AmbiguousNumbers"
  | unexpectedEndOfInput => "UnexpectedEndOfInput"
  | unsupportedEnvironment _ => "UnsupportedEnvironment"
  | unexpectedList _ => "UnexpectedList"
  | nestingTooDeep _ => "NestingTooDeep"

def message : SyntaxFault → String
  | unexpectedToken found => "unexpected token: " ++ quoteString found
  | expectedToken expected found =>
    "expected " ++ quoteString expected ++ ", found " ++ quoteString found
  | unmatchedDelimiter opened expected found =>
    "unmatched " ++ quoteString opened ++ ": expected " ++ quoteString expected ++ ", found " ++
      quoteString found
  | invalidAssignmentTarget found =>
    "cannot assign to " ++ quoteString found ++ ", the target must be a symbol"
  | ambiguousNumbers left right =>
    "ambiguous adjacent numbers " ++ quoteString left ++ " and " ++ quoteString right
  | unexpectedEndOfInput => "unexpected end of input"
  | unsupportedEnvironment name => "unsupported environment " ++ quoteString name
  | unexpectedList found => "unexpected comma separated list at " ++ quoteString found
  | nestingTooDeep limit => "expression nested deeper than " ++ toString limit ++ " levels"

def tip? : SyntaxFault → Option String
  | unexpectedToken found => some ("Unexpected token: `" ++ found ++ "`")
  | expectedToken expected found => some ("Expected `" ++ expected ++ "`, found `" ++ found ++ "`")
  | unmatchedDelimiter opened expected _ =>
    some ("`" ++ opened ++ "` must be closed with `" ++ expected ++ "`")
  | invalidAssignmentTarget _ => some "Only a single symbol can be assigned to with `:=`"
  | ambiguousNumbers left right =>
    some ("Write `" ++ left ++ " \\cdot " ++ right ++ "` or `" ++ left ++ " * " ++ right ++
      "` to multiply numbers")
  | unexpectedEndOfInput => some "The expression ended before it was complete"
  | unsupportedEnvironment name =>
    some ("Environment `" ++ name ++ "` is not supported, use `bmatrix`")
  | unexpectedList _ =>
    some "Comma separated values are only allowed as function arguments or subscripts"
  | nestingTooDeep limit => some ("Expressions may nest at most " ++ toString limit ++ " levels")

end SyntaxFault

/-- A cause and the token it is pinned to. -/
structure SyntaxError where
  fault : SyntaxFault
  token : Token
deriving DecidableEq

def SyntaxError.message (error : SyntaxError) : String :=
  error.fault.message ++ " (`" ++ error.token.text ++ "` at position " ++
    toString error.token.position.offset ++ ")"

end TexFormula

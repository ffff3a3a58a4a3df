import TexFormula.Parser.Rules

/-!
# The command line

`Request.ofArguments` reads the arguments from left to right and stops at the first one that is in
error, or that asks for the version.

* one argument that is no option is the expression; a single dash counts as one;
* `--max-depth` takes a number, as the next argument or after an equals sign;
* `--tokens`, `-q` or `--quiet`, and `-V` or `--version` take nothing, and short ones may share a dash;
* no option may be given twice, and after `--` nothing is an option.
-/

namespace TexFormula

structure Options where
  source : String
  limit : Nat := defaultLimit
  listTokens : Bool := false
  /-- Whether the times are left out. -/
  quiet : Bool := false
deriving DecidableEq

inductive Request
  | version
  | parse (options : Options)
deriving DecidableEq

inductive UsageError
  | missingExpression
  | extraArgument (argument : String)
  | unknownOption (argument : String)
  | repeatedOption (option : String)
  | unwantedValue (option : String)
  | missingValue (option : String)
  | invalidNumber (option value : String)
deriving DecidableEq

def UsageError.message : UsageError → String
  | missingExpression => "no expression given"
  | extraArgument argument => "unexpected argument '" ++ argument ++ "'"
  | unknownOption argument => "unknown option '" ++ argument ++ "'"
  | repeatedOption option => "the option '" ++ option ++ "' cannot be given twice"
  | unwantedValue option => "the option '" ++ option ++ "' takes no value"
  | missingValue option => "the option '" ++ option ++ "' needs a value"
  | invalidNumber option value => "'" ++ value ++ "' is no number that '" ++ option ++ "' takes"

inductive Argument
  | plain (text : String)
  /-- Two dashes alone. -/
  | endOfOptions
  /-- Two dashes and a name, perhaps with a value after an equals sign. -/
  | long (name : String) (value? : Option String)
  /-- One dash and letters. -/
  | short (letters : List Char)
deriving DecidableEq

/-- The name of a long option and the value after the equals sign, if there is one. -/
def splitValue (text : List Char) : String × Option String :=
  match text.dropWhile (· ≠ '=') with
  | [] => (String.ofList text, none)
  | _ :: value => (String.ofList (text.takeWhile (· ≠ '=')), some (String.ofList value))

def Argument.ofString (text : String) : Argument :=
  match text.toList with
  | ['-'] => .plain text
  | ['-', '-'] => .endOfOptions
  | '-' :: '-' :: rest => .long (splitValue rest).1 (splitValue rest).2
  | '-' :: letters => .short letters
  | _ => .plain text

def decimalValue (digits : List Char) : Nat :=
  digits.foldl (fun value digit => 10 * value + (digit.toNat - '0'.toNat)) 0

/-- A number in decimal digits, perhaps after a plus sign, that fits into 64 bits. -/
def readNumber? (text : String) : Option Nat :=
  let digits := match text.toList with
    | '+' :: rest => rest
    | cs => cs
  if !digits.isEmpty && digits.all Char.isDigit && decimalValue digits < UInt64.size then
    some (decimalValue digits)
  else none

/-- What the arguments read so far say. -/
structure Draft where
  source? : Option String := none
  limit? : Option Nat := none
  listTokens : Bool := false
  quiet : Bool := false

namespace Draft

def setSource (draft : Draft) (text : String) : Except UsageError Draft :=
  if draft.source?.isSome then .error (.extraArgument text) else .ok { draft with source? := some text }

def setLimit (draft : Draft) (text : String) : Except UsageError Draft :=
  if draft.limit?.isSome then .error (.repeatedOption "--max-depth")
  else
    match readNumber? text with
    | some limit => .ok { draft with limit? := some limit }
    | none => .error (.invalidNumber "--max-depth" text)

def setTokens (draft : Draft) : Except UsageError Draft :=
  if draft.listTokens then .error (.repeatedOption "--tokens") else .ok { draft with listTokens := true }

def setQuiet (draft : Draft) : Except UsageError Draft :=
  if draft.quiet then .error (.repeatedOption "--quiet") else .ok { draft with quiet := true }

/-- What the arguments ask for when there are no more of them. -/
def finish (draft : Draft) : Except UsageError Request :=
  match draft.source? with
  | none => .error .missingExpression
  | some source =>
    .ok (.parse ⟨source, draft.limit?.getD defaultLimit, draft.listTokens, draft.quiet⟩)

end Draft

def readPlain (draft : Draft) : List String → Except UsageError Request
  | [] => draft.finish
  | text :: rest => do readPlain (← draft.setSource text) rest

/-- Takes short options; `none` once the version is asked for. -/
def readShort (draft : Draft) : List Char → Except UsageError (Option Draft)
  | [] => .ok (some draft)
  | 'q' :: letters => do readShort (← draft.setQuiet) letters
  | 'V' :: _ => .ok none
  | letter :: _ => .error (.unknownOption (String.ofList ['-', letter]))

def valueOf? (text : String) : Option String :=
  match Argument.ofString text with
  | .plain value => some value
  | _ => none

def readArguments (draft : Draft) : List String → Except UsageError Request
  | [] => draft.finish
  | text :: rest =>
    match Argument.ofString text with
    | .plain _ => do readArguments (← draft.setSource text) rest
    | .endOfOptions => readPlain draft rest
    | .short letters => do
      match ← readShort draft letters with
      | some draft => readArguments draft rest
      | none => return .version
    | .long "max-depth" (some value) => do readArguments (← draft.setLimit value) rest
    | .long "max-depth" none =>
      match rest with
      | [] => .error (.missingValue text)
      | next :: rest =>
        match valueOf? next with
        | some value => do readArguments (← draft.setLimit value) rest
        | none => .error (.missingValue text)
    | .long "tokens" none => do readArguments (← draft.setTokens) rest
    | .long "quiet" none => do readArguments (← draft.setQuiet) rest
    | .long "version" none => return .version
    | .long name (some _) =>
      if name = "tokens" ∨ name = "quiet" ∨ name = "version" then .error (.unwantedValue ("--" ++ name))
      else .error (.unknownOption text)
    | .long _ none => .error (.unknownOption text)

/-- What the arguments ask for. -/
def Request.ofArguments (arguments : List String) : Except UsageError Request :=
  readArguments {} arguments

end TexFormula

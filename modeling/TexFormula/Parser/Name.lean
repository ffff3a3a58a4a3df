import TexFormula.Parser.State

/-!
# Names spelled over several tokens

Letters are tokens of their own, so a name such as `max` comes as a run of letter-like tokens in
braces. `bracedName` puts it together again; `environmentName` reads the name of an environment, of
which there is only one.
-/

namespace TexFormula.ParseM

/-- Passes the letter-like tokens from the current one on and returns the name they spell. -/
def takeName : ParseM String := do
  let state ← get
  let fragments := state.cursor.fragments 0
  set { state with cursor := state.cursor.advanceBy fragments.length }
  return String.join fragments

def refuseName (refused : Bool) : ParseM Unit := do
  let token ← current
  refuseIf refused (.expectedToken Kind.identifier.spelling token.text) token

/-- A name in braces. It is not empty and starts with no number. -/
def bracedName : ParseM String := do
  let _ ← expect .openCurly
  refuseName ((← currentKind) == .number)
  let name ← takeName
  refuseName name.isEmpty
  let _ ← expect .closeCurly
  return name

/-- The name that stands where an environment's name belongs, for the message that refuses it. -/
def misplacedName (cursor : Cursor) : String :=
  match cursor.fragments 0 with
  | [] => cursor.current.text
  | fragments => String.join fragments

def environmentName : ParseM Unit := do
  let _ ← expect .openCurly
  let cursor := (← get).cursor
  let _ ← expectOr .bmatrix fun _ => .unsupportedEnvironment (misplacedName cursor)
  let _ ← expect .closeCurly

end TexFormula.ParseM

import TexFormula.Text.Quoted

/-!
# Evaluation engines

What numbers, matrices and their operations are is for an `Engine` to say. The tree walk only names
the operations, and an `EngineCall` is one question put to an engine, with the values it was put
about. `EvalError` is why an evaluation has no value.
-/

namespace TexFormula

/-- What the evaluation of trees needs to be told, with values in `V` and errors in `E`. -/
structure Engine (V E : Type) where
  number : String → Except E V
  boolean : Bool → V
  undefined : V
  /-- The value of a name that the scope does not bind. -/
  constant : String → Option V
  call : String → List V → Except E V
  /-- The value of a row or of a matrix. -/
  collection : List V → Except E V
  /-- The part of a value that one index per dimension picks out. -/
  index : V → List V → Except E V

inductive EngineCall (V : Type)
  | number (text : String)
  | boolean (value : Bool)
  | undefined
  | constant (name : String)
  | call (name : String) (arguments : List V)
  | collection (items : List V)
  | index (object : V) (indices : List V)
deriving DecidableEq

/-- Why an evaluation has no value. -/
inductive EvalError (E : Type)
  | undefinedSymbol (name : String)
  | engine (error : E)
deriving DecidableEq

/-- The wording of an error, given the wording of the engine's own errors. -/
def EvalError.message {E : Type} (wording : E → String) : EvalError E → String
  | undefinedSymbol name => "undefined symbol " ++ Text.quoteString name
  | engine error => wording error

end TexFormula

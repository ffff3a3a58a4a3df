import TexFormula.Eval.Engine
import TexFormula.Eval.Scope
import TexFormula.Expr.Basic

/-!
# Evaluating trees

`Expr.evaluate` walks a tree from left to right, the parts of a node before the node itself. It holds
a scope, which assignments change, and the questions put to the engine so far. When a question gets
an error for an answer the walk stops there, and what was bound before stays bound.
-/

namespace TexFormula

/-- What an evaluation holds: the bindings in force and the questions put so far, in order. -/
structure EvalState (V : Type) where
  scope : Scope V
  calls : List (EngineCall V) := []

abbrev EvalM (V E : Type) := EStateM (EvalError E) (EvalState V)

namespace EvalM

variable {V E : Type}

def note (call : EngineCall V) : EvalM V E Unit :=
  modify fun state => { state with calls := state.calls ++ [call] }

def answer : Except E V → EvalM V E V
  | .ok value => pure value
  | .error error => throw (.engine error)

/-- Puts a question to the engine. -/
def ask (call : EngineCall V) (result : Except E V) : EvalM V E V := do
  note call
  answer result

def bindName (name : String) (value : V) : EvalM V E V := do
  modify fun state => { state with scope := state.scope.insert name value }
  return value

/-- The value of a name: what the scope binds it to, or the engine's constant of that name. -/
def resolve (engine : Engine V E) (name : String) : EvalM V E V := do
  match (← get).scope.get? name with
  | some value => return value
  | none =>
    note (.constant name)
    match engine.constant name with
    | some value => return value
    | none => throw (.undefinedSymbol name)

def apply (engine : Engine V E) (name : String) (arguments : List V) : EvalM V E V :=
  ask (.call name arguments) (engine.call name arguments)

def collect (engine : Engine V E) (items : List V) : EvalM V E V :=
  ask (.collection items) (engine.collection items)

end EvalM

def transposition : String := Kind.transpose.operation?.getD "transpose"

section
variable {V E : Type} (engine : Engine V E)

mutual

/-- The value of a tree. -/
def Expr.evaluate : Expr → EvalM V E V
  | .number text => .ask (.number text) (engine.number text)
  | .symbol name => .resolve engine name
  | .unary operator operand => do
    let value ← operand.evaluate
    EvalM.apply engine operator [value]
  | .binary operator left right _ => do
    let first ← left.evaluate
    let second ← right.evaluate
    EvalM.apply engine operator [first, second]
  | .comparison operator left right => do
    let first ← left.evaluate
    let second ← right.evaluate
    EvalM.apply engine operator [first, second]
  | .call name arguments => do
    let values ← Expr.evaluateList arguments
    EvalM.apply engine name values
  | .matrix rows => do
    let values ← Row.evaluateList rows
    EvalM.collect engine values
  | .accessor object index => do
    let value ← object.evaluate
    let indices ← Expr.evaluateList index
    EvalM.ask (.index value indices) (engine.index value indices)
  | .transpose operand => do
    let value ← operand.evaluate
    EvalM.apply engine transposition [value]
  | .assignment target value => do
    let result ← value.evaluate
    EvalM.bindName target result
  | .boolean value => .ask (.boolean value) (.ok (engine.boolean value))
  | .undefined => .ask .undefined (.ok engine.undefined)

def Expr.evaluateList : List Expr → EvalM V E (List V)
  | [] => return []
  | e :: es => do
    let value ← e.evaluate
    let values ← Expr.evaluateList es
    return value :: values

/-- The value of a row: that of its entry, or all its entries put together. -/
def Row.evaluate : Row → EvalM V E V
  | .element entry => entry.evaluate
  | .elements entries => do
    let values ← Expr.evaluateList entries
    EvalM.collect engine values

def Row.evaluateList : List Row → EvalM V E (List V)
  | [] => return []
  | row :: rows => do
    let value ← row.evaluate
    let values ← Row.evaluateList rows
    return value :: values

end

end

end TexFormula

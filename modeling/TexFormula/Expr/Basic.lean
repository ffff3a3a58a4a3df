import TexFormula.Token.Kind

/-!
# Expression trees

`Expr` is what a formula means before anything is computed: numbers keep the text they were written
with, and operations are known by the names that the evaluation engine uses. `Row` is one row of a
matrix; a row of a single entry is kept bare, which tells a column vector from a matrix.

* `Expr.negate`, `Expr.product` : the two nodes that no single token names;
* `Expr.typeName` : the word for the sort of a node; `Expr.asSymbol?` : its name if it is a symbol.
-/

namespace TexFormula

mutual

/-- An expression tree. -/
inductive Expr
  | number (text : String)
  /-- A variable or a named constant. -/
  | symbol (name : String)
  | unary (operator : String) (operand : Expr)
  /-- `implicit` marks a product of neighbours, written without a sign. -/
  | binary (operator : String) (left right : Expr) (implicit : Bool)
  | comparison (operator : String) (left right : Expr)
  | call (name : String) (arguments : List Expr)
  | matrix (rows : List Row)
  /-- A part of `object` picked out by one index per dimension. -/
  | accessor (object : Expr) (index : List Expr)
  | transpose (operand : Expr)
  | assignment (target : String) (value : Expr)
  | boolean (value : Bool)
  | undefined

/-- One row of a matrix. -/
inductive Row
  /-- A row of exactly one entry. -/
  | element (entry : Expr)
  | elements (entries : List Expr)

end

def negation : String := "unary_minus"

/-- The operation that neighbours stand for, which is that of the sign between factors. -/
def multiplication : String := Kind.star.operation?.getD "multiply"

theorem multiplication_eq : multiplication = "multiply" := rfl

namespace Expr

def negate (operand : Expr) : Expr := .unary negation operand

def product (left right : Expr) : Expr := .binary multiplication left right true

def typeName : Expr → String
  | number _ => "Number"
  | symbol _ => "Symbol"
  | unary _ _ => "Unary"
  | binary _ _ _ _ => "Binary"
  | comparison _ _ _ => "Comparison"
  | call _ _ => "Call"
  | matrix _ => "Matrix"
  | accessor _ _ => "Accessor"
  | transpose _ => "Transpose"
  | assignment _ _ => "Assignment"
  | boolean _ => "Boolean"
  | undefined => "Undefined"

def asSymbol? : Expr → Option String
  | symbol name => some name
  | _ => none

theorem asSymbol?_eq_some_iff {e : Expr} {name : String} :
    e.asSymbol? = some name ↔ e = .symbol name := by
  cases e <;> simp [asSymbol?]

end Expr

namespace Row

def ofEntries : List Expr → Row
  | [entry] => .element entry
  | entries => .elements entries

def entries : Row → List Expr
  | element entry => [entry]
  | elements entries => entries

theorem entries_ofEntries (es : List Expr) : (ofEntries es).entries = es := by
  match es with
  | [] => rfl
  | [_] => rfl
  | _ :: _ :: _ => rfl

end Row

/-! ## Induction -/

/--
To show something of all trees, show it of each sort of node from the same of the trees below it,
which for lists and matrices are their members and entries.
-/
@[elab_as_elim]
theorem Expr.induction {P : Expr → Prop}
    (number : ∀ text, P (.number text)) (symbol : ∀ name, P (.symbol name))
    (unary : ∀ operator operand, P operand → P (.unary operator operand))
    (binary : ∀ operator left right implicit, P left → P right → P (.binary operator left right implicit))
    (comparison : ∀ operator left right, P left → P right → P (.comparison operator left right))
    (call : ∀ name arguments, (∀ e ∈ arguments, P e) → P (.call name arguments))
    (matrix : ∀ rows, (∀ row ∈ rows, ∀ e ∈ row.entries, P e) → P (.matrix rows))
    (accessor : ∀ object index, P object → (∀ e ∈ index, P e) → P (.accessor object index))
    (transpose : ∀ operand, P operand → P (.transpose operand))
    (assignment : ∀ target value, P value → P (.assignment target value))
    (boolean : ∀ value, P (.boolean value)) (undefined : P .undefined) (e : Expr) : P e :=
  Expr.rec (motive_1 := P) (motive_2 := fun row => ∀ e ∈ row.entries, P e)
    (motive_3 := fun es => ∀ e ∈ es, P e) (motive_4 := fun rows => ∀ row ∈ rows, ∀ e ∈ row.entries, P e)
    number symbol unary binary comparison call matrix accessor transpose assignment boolean undefined
    (fun _ he => by simpa [Row.entries] using he) (fun _ hes => hes)
    (by simp) (fun _ _ he hes => by simpa using ⟨he, hes⟩)
    (by simp) (fun _ _ hr hrs => by simpa using ⟨hr, hrs⟩) e

end TexFormula

import TexFormula.Expr.Basic

/-!
# The plain text of a tree

`Expr.plain` writes a tree on one line with every operation in parentheses: `(1 + (2 * x))`. It is
meant for reading, not as a formula to be parsed again.
-/

namespace TexFormula

/-- The sign of a binary operation or relation; an operation without one is written by its name. -/
def operatorSign (operator : String) : String :=
  match operator with
  | "add" => "+"
  | "subtract" => "-"
  | "multiply" => "*"
  | "divide" => "/"
  | "pow" => "^"
  | "equal" => "=="
  | "unequal" => "!="
  | "smaller" => "<"
  | "smaller_eq" => "<="
  | "larger" => ">"
  | "larger_eq" => ">="
  | name => name

def commaSeparated (texts : List String) : String := ", ".intercalate texts

def infixed (operator left right : String) : String :=
  "(" ++ left ++ " " ++ operatorSign operator ++ " " ++ right ++ ")"

mutual

/-- The plain text of a tree. -/
def Expr.plain : Expr → String
  | .number text => text
  | .symbol name => name
  | .unary _ operand => "(-" ++ operand.plain ++ ")"
  | .binary operator left right _ => infixed operator left.plain right.plain
  | .comparison operator left right => infixed operator left.plain right.plain
  | .call name arguments => name ++ "(" ++ commaSeparated (Expr.plainList arguments) ++ ")"
  | .matrix rows => "[" ++ commaSeparated (Row.plainList rows) ++ "]"
  | .accessor object index => object.plain ++ "[" ++ commaSeparated (Expr.plainList index) ++ "]"
  | .transpose operand => operand.plain ++ "^T"
  | .assignment target value => target ++ " := " ++ value.plain
  | .boolean true => "true"
  | .boolean false => "false"
  | .undefined => "undefined"

def Expr.plainList : List Expr → List String
  | [] => []
  | e :: es => e.plain :: Expr.plainList es

/-- The plain text of a row: brackets unless it is a single entry. -/
def Row.plain : Row → String
  | .element entry => entry.plain
  | .elements entries => "[" ++ commaSeparated (Expr.plainList entries) ++ "]"

def Row.plainList : List Row → List String
  | [] => []
  | row :: rows => row.plain :: Row.plainList rows

end

theorem Expr.plainList_eq_map (es : List Expr) : Expr.plainList es = es.map Expr.plain := by
  induction es with
  | nil => rfl
  | cons e es ih => simp [Expr.plainList, ih]

theorem Row.plainList_eq_map (rows : List Row) : Row.plainList rows = rows.map Row.plain := by
  induction rows with
  | nil => rfl
  | cons row rows ih => simp [Row.plainList, ih]

end TexFormula

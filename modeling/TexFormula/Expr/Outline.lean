import TexFormula.Expr.Printer
import TexFormula.Text.Quoted

/-!
# The outline of a tree

`Expr.outline` names every node and every part of it, so that two trees with the same outline are
the same tree: `Symbol(SymbolExpr { name: "x" })`. Texts are quoted.
-/

namespace TexFormula

open Text (quoteString)

/-- The fields of a record, each a name and the text of its value, in braces after the record's name. -/
def recordText (name : String) (fields : List (String × String)) : String :=
  name ++ " \x7b " ++ commaSeparated (fields.map fun field => field.1 ++ ": " ++ field.2) ++ " \x7d"

def nodeText (sort : String) (fields : List (String × String)) : String :=
  sort ++ "(" ++ recordText (sort ++ "Expr") fields ++ ")"

def listText (texts : List String) : String := "[" ++ commaSeparated texts ++ "]"

def truthText (value : Bool) : String := if value then "true" else "false"

mutual

/-- The outline of a tree. -/
def Expr.outline : Expr → String
  | .number text => nodeText "Number" [("value", quoteString text)]
  | .symbol name => nodeText "Symbol" [("name", quoteString name)]
  | .unary operator operand =>
    nodeText "Unary" [("operator", quoteString operator), ("operand", operand.outline)]
  | .binary operator left right implicit =>
    nodeText "Binary" [("operator", quoteString operator), ("left", left.outline),
      ("right", right.outline), ("implicit", truthText implicit)]
  | .comparison operator left right =>
    nodeText "Comparison" [("operator", quoteString operator), ("left", left.outline),
      ("right", right.outline)]
  | .call name arguments =>
    nodeText "Call" [("name", quoteString name), ("arguments", listText (Expr.outlineList arguments))]
  | .matrix rows => nodeText "Matrix" [("rows", listText (Row.outlineList rows))]
  | .accessor object index =>
    nodeText "Accessor" [("object", object.outline),
      ("index", recordText "IndexPath" [("dimensions", listText (Expr.outlineList index))])]
  | .transpose operand => nodeText "Transpose" [("operand", operand.outline)]
  | .assignment target value =>
    nodeText "Assignment" [("target", recordText "SymbolExpr" [("name", quoteString target)]),
      ("value", value.outline)]
  | .boolean value => nodeText "Boolean" [("value", truthText value)]
  | .undefined => "Undefined"

def Expr.outlineList : List Expr → List String
  | [] => []
  | e :: es => e.outline :: Expr.outlineList es

def Row.outline : Row → String
  | .element entry => "Element(" ++ entry.outline ++ ")"
  | .elements entries => "Elements(" ++ listText (Expr.outlineList entries) ++ ")"

def Row.outlineList : List Row → List String
  | [] => []
  | row :: rows => row.outline :: Row.outlineList rows

end

theorem Expr.outlineList_eq_map (es : List Expr) : Expr.outlineList es = es.map Expr.outline := by
  induction es with
  | nil => rfl
  | cons e es ih => simp [Expr.outlineList, ih]

theorem Row.outlineList_eq_map (rows : List Row) : Row.outlineList rows = rows.map Row.outline := by
  induction rows with
  | nil => rfl
  | cons row rows ih => simp [Row.outlineList, ih]

end TexFormula

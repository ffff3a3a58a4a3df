/-!
# Laying out bracketed text

`layout` breaks a text into lines: after every opening bracket and every comma, and before every
closing bracket. Each line is indented by two spaces for every bracket open at its start. The space
that usually follows a brace or a comma is dropped; if it does not come at once, the next space that
comes is.
-/

namespace TexFormula

/-- A line break and the spaces before a line inside `depth` brackets. -/
def lineBreak (depth : Nat) : List Char := '\n' :: List.replicate (2 * depth) ' '

/-- Lays out a text inside `depth` brackets; `dropSpace` says whether the next space is dropped. -/
def layoutFrom (depth : Nat) (dropSpace : Bool) : List Char → List Char
  | [] => []
  | '{' :: cs => '{' :: lineBreak (depth + 1) ++ layoutFrom (depth + 1) true cs
  | '(' :: cs => '(' :: lineBreak (depth + 1) ++ layoutFrom (depth + 1) dropSpace cs
  | '[' :: cs => '[' :: lineBreak (depth + 1) ++ layoutFrom (depth + 1) dropSpace cs
  | '}' :: cs => lineBreak (depth - 1) ++ '}' :: layoutFrom (depth - 1) dropSpace cs
  | ')' :: cs => lineBreak (depth - 1) ++ ')' :: layoutFrom (depth - 1) dropSpace cs
  | ']' :: cs => lineBreak (depth - 1) ++ ']' :: layoutFrom (depth - 1) dropSpace cs
  | ',' :: cs => ',' :: lineBreak depth ++ layoutFrom depth true cs
  | ' ' :: cs => if dropSpace then layoutFrom depth false cs else ' ' :: layoutFrom depth false cs
  | c :: cs => c :: layoutFrom depth dropSpace cs

def layout (text : String) : String := String.ofList (layoutFrom 0 false text.toList)

end TexFormula

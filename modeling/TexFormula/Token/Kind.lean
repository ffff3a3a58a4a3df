/-!
# Kinds of tokens

* `Kind` : what a token stands for; `Kind.name` is the word that messages use for it;
* `Kind.operation?` : the operation that a kind stands for when the tree is evaluated;
* `Kind.isFunction`, `Kind.isComparison` : the named functions of one argument, the six relations.
-/

namespace TexFormula

/-- What a token stands for. -/
inductive Kind
  | eof | number | identifier | symbol
  | plus | dash | star | cdot | times | slash | caret | underscore
  | equals | notEquals | less | lessEquals | greater | greaterEquals | assign
  | openParen | closeParen | openCurly | closeCurly | bar | comma | left | right
  | beginEnv | endEnv | bmatrix | ampersand | rowBreak
  | sqrt | frac | sin | cos | tan | csc | sec | cot | arcsin | arccos | arctan | sinh | cosh | tanh
  | log | ln | det | operatorname
  | mathrm | mathbf | trueWord | falseWord | question | transpose
deriving DecidableEq, Repr

namespace Kind

def name : Kind → String
  | eof => "EOF" | number => "Number" | identifier => "Identifier" | symbol => "Symbol"
  | plus => "Plus" | dash => "Dash" | star => "Star" | cdot => "Cdot" | times => "Times"
  | slash => "Slash" | caret => "Caret" | underscore => "Underscore"
  | equals => "Equals" | notEquals => "NotEquals" | less => "Less" | lessEquals => "LessEquals"
  | greater => "Greater" | greaterEquals => "GreaterEquals" | assign => "Assign"
  | openParen => "OpenParen" | closeParen => "CloseParen" | openCurly => "OpenCurly"
  | closeCurly => "CloseCurly" | bar => "Bar" | comma => "Comma" | left => "Left" | right => "Right"
  | beginEnv => "Begin" | endEnv => "End" | bmatrix => "BMatrix" | ampersand => "Ampersand"
  | rowBreak => "RowBreak"
  | sqrt => "Sqrt" | frac => "Frac" | sin => "Sin" | cos => "Cos" | tan => "Tan" | csc => "Csc"
  | sec => "Sec" | cot => "Cot" | arcsin => "Arcsin" | arccos => "Arccos" | arctan => "Arctan"
  | sinh => "Sinh" | cosh => "Cosh" | tanh => "Tanh" | log => "Log" | ln => "Ln" | det => "Det"
  | operatorname => "Operatorname" | mathrm => "Mathrm" | mathbf => "Mathbf" | trueWord => "True"
  | falseWord => "False" | question => "Question" | transpose => "Transpose"

def all : List Kind :=
  [eof, number, identifier, symbol,
   plus, dash, star, cdot, times, slash, caret, underscore,
   equals, notEquals, less, lessEquals, greater, greaterEquals, assign,
   openParen, closeParen, openCurly, closeCurly, bar, comma, left, right,
   beginEnv, endEnv, bmatrix, ampersand, rowBreak,
   sqrt, frac, sin, cos, tan, csc, sec, cot, arcsin, arccos, arctan, sinh, cosh, tanh,
   log, ln, det, operatorname,
   mathrm, mathbf, trueWord, falseWord, question, transpose]

def ofName? (text : String) : Option Kind := all.find? fun kind => kind.name == text

/-- The operation that a kind stands for, under the name the evaluation engine knows. -/
def operation? : Kind → Option String
  | plus => some "add" | dash => some "subtract"
  | star | cdot | times => some "multiply"
  | slash | frac => some "divide" | caret => some "pow"
  | equals => some "equal" | notEquals => some "unequal"
  | less => some "smaller" | lessEquals => some "smaller_eq"
  | greater => some "larger" | greaterEquals => some "larger_eq"
  | bar => some "abs" | transpose => some "transpose"
  | sqrt => some "sqrt" | sin => some "sin" | cos => some "cos" | tan => some "tan"
  | csc => some "csc" | sec => some "sec" | cot => some "cot"
  | arcsin => some "asin" | arccos => some "acos" | arctan => some "atan"
  | sinh => some "sinh" | cosh => some "cosh" | tanh => some "tanh"
  | log => some "log" | ln => some "ln" | det => some "det"
  | _ => none

/-- The named functions that take one argument after the command. -/
def isFunction : Kind → Bool
  | sqrt | sin | cos | tan | csc | sec | cot | arcsin | arccos | arctan | sinh | cosh | tanh
  | log | ln | det => true
  | _ => false

def isComparison : Kind → Bool
  | equals | notEquals | less | lessEquals | greater | greaterEquals => true
  | _ => false

theorem mem_all (kind : Kind) : kind ∈ all := by cases kind <;> decide

end Kind

end TexFormula

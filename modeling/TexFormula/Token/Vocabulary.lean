import TexFormula.Token.Kind

/-!
# The vocabulary

Every fixed spelling that a formula may contain, with the kind of token it makes, and the name that
each named symbol resolves to.

* `kindOf? text` : the kind a spelling stands for;
* `symbolName? text` : the plain name of a named symbol (`alpha` for the command of that letter);
* `Kind.spellings` : all spellings of a kind in the order of their bytes;
* `Kind.spelling` : the word for a kind in messages about what was expected.

Commands are listed with their backslash. A single letter is listed only if it means something
other than a variable. Spellings of one kind stand in the order of their bytes.
-/

namespace TexFormula

/-- The named symbols and the names they resolve to. -/
def symbols : List (String × String) :=
  [("\\Delta", "Delta"), ("\\Gamma", "Gamma"), ("\\Lambda", "Lambda"), ("\\Omega", "Omega"),
   ("\\Phi", "Phi"), ("\\Pi", "Pi"), ("\\Psi", "Psi"), ("\\Sigma", "Sigma"), ("\\Theta", "Theta"),
   ("\\Upsilon", "Upsilon"), ("\\Xi", "Xi"),
   ("\\alpha", "alpha"), ("\\beta", "beta"), ("\\chi", "chi"), ("\\delta", "delta"),
   ("\\epsilon", "epsilon"), ("\\eta", "eta"), ("\\gamma", "gamma"), ("\\infty", "infinity"),
   ("\\iota", "iota"), ("\\kappa", "kappa"), ("\\lambda", "lambda"), ("\\mu", "mu"), ("\\nu", "nu"),
   ("\\omega", "omega"), ("\\phi", "phi"), ("\\pi", "pi"), ("\\psi", "psi"), ("\\rho", "rho"),
   ("\\sigma", "sigma"), ("\\tau", "tau"), ("\\theta", "theta"), ("\\upsilon", "upsilon"),
   ("\\varepsilon", "varepsilon"), ("\\varphi", "varphi"), ("\\varpi", "varpi"),
   ("\\varrho", "varrho"), ("\\varsigma", "varsigma"), ("\\vartheta", "vartheta"), ("\\xi", "xi"),
   ("\\zeta", "zeta"), ("e", "e")]

def words : List (String × Kind) :=
  [("+", .plus), ("-", .dash), ("*", .star), ("\\cdot", .cdot), ("\\times", .times), ("/", .slash),
   ("^", .caret), ("_", .underscore),
   ("=", .equals), ("\\ne", .notEquals), ("\\neq", .notEquals), ("<", .less),
   ("\\le", .lessEquals), ("\\leq", .lessEquals), (">", .greater),
   ("\\ge", .greaterEquals), ("\\geq", .greaterEquals), (":=", .assign),
   ("(", .openParen), (")", .closeParen), ("\x7b", .openCurly), ("\x7d", .closeCurly),
   ("|", .bar), (",", .comma), ("\\left", .left), ("\\right", .right),
   ("\\begin", .beginEnv), ("\\end", .endEnv), ("bmatrix", .bmatrix), ("&", .ampersand),
   ("\\\\", .rowBreak),
   ("\\sqrt", .sqrt), ("\\frac", .frac), ("\\sin", .sin), ("\\cos", .cos), ("\\tan", .tan),
   ("\\csc", .csc), ("\\sec", .sec), ("\\cot", .cot), ("\\arcsin", .arcsin),
   ("\\arccos", .arccos), ("\\arctan", .arctan), ("\\sinh", .sinh), ("\\cosh", .cosh),
   ("\\tanh", .tanh), ("\\log", .log), ("\\ln", .ln), ("\\det", .det),
   ("\\operatorname", .operatorname),
   ("\\mathrm", .mathrm), ("\\mathbf", .mathbf), ("True", .trueWord), ("False", .falseWord),
   ("?", .question), ("T", .transpose)]

def vocabulary : List (String × Kind) := words ++ symbols.map fun entry => (entry.1, .symbol)

def kindOf? (text : String) : Option Kind := vocabulary.lookup text

def symbolName? (text : String) : Option String := symbols.lookup text

/-- All spellings of a kind, in the order of their bytes. -/
def Kind.spellings (kind : Kind) : List String :=
  (vocabulary.filter fun entry => entry.2 = kind).map (·.1)

/-- The word for a kind in messages about what was expected: its first spelling, or a description. -/
def Kind.spelling : Kind → String
  | .eof => "EOF"
  | .number => "number"
  | .identifier => "identifier"
  | kind => kind.spellings.head?.getD kind.name

end TexFormula

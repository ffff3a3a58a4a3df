import TexFormula.Cli.Layout
import TexFormula.Cli.Options
import TexFormula.Diagnostic.Caret
import TexFormula.Expr.Outline
import TexFormula.Parser.Parse
import TexFormula.Token.Lexer

/-!
# What the program prints

`report` puts together what goes to standard output and to standard error, and the exit code:

* how long the tokens took, unless times are left out;
* the tokens, one to a line, if they are listed;
* how long the tree took, unless times are left out;
* the plain text of the tree, and its outline laid out over several lines.

An error ends the report where it comes up; it is shown on standard error, and the exit code is 1.
`run` is the report on what the tokens and the tree of an expression come to.
-/

namespace TexFormula

structure Outcome where
  exitCode : Nat
  stdout : String
  stderr : String
deriving DecidableEq

/-- How long the two steps took, as it is printed. -/
structure Timings where
  tokens : String
  tree : String

def textOfLines (lines : List String) : String := String.join (lines.map (· ++ "\n"))

namespace Outcome

def success (lines : List String) : Outcome := ⟨0, textOfLines lines, ""⟩

def failure (lines : List String) (diagnostic : Diagnostic) (source : String) : Outcome :=
  ⟨1, textOfLines lines, textOfLines [diagnostic.render source]⟩

end Outcome

def versionLine : String := "texpr 0.1.0"

def timingLines (options : Options) (step time : String) : List String :=
  if options.quiet then [] else [step ++ " in " ++ time]

def tokenLines (options : Options) (tokens : List Token) : List String :=
  if options.listTokens then tokens.map Token.summary else []

def treeLines (tree : Expr) : List String := [tree.plain, layout tree.outline]

/-- What the program prints on the given results. -/
def report (options : Options) (timings : Timings) (tokens : Except LexError (List Token))
    (parse : List Token → Except SyntaxError Expr) : Outcome :=
  match tokens with
  | .error error => .failure [] (.lexical error) options.source
  | .ok tokens =>
    let lines := timingLines options "Tokenized" timings.tokens ++ tokenLines options tokens
    match parse tokens with
    | .error error => .failure lines (.syntactic error) options.source
    | .ok tree => .success (lines ++ timingLines options "Parsed" timings.tree ++ treeLines tree)

def run (options : Options) (timings : Timings) : Outcome :=
  report options timings (tokenize options.source) (parseTokens options.limit)

end TexFormula

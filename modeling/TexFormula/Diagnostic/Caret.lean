import TexFormula.Diagnostic.Basic
import TexFormula.Text.Blank

/-!
# Diagnostics with a caret

`Diagnostic.render` shows an error under the line of the source it belongs to:

```text
Error: UnexpectedToken (Unexpected token: `)`)
  |
  | 2 + )
  | ----^
```

* `splitLines` : the lines of a text, each with the newline that ends it;
* `lineAt` : the line that holds a position, with the bytes before it; positions past the end belong
  to the last line;
* `caretLine` : one dash for each byte between the first printed character and the position.
-/

namespace TexFormula

/-- The lines of a text, each with the newline that ends it; the empty text has none. -/
def splitLines : List Char → List (List Char)
  | [] => []
  | c :: cs =>
    if c = '\n' then [c] :: splitLines cs
    else
      match splitLines cs with
      | [] => [[c]]
      | line :: lines => (c :: line) :: lines

/-- A line of a source and the number of bytes before it. -/
structure SourceLine where
  start : Nat
  text : List Char

/-- The line that holds the given offset, among lines that start `start` bytes into the source. -/
def lineAt (offset start : Nat) : List (List Char) → SourceLine
  | [] => ⟨start, []⟩
  | [line] => ⟨start, line⟩
  | line :: lines =>
    let stop := start + byteLength line
    if offset < stop then ⟨start, line⟩ else lineAt offset stop lines

/-- A caret under the `column`-th byte of a line of which `removed` bytes are not shown. -/
def caretLine (column removed : Nat) : String :=
  String.ofList (List.replicate (column - removed) '-' ++ ['^'])

def Diagnostic.headline (diagnostic : Diagnostic) : String :=
  match diagnostic.tip? with
  | none => "Error: " ++ diagnostic.name
  | some tip => "Error: " ++ diagnostic.name ++ " (" ++ tip ++ ")"

/-- An error shown under the line of the source it belongs to. -/
def Diagnostic.render (diagnostic : Diagnostic) (source : String) : String :=
  let offset := diagnostic.position.offset
  let line := lineAt offset 0 (splitLines source.toList)
  let removed := (line.text.takeWhile (· = ' ')).length
  let shown := String.ofList (Text.trimEnd (line.text.drop removed))
  diagnostic.headline ++ "\n  |\n  | " ++ shown ++ "\n  | " ++ caretLine (offset - line.start) removed

end TexFormula

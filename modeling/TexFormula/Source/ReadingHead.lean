import TexFormula.Source.Position

/-!
# A reading head over a source text

`ReadingHead` walks a source by byte counts. It may be moved anywhere, also past the end or into
the middle of a character; only asking for the text that remains then has no answer.
-/

namespace TexFormula

/-- A source text and how many of its bytes have been passed. -/
structure ReadingHead where
  source : List Char
  passed : Nat := 0

namespace ReadingHead

def ofString (source : String) : ReadingHead := ⟨source.toList, 0⟩

def advance (head : ReadingHead) (n : Nat) : ReadingHead := { head with passed := head.passed + n }

def position (head : ReadingHead) : Position := .ofOffset head.passed

def span (head : ReadingHead) (n : Nat) : Span := .ofBytes head.passed n

def atEnd (head : ReadingHead) : Bool := byteLength head.source ≤ head.passed

/-- The text that remains; `none` past the end or inside a character. -/
def remainder? (head : ReadingHead) : Option String :=
  (dropBytes head.source head.passed).map String.ofList

end ReadingHead

end TexFormula

import TexFormula.Text.Invisible
import TexFormula.Text.Combining

/-!
# Quoted text

Messages show a piece of text between quotes, with the characters that would be mistaken or not
seen written as escapes:

* `\0`, `\t`, `\n`, `\r` and `\\` for those five, and a backslash before the quote in use;
* `\u` with the scalar value in lower-case hexadecimal, in braces, for every other character that
  does not show or that would join the character before it;
* every other character as it stands.

`quoteString` uses double quotes and `quoteChar` single ones.
-/

namespace TexFormula.Text

/-- Printable ASCII, the space included. -/
def isPlainAscii (c : Char) : Bool := 0x20 ≤ c.toNat && c.toNat < 0x7f

def needsNumber (c : Char) : Bool := !isPlainAscii c && (isInvisible c || isCombining c)

def numbered (c : Char) : List Char := ['\\', 'u', '{'] ++ Nat.toDigits 16 c.toNat ++ ['}']

/-- How one character is written between quotes of the given kind. -/
def escape (quote c : Char) : List Char :=
  if c = '\x00' then ['\\', '0']
  else if c = '\t' then ['\\', 't']
  else if c = '\n' then ['\\', 'n']
  else if c = '\r' then ['\\', 'r']
  else if c = '\\' ∨ c = quote then ['\\', c]
  else if needsNumber c then numbered c
  else [c]

def enquote (quote : Char) (cs : List Char) : List Char :=
  quote :: cs.flatMap (escape quote) ++ [quote]

def quoteString (s : String) : String := String.ofList (enquote '"' s.toList)

def quoteChar (c : Char) : String := String.ofList (enquote '\'' [c])

theorem escape_of_plain {quote c : Char} (hc : isPlainAscii c = true) (hb : c ≠ '\\') (hq : c ≠ quote) :
    escape quote c = [c] := by
  have h0 : c ≠ '\x00' := by rintro rfl; exact absurd hc (by decide)
  have ht : c ≠ '\t' := by rintro rfl; exact absurd hc (by decide)
  have hn : c ≠ '\n' := by rintro rfl; exact absurd hc (by decide)
  have hr : c ≠ '\r' := by rintro rfl; exact absurd hc (by decide)
  simp [escape, needsNumber, h0, ht, hn, hr, hb, hq, hc]

end TexFormula.Text

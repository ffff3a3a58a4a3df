/-!
# Positions in a source text

A place in a source text is the number of UTF-8 bytes before it, kept in 32 bits.

* `byteLength cs` : the number of UTF-8 bytes of a text;
* `Position` : a byte offset modulo `2^32`; `Span` : where a piece of text starts and stops;
* `dropBytes cs n` : what follows the first `n` bytes, if they end between two characters.
-/

namespace TexFormula

/-- A byte offset into a source text, kept modulo `2^32`. -/
structure Position where
  val : UInt32
deriving DecidableEq

def Position.ofOffset (n : Nat) : Position := ⟨UInt32.ofNat n⟩

def Position.offset (p : Position) : Nat := p.val.toNat

structure Span where
  start : Position
  stop : Position
deriving DecidableEq

def Span.ofBytes (offset size : Nat) : Span := ⟨.ofOffset offset, .ofOffset (offset + size)⟩

/-- The number of UTF-8 bytes of a text. -/
def byteLength : List Char → Nat
  | [] => 0
  | c :: cs => c.utf8Size + byteLength cs

/-- What follows the first `n` bytes; `none` if they go past the end or cut a character in two. -/
def dropBytes : List Char → Nat → Option (List Char)
  | cs, 0 => some cs
  | [], _ + 1 => none
  | c :: cs, n + 1 => if c.utf8Size ≤ n + 1 then dropBytes cs (n + 1 - c.utf8Size) else none

theorem Position.offset_ofOffset {n : Nat} (h : n < UInt32.size) : (Position.ofOffset n).offset = n :=
  UInt32.toNat_ofNat_of_lt' h

theorem byteLength_append (xs ys : List Char) : byteLength (xs ++ ys) = byteLength xs + byteLength ys := by
  induction xs with
  | nil => simp [byteLength]
  | cons c cs ih => simp [byteLength, ih, Nat.add_assoc]

theorem dropBytes_append (xs ys : List Char) : dropBytes (xs ++ ys) (byteLength xs) = some ys := by
  induction xs with
  | nil => simp [byteLength, dropBytes]
  | cons c cs ih =>
    have hc := c.utf8Size_pos
    obtain ⟨n, hn⟩ : ∃ n, c.utf8Size + byteLength cs = n + 1 :=
      ⟨c.utf8Size + byteLength cs - 1, by omega⟩
    simp only [byteLength, List.cons_append, hn, dropBytes]
    rw [if_pos (by omega), ← hn, Nat.add_sub_cancel_left, ih]

end TexFormula

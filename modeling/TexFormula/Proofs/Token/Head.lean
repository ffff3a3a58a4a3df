import TexFormula.Proofs.Token.Decomposition
import TexFormula.Source.ReadingHead

/-!
# Reading a source with a head

* `ReadingHead.Reads head result` : reading piece by piece from where the head stands comes to the result; the head
  says what text remains, and passes every piece by its number of bytes;
* `reads_iff` : with a head at its beginning, a source is read as `tokenize` reads it.
-/

namespace TexFormula

/-! ## Bytes -/

theorem exists_append_of_dropBytes {cs rest : List Char} {n : Nat} (h : dropBytes cs n = some rest) :
    ∃ passed, cs = passed ++ rest ∧ byteLength passed = n := by
  induction cs generalizing n with
  | nil =>
    cases n with
    | zero =>
      cases h
      exact ⟨[], rfl, rfl⟩
    | succ n => cases h
  | cons c cs ih =>
    cases n with
    | zero =>
      cases h
      exact ⟨[], rfl, rfl⟩
    | succ n =>
      rw [dropBytes] at h
      split at h
      · next hsize =>
        obtain ⟨passed, rfl, hlength⟩ := ih h
        refine ⟨c :: passed, rfl, ?_⟩
        rw [byteLength, hlength]
        omega
      · cases h

namespace ReadingHead

/-- From where the head stands, reading piece by piece comes to the result. -/
inductive Reads : ReadingHead → Except LexError (List Token) → Prop
  | finish {head : ReadingHead} : head.atEnd = true → Reads head (.ok [.endOfInput head.position])
  | fault {head : ReadingHead} {c : Char} {cs : List Char} {fault : LexFault} :
    head.remainder? = some (String.ofList (c :: cs)) → scan c cs = .fault fault →
    Reads head (.error ⟨fault, head.position⟩)
  | gap {head : ReadingHead} {c : Char} {tail rest : List Char} {result : Except LexError (List Token)} :
    head.remainder? = some (String.ofList (c :: (tail ++ rest))) → scan c (tail ++ rest) = .gap tail.length →
    Reads (head.advance (byteLength (c :: tail))) result → Reads head result
  | lexeme {head : ReadingHead} {c : Char} {tail rest : List Char} {kind : Kind}
      {result : Except LexError (List Token)} :
    head.remainder? = some (String.ofList (c :: (tail ++ rest))) → scan c (tail ++ rest) = .lexeme kind tail.length →
    Reads (head.advance (byteLength (c :: tail))) result →
    Reads head (result.map (⟨kind, String.ofList (c :: tail), head.span (byteLength (c :: tail))⟩ :: ·))

section
variable {head : ReadingHead} {p rest : List Char}

/-- The head stands before the given rest of its source. -/
def Before (head : ReadingHead) (rest : List Char) : Prop := dropBytes head.source head.passed = some rest

theorem remainder?_eq_some_iff : head.remainder? = some (String.ofList rest) ↔ head.Before rest := by
  unfold remainder? Before
  cases dropBytes head.source head.passed with
  | none => simp
  | some cs => simp [String.ofList_inj]

theorem Before.advance (h : head.Before (p ++ rest)) : (head.advance (byteLength p)).Before rest := by
  obtain ⟨passed, hsource, hlength⟩ := exists_append_of_dropBytes h
  unfold Before ReadingHead.advance
  rw [hsource, ← hlength, ← byteLength_append, ← List.append_assoc]
  exact dropBytes_append _ _

theorem Before.atEnd_iff (h : head.Before rest) : head.atEnd = true ↔ rest = [] := by
  obtain ⟨passed, hsource, hlength⟩ := exists_append_of_dropBytes h
  unfold ReadingHead.atEnd
  rw [hsource, byteLength_append, hlength, decide_eq_true_iff]
  cases rest with
  | nil => simp [byteLength]
  | cons c cs =>
    have hc := c.utf8Size_pos
    simp only [byteLength, reduceCtorEq, iff_false]
    omega

/-- What is read with a head are the tokens of the rest it stands before. -/
theorem Reads.tokensFrom_eq {result : Except LexError (List Token)} (h : head.Reads result)
    (hrest : head.Before rest) : tokensFrom head.passed 0 rest = result := by
  induction h generalizing rest with
  | finish hend =>
    rw [hrest.atEnd_iff.1 hend]
    rfl
  | fault hremainder hscan =>
    obtain rfl := Option.some.inj (hrest.symm.trans (remainder?_eq_some_iff.1 hremainder))
    rw [tokensFrom, hscan]
    rfl
  | @gap _ c tail rest' _ hremainder hscan _ ih =>
    have hpiece := remainder?_eq_some_iff.1 hremainder
    obtain rfl := Option.some.inj (hrest.symm.trans hpiece)
    rw [tokensFrom_of_gap tail rest' hscan]
    exact ih (Before.advance (p := c :: tail) hpiece)
  | @lexeme _ c tail rest' _ _ hremainder hscan _ ih =>
    have hpiece := remainder?_eq_some_iff.1 hremainder
    obtain rfl := Option.some.inj (hrest.symm.trans hpiece)
    rw [tokensFrom_of_lexeme tail rest' hscan]
    exact congrArg _ (ih (Before.advance (p := c :: tail) hpiece))

theorem reads_tokensFrom (h : head.Before rest) : head.Reads (tokensFrom head.passed 0 rest) := by
  induction hn : rest.length using Nat.strongRecOn generalizing head rest with
  | ind n ih =>
    cases rest with
    | nil => exact .finish (h.atEnd_iff.2 rfl)
    | cons c cs =>
      have hremainder := remainder?_eq_some_iff.2 h
      cases hscan : scan c cs with
      | fault fault =>
        rw [tokensFrom, hscan]
        exact .fault hremainder hscan
      | gap more =>
        obtain ⟨tail, rest, rfl, rfl, -⟩ := gap_of_scan hscan
        rw [tokensFrom_of_gap tail rest hscan]
        rw [List.length_cons, List.length_append] at hn
        exact .gap hremainder hscan (ih rest.length (by omega) (Before.advance (p := c :: tail) h) rfl)
      | lexeme kind more =>
        obtain ⟨tail, rest, rfl, rfl, -, -⟩ := lexeme_of_scan hscan
        rw [tokensFrom_of_lexeme tail rest hscan]
        rw [List.length_cons, List.length_append] at hn
        exact .lexeme hremainder hscan (ih rest.length (by omega) (Before.advance (p := c :: tail) h) rfl)

end

/-- With a head at its beginning a source is read as `tokenize` reads it. -/
theorem reads_iff {source : String} {result : Except LexError (List Token)} :
    (ofString source).Reads result ↔ tokenize source = result := by
  have hstart : (ofString source).Before source.toList := by
    unfold Before ofString
    rw [dropBytes]
  constructor
  · exact fun h => h.tokensFrom_eq hstart
  · rintro rfl
    exact reads_tokensFrom hstart

end ReadingHead

end TexFormula

import TexFormula.Formula
import TexFormula.Proofs.Parser.Justified
import TexFormula.Proofs.Token.Decomposition

/-!
# Errors point into the source

* `closed tokens` : the tokens with an end after them, if they have none; this is what the parser reads;
* `Diagnostic.Located source` : the error stands between two characters of the source; there an error in
  the characters finds one, and an error in the tokens the text of its token, or the end of the source;
* `exists_split_of_tokensFrom_error`, `Cut.exists_split_of_mem` : where faults and tokens stand in a text;
* `truthful_and_located_of_error` : the errors of the parser tell the truth about the tokens, and those of
  a formula point into its source.
-/

namespace TexFormula

/-! ## The stream that is read -/

/-- The tokens with an end after them, unless the last of them is an end. -/
def closed (tokens : List Token) : List Token :=
  match tokens.getLast? with
  | none => [.endOfInput (.ofOffset 0)]
  | some last => if last.kind = .eof then tokens else tokens ++ [.endOfInput last.span.stop]

theorem tokens_ofTokens (tokens : List Token) : (Cursor.ofTokens tokens).tokens = closed tokens := by
  unfold Cursor.ofTokens closed
  cases hlast : tokens.getLast? with
  | none => rfl
  | some last =>
    obtain ⟨init, rfl⟩ := List.getLast?_eq_some_iff.1 hlast
    obtain ⟨kind, text, span⟩ := last
    by_cases hk : kind = .eof
    · simp [hk, Cursor.tokens, EndMark.token]
    · simp [hk, Cursor.tokens, EndMark.token, EndMark.atPosition, Token.endOfInput]

theorem Cut.exists_tokens_eq (cut : Cut) (offset : Nat) :
    ∃ others place, cut.tokens offset = others ++ [.endOfInput place] := by
  induction cut generalizing offset with
  | last gap => exact ⟨[], .ofOffset (offset + byteLength gap), rfl⟩
  | next gap lexeme rest ih =>
    obtain ⟨others, place, heq⟩ := ih (offset + byteLength gap + byteLength lexeme)
    rw [Cut.tokens, heq]
    exact ⟨_ :: others, place, rfl⟩

theorem closed_of_tokenize {source : String} {tokens : List Token} (h : tokenize source = .ok tokens) :
    closed tokens = tokens := by
  obtain ⟨cut, -, -, rfl⟩ := exists_cut_of_tokensFrom h
  obtain ⟨others, place, heq⟩ := cut.exists_tokens_eq 0
  simp [closed, heq, Token.endOfInput]

theorem parseFormulaWithin_error_cases {limit : Nat} {source : String} {diagnostic : Diagnostic}
    (h : parseFormulaWithin limit source = .error diagnostic) :
    (∃ error, tokenize source = .error error ∧ diagnostic = .lexical error) ∨
    ∃ tokens error, tokenize source = .ok tokens ∧ parseTokens limit tokens = .error error ∧
      diagnostic = .syntactic error := by
  unfold parseFormulaWithin at h
  split at h
  · next error htokenize =>
    cases h
    exact .inl ⟨error, htokenize, rfl⟩
  · next tokens htokenize =>
    cases hparse : parseTokens limit tokens with
    | ok e =>
      rw [hparse] at h
      cases h
    | error error =>
      rw [hparse] at h
      cases h
      exact .inr ⟨tokens, error, htokenize, hparse, rfl⟩

/-! ## Places in a text -/

/-- A fault is found between two characters of the text, and one of them follows. -/
theorem exists_split_of_tokensFrom_error {text : List Char} {offset covered : Nat} {error : LexError}
    (h : tokensFrom offset covered text = .error error) : ∃ before rest, text = before ++ rest ∧ rest ≠ [] ∧
      error.position = .ofOffset (offset + byteLength before) := by
  induction text generalizing offset covered with
  | nil => cases h
  | cons c cs ih =>
    have hnext {more : Nat} (h : tokensFrom (offset + c.utf8Size) more cs = .error error) :
        ∃ before rest, c :: cs = before ++ rest ∧ rest ≠ [] ∧
          error.position = .ofOffset (offset + byteLength before) := by
      obtain ⟨before, rest, rfl, hne, hp⟩ := ih h
      exact ⟨c :: before, rest, rfl, hne, by rw [hp, byteLength, Nat.add_assoc]⟩
    cases covered with
    | succ more => exact hnext h
    | zero =>
      rw [tokensFrom] at h
      cases hscan : scan c cs with
      | fault fault =>
        rw [hscan] at h
        cases h
        exact ⟨[], c :: cs, rfl, List.cons_ne_nil _ _, rfl⟩
      | gap more =>
        rw [hscan] at h
        exact hnext h
      | lexeme kind more =>
        rw [hscan] at h
        cases hothers : tokensFrom (offset + c.utf8Size) more cs with
        | ok others =>
          simp only [hothers] at h
          cases h
        | error e =>
          simp only [hothers] at h
          cases h
          exact hnext hothers

theorem Cut.exists_split_of_mem {cut : Cut} {offset : Nat} {token : Token} (h : token ∈ cut.tokens offset) :
    ∃ before rest, cut.text = before ++ rest ∧ token.position = .ofOffset (offset + byteLength before) ∧
      (token.kind = .eof ∧ rest = [] ∨ token.text.toList <+: rest) := by
  induction cut generalizing offset with
  | last gap =>
    obtain rfl := List.mem_singleton.1 h
    exact ⟨gap, [], (List.append_nil gap).symm, rfl, .inl ⟨rfl, rfl⟩⟩
  | next gap lexeme rest ih =>
    rcases List.mem_cons.1 h with rfl | h
    · refine ⟨gap, lexeme ++ rest.text, rfl, rfl, .inr ?_⟩
      rw [String.toList_ofList]
      exact List.prefix_append lexeme rest.text
    · obtain ⟨before, after, heq, hp, hrest⟩ := ih h
      refine ⟨gap ++ (lexeme ++ before), after, ?_, ?_, hrest⟩
      · rw [Cut.text, heq, List.append_assoc, List.append_assoc]
      · rw [hp, byteLength_append, byteLength_append]
        simp only [Nat.add_assoc]

theorem offset_of_split {source : String} (hsize : source.utf8ByteSize < UInt32.size) {before rest : List Char}
    (hsplit : source.toList = before ++ rest) {p : Position} (hp : p = .ofOffset (byteLength before)) :
    p.offset ≤ source.utf8ByteSize ∧ dropBytes source.toList p.offset = some rest := by
  have hlength : byteLength before + byteLength rest = source.utf8ByteSize := by
    rw [← byteLength_append, ← hsplit, byteLength_ofList, String.ofList_toList]
  rw [hp, Position.offset_ofOffset (by omega), hsplit]
  exact ⟨by omega, dropBytes_append before rest⟩

/-! ## Errors of a formula -/

/-- The error stands between two characters of the source, and what it is about stands there. -/
def Diagnostic.Located (source : String) (diagnostic : Diagnostic) : Prop :=
  ∃ rest, dropBytes source.toList diagnostic.position.offset = some rest ∧
    match diagnostic with
    | .lexical _ => rest ≠ []
    | .syntactic error => error.token.kind = .eof ∧ rest = [] ∨ error.token.text.toList <+: rest

theorem SyntaxError.Truthful.mem {limit : Nat} {stream : List Token} {error : SyntaxError}
    (h : error.Truthful limit stream) : error.token ∈ stream := by
  obtain ⟨before, after, rfl, -, -⟩ := h
  simp

theorem truthful_of_error {limit : Nat} {tokens : List Token} {error : SyntaxError}
    (h : parseTokens limit tokens = .error error) : error.Truthful limit (closed tokens) := by
  obtain ⟨t, ht⟩ := settled_eq_error_iff.1 h
  rw [← tokens_ofTokens]
  exact truthful_of_wholeInput ht

/--
Every error of the parser is pinned to a token that is read, at or before the first end, and says what is
so of that token and of those before it. Every error of a formula points into its source, at the text that
it is about.
-/
theorem truthful_and_located_of_error (limit : Nat) :
    (∀ tokens error, parseTokens limit tokens = .error error → error.Truthful limit (closed tokens)) ∧
    ∀ source : String, source.utf8ByteSize < UInt32.size → ∀ diagnostic,
      parseFormulaWithin limit source = .error diagnostic →
        diagnostic.position.offset ≤ source.utf8ByteSize ∧ diagnostic.Located source := by
  refine ⟨fun tokens error h => truthful_of_error h, fun source hsize diagnostic h => ?_⟩
  unfold parseFormulaWithin at h
  split at h
  · next error htokenize =>
    cases h
    obtain ⟨before, rest, hsplit, hne, hp⟩ := exists_split_of_tokensFrom_error htokenize
    rw [Nat.zero_add] at hp
    obtain ⟨hle, hdrop⟩ := offset_of_split hsize hsplit hp
    exact ⟨hle, rest, hdrop, hne⟩
  · next tokens htokenize =>
    cases hparse : parseTokens limit tokens with
    | ok e =>
      rw [hparse] at h
      cases h
    | error error =>
      rw [hparse] at h
      cases h
      have hmem := (truthful_of_error hparse).mem
      rw [closed_of_tokenize htokenize] at hmem
      obtain ⟨cut, -, htext, rfl⟩ := exists_cut_of_tokensFrom htokenize
      obtain ⟨before, rest, hsplit, hp, hrest⟩ := cut.exists_split_of_mem hmem
      rw [htext] at hsplit
      rw [Nat.zero_add] at hp
      obtain ⟨hle, hdrop⟩ := offset_of_split hsize hsplit hp
      exact ⟨hle, rest, hdrop, hrest⟩

/-- A parenthesis after `\left` that is closed without `\right`. -/
theorem truthful_and_located_of_error_left :
    let tokens : List Token := [⟨.left, "\\left", .ofBytes 0 5⟩, ⟨.openParen, "(", .ofBytes 5 1⟩,
      ⟨.identifier, "x", .ofBytes 6 1⟩, ⟨.closeParen, ")", .ofBytes 7 1⟩]
    let error : SyntaxError := ⟨.unmatchedDelimiter "\\left" "\\right" ")", ⟨.closeParen, ")", .ofBytes 7 1⟩⟩
    parseTokens 8 tokens = .error error ∧ error.Truthful 8 (closed tokens) ∧
      parseFormulaWithin 8 "\\left(x)" = .error (.syntactic error) ∧
      (Diagnostic.syntactic error).position.offset ≤ "\\left(x)".utf8ByteSize ∧
      (Diagnostic.syntactic error).Located "\\left(x)" := by
  intro tokens error
  obtain ⟨htruthful, hlocated⟩ := truthful_and_located_of_error 8
  have htokens : parseTokens 8 tokens = .error error := errorOf?_eq_some_iff.1 (by decide +kernel)
  have hformula : parseFormulaWithin 8 "\\left(x)" = .error (.syntactic error) :=
    errorOf?_eq_some_iff.1 (by decide +kernel)
  exact ⟨htokens, htruthful tokens error htokens, hformula, hlocated _ (by decide) _ hformula⟩

end TexFormula

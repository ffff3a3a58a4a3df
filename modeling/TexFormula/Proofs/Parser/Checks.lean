import TexFormula.Proofs.Diagnostic.Located
import TexFormula.Proofs.Token.Lexed

/-!
# Checks that never fail

On tokens that come from a text the parser's four checks hold, so that it makes no difference what it would do
if one of them failed.

* `Token.Lexed.not_malformed` : the tokens of a text are spelled as their kinds ask;
* `checks_hold_of_tokenize` : whatever the fallback is, the tokens of a source are read as the parser reads
  them, and a token that is called unexpected starts no primary.
-/

namespace TexFormula

theorem Token.Lexed.isSome_symbolName? {token : Token} (h : token.Lexed) (hk : token.kind = .symbol) :
    (symbolName? token.text).isSome = true := by
  have hvoc : ∀ entry ∈ vocabulary, entry.2 = .symbol → (symbolName? entry.1).isSome = true := by decide +kernel
  rcases h.spelling with ⟨hnum, -⟩ | hkind | ⟨hid, -⟩
  · rw [hk] at hnum
    cases hnum
  · exact hvoc _ (mem_vocabulary hkind) hk
  · rw [hk] at hid
    cases hid

theorem Token.Lexed.not_malformed {token : Token} (h : token.Lexed) : ¬ token.Malformed := by
  rintro (⟨hk, hdecimal⟩ | ⟨hk, hname⟩)
  · rw [isDecimal_iff.2 (h.numeral_text hk)] at hdecimal
    cases hdecimal
  · have hsome := h.isSome_symbolName? hk
    rw [hname] at hsome
    cases hsome

theorem not_malformed_of_tokenize {source : String} {tokens : List Token} (h : tokenize source = .ok tokens)
    {token : Token} (ht : token ∈ (Cursor.ofTokens tokens).tokens) : ¬ token.Malformed := by
  rw [tokens_ofTokens, closed_of_tokenize h] at ht
  rcases lexed_of_tokenize h ht with hk | hlexed
  · rintro (⟨hnumber, -⟩ | ⟨hsymbol, -⟩)
    · rw [hk] at hnumber
      cases hnumber
    · rw [hk] at hsymbol
      cases hsymbol
  · exact hlexed.not_malformed

/--
On the tokens of a source none of the four checks fails: whatever the parser did in that case, even if it gave
up at once, it would read the same. So a token that is called unexpected is one that starts no primary, and
not the end.
-/
theorem checks_hold_of_tokenize {source : String} {tokens : List Token} (h : tokenize source = .ok tokens)
    (limit : Nat) :
    (∀ fallback : Fallback, fallback.wholeInput (.standard limit) (.ofTokens tokens) =
      wholeInput (.standard limit) (.ofTokens tokens)) ∧
    ∀ found token, parseFormulaWithin limit source = .error (.syntactic ⟨.unexpectedToken found, token⟩) →
      token.kind ≠ .eof ∧ (Rules.standard limit).primary? token.kind = none := by
  have hmalformed {token : Token} (ht : token ∈ (Cursor.ofTokens tokens).tokens) : ¬ token.Malformed :=
    not_malformed_of_tokenize h ht
  refine ⟨fun fallback => ?_, fun found token herror => ?_⟩
  · exact (coincides_ofTokens fun token ht hm => absurd hm (hmalformed ht)).1
  · rcases parseFormulaWithin_error_cases herror with ⟨_, _, heq⟩ | ⟨tokens', error, htokens, hparse, heq⟩
    · cases heq
    · cases heq
      rw [h] at htokens
      cases htokens
      obtain ⟨t, ht⟩ := settled_eq_error_iff.1 hparse
      have hexplains := explains_of_wholeInput ht
      obtain ⟨before, after, hstream, -, -, hne⟩ := hexplains.truthful
      refine ⟨hne, (hexplains.unexpected rfl).resolve_right (hmalformed ?_)⟩
      rw [show (Cursor.ofTokens tokens).tokens = _ from hstream]
      simp

-- Tokens that come from no text can fail a check, and then the fallback decides.
example :
    let tokens : List Token := [⟨.number, "1.", .ofBytes 0 2⟩]
    let lenient : Fallback := { Fallback.refusing with noNumber := fun token => pure (.number token.text) }
    (∃ t, lenient.wholeInput (.standard 8) (.ofTokens tokens) = .ok (.number "1.") t) ∧
    ∃ t, wholeInput (.standard 8) (.ofTokens tokens) =
      .error (.rejected ⟨.unexpectedToken "1.", ⟨.number, "1.", .ofBytes 0 2⟩⟩) t :=
  ⟨⟨_, rfl⟩, ⟨_, rfl⟩⟩

/-- The four checks are made between the bars and at the second one, before the parenthesis that is left over. -/
theorem checks_hold_of_tokenize_leftover :
    let tokens : List Token := [⟨.bar, "|", .ofBytes 0 1⟩, ⟨.symbol, "\\mu", .ofBytes 1 3⟩,
      ⟨.plus, "+", .ofBytes 4 1⟩, ⟨.number, "2.5", .ofBytes 5 3⟩, ⟨.bar, "|", .ofBytes 8 1⟩,
      ⟨.closeParen, ")", .ofBytes 9 1⟩, .endOfInput (.ofOffset 10)]
    tokenize "|\\mu+2.5|)" = .ok tokens ∧
    (∀ fallback : Fallback, fallback.wholeInput (.standard 8) (.ofTokens tokens) =
      wholeInput (.standard 8) (.ofTokens tokens)) ∧
    parseFormulaWithin 8 "|\\mu+2.5|)" =
      .error (.syntactic ⟨.unexpectedToken ")", ⟨.closeParen, ")", .ofBytes 9 1⟩⟩) ∧
    Kind.closeParen ≠ .eof ∧ (Rules.standard 8).primary? .closeParen = none := by
  intro tokens
  have htokens : tokenize "|\\mu+2.5|)" = .ok tokens := rfl
  have herror : parseFormulaWithin 8 "|\\mu+2.5|)" =
      .error (.syntactic ⟨.unexpectedToken ")", ⟨.closeParen, ")", .ofBytes 9 1⟩⟩) :=
    errorOf?_eq_some_iff.1 (by decide +kernel)
  obtain ⟨hsame, hblocked⟩ := checks_hold_of_tokenize htokens 8
  exact ⟨htokens, hsame, herror, hblocked _ _ herror⟩

end TexFormula

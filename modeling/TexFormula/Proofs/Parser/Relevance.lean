import TexFormula.Proofs.Token.Spacing

/-!
# What of a stream matters

What the parser makes of a stream depends on the kinds and the texts of its tokens up to the first end, and on
nothing else in it.

* `endPosition tokens` : where a list of tokens that has no end is closed;
* `SamePlace tokens tokens' token token'` : the two tokens have the same index in their lists, or are the ends
  that were set after them;
* `same_outcome_of_map_content` : the spans of the tokens do not matter; they only show in the token that an
  error is pinned to, and that has the same place in both streams;
* `parseTokens_eq_up_to_end` : what comes after the first end does not matter, and a stream without an end is
  read as if it had one.
-/

namespace TexFormula

/-! ## Streams and their ends -/

/-- Where the last of some tokens stops; without any, the start of the source. -/
def endPosition (tokens : List Token) : Position := (tokens.getLast?.map fun last => last.span.stop).getD (.ofOffset 0)

/-- Whether a stream is closed where it stops depends on the kind of its last token. -/
theorem closed_eq_ite (tokens : List Token) : closed tokens =
    if tokens.getLast?.map Token.kind = some .eof then tokens else tokens ++ [.endOfInput (endPosition tokens)] := by
  unfold closed endPosition
  cases hlast : tokens.getLast? with
  | none => rw [List.getLast?_eq_none_iff.1 hlast]; rfl
  | some last => simp

theorem closed_append_end {mark : Token} (hk : mark.kind = .eof) (tokens : List Token) :
    closed (tokens ++ [mark]) = tokens ++ [mark] := by
  rw [closed_eq_ite, List.getLast?_concat, Option.map_some, hk, if_pos rfl]

theorem exists_closed_append (tokens rest : List Token) : ∃ more, closed (tokens ++ rest) = tokens ++ more := by
  rw [closed_eq_ite]
  split
  · exact ⟨rest, rfl⟩
  · exact ⟨rest ++ [_], List.append_assoc _ _ _⟩

/-! ## Spans -/

/-- The tokens have the same index in their lists, or are the ends that were set after these. -/
def SamePlace (tokens tokens' : List Token) (token token' : Token) : Prop :=
  (∃ i : Nat, tokens[i]? = some token ∧ tokens'[i]? = some token') ∨
    closed tokens = tokens ++ [token] ∧ closed tokens' = tokens' ++ [token']

section
variable {tokens tokens' : List Token}

theorem map_getLast?_of_map_content (h : tokens.map Token.content = tokens'.map Token.content) :
    tokens.getLast?.map Token.kind = tokens'.getLast?.map Token.kind := by
  have hlast := congrArg (fun contents => contents.getLast?.map Prod.fst) h
  simp only [List.getLast?_map, Option.map_map] at hlast
  exact hlast

theorem map_content_closed (h : tokens.map Token.content = tokens'.map Token.content) :
    (closed tokens).map Token.content = (closed tokens').map Token.content := by
  rw [closed_eq_ite, closed_eq_ite, map_getLast?_of_map_content h]
  split
  · exact h
  · rw [List.map_append, List.map_append, h]
    rfl

theorem exists_index_of_mem_zip {token token' : Token} (h : (token, token') ∈ tokens.zip tokens') :
    ∃ i : Nat, tokens[i]? = some token ∧ tokens'[i]? = some token' := by
  obtain ⟨i, hi⟩ := List.mem_iff_getElem?.1 h
  exact ⟨i, List.getElem?_zip_eq_some.1 hi⟩

theorem samePlace_of_mem_zip (h : tokens.map Token.content = tokens'.map Token.content) {token token' : Token}
    (hmem : (token, token') ∈ (closed tokens).zip (closed tokens')) : SamePlace tokens tokens' token token' := by
  have hlength : tokens.length = tokens'.length := by simpa using congrArg List.length h
  have hclosed := closed_eq_ite tokens
  have hclosed' := closed_eq_ite tokens'
  rw [← map_getLast?_of_map_content h] at hclosed'
  by_cases hlast : tokens.getLast?.map Token.kind = some .eof
  · rw [if_pos hlast] at hclosed hclosed'
    rw [hclosed, hclosed'] at hmem
    exact .inl (exists_index_of_mem_zip hmem)
  · rw [if_neg hlast] at hclosed hclosed'
    rw [hclosed, hclosed', List.zip_append hlength, List.mem_append] at hmem
    rcases hmem with hmem | hmem
    · exact .inl (exists_index_of_mem_zip hmem)
    · obtain ⟨rfl, rfl⟩ := Prod.mk.inj (List.mem_singleton.1 hmem)
      exact .inr ⟨hclosed, hclosed'⟩

/--
Where tokens stand does not matter. Two streams whose tokens agree in kind and text, one by one, have the same
tree, or errors of the same cause that are pinned to tokens with the same place.
-/
theorem same_outcome_of_map_content (h : tokens.map Token.content = tokens'.map Token.content) (limit : Nat) :
    (∃ e, parseTokens limit tokens = .ok e ∧ parseTokens limit tokens' = .ok e) ∨
    ∃ fault token token', parseTokens limit tokens = .error ⟨fault, token⟩ ∧
      parseTokens limit tokens' = .error ⟨fault, token'⟩ ∧ SamePlace tokens tokens' token token' := by
  -- What is carried through both runs also says where the two tokens come from.
  have hR := likeness_content.and (SamePlace tokens tokens')
  have hcontent := map_content_closed h
  rw [← List.forall₂_eq_eq_eq, List.forall₂_map_left_iff, List.forall₂_map_right_iff,
    List.forall₂_iff_zip] at hcontent
  have halike : List.Forall₂ (fun token token' => token.content = token'.content ∧ SamePlace tokens tokens' token token')
      (Cursor.ofTokens tokens).tokens (Cursor.ofTokens tokens').tokens := by
    rw [tokens_ofTokens, tokens_ofTokens, List.forall₂_iff_zip]
    exact ⟨hcontent.1, fun hmem => ⟨hcontent.2 hmem, samePlace_of_mem_zip h hmem⟩⟩
  rcases parseTokens_of_alike hR halike limit with hok | ⟨fault, token, token', hr, herror, herror'⟩
  · exact .inl hok
  · exact .inr ⟨fault, token, token', herror, herror', hr.2⟩

end

/-- The tokens of `\sin(x`, with spans that fit no source: both errors are pinned to the end that is missing. -/
theorem same_outcome_of_map_content_unclosed :
    let tokens : List Token := [⟨.sin, "\\sin", .ofBytes 0 4⟩, ⟨.openParen, "(", .ofBytes 4 1⟩,
      ⟨.identifier, "x", .ofBytes 5 1⟩]
    let tokens' : List Token := [⟨.sin, "\\sin", .ofBytes 7 0⟩, ⟨.openParen, "(", .ofBytes 7 0⟩,
      ⟨.identifier, "x", .ofBytes 2 1⟩]
    let fault : SyntaxFault := .unmatchedDelimiter "(" ")" "EOF"
    tokens.map Token.content = tokens'.map Token.content ∧
      parseTokens 3 tokens = .error ⟨fault, .endOfInput (.ofOffset 6)⟩ ∧
      parseTokens 3 tokens' = .error ⟨fault, .endOfInput (.ofOffset 3)⟩ ∧
      SamePlace tokens tokens' (.endOfInput (.ofOffset 6)) (.endOfInput (.ofOffset 3)) := by
  intro tokens tokens' fault
  have h : tokens.map Token.content = tokens'.map Token.content := rfl
  have herror : parseTokens 3 tokens = .error ⟨fault, .endOfInput (.ofOffset 6)⟩ :=
    errorOf?_eq_some_iff.1 (by decide +kernel)
  have herror' : parseTokens 3 tokens' = .error ⟨fault, .endOfInput (.ofOffset 3)⟩ :=
    errorOf?_eq_some_iff.1 (by decide +kernel)
  refine ⟨h, herror, herror', ?_⟩
  rcases same_outcome_of_map_content h 3 with ⟨e, he, -⟩ | ⟨_, _, _, he, he', hplace⟩
  · rw [herror] at he
    cases he
  · rw [herror] at he
    rw [herror'] at he'
    cases he
    cases he'
    exact hplace

/-! ## What comes after the first end -/

theorem likeness_eq : Likeness Eq where
  kind_eq h := congrArg Token.kind h
  text_eq h := congrArg Token.text h

theorem parseTokens_congr_upToEnd {tokens tokens' : List Token} (h : upToEnd (closed tokens) = upToEnd (closed tokens'))
    (limit : Nat) : parseTokens limit tokens = parseTokens limit tokens' := by
  have halike : List.Forall₂ Eq (upToEnd (Cursor.ofTokens tokens).tokens) (upToEnd (Cursor.ofTokens tokens').tokens) := by
    rw [tokens_ofTokens, tokens_ofTokens, List.forall₂_eq_eq_eq]
    exact h
  rcases parseTokens_of_upToEnd likeness_eq halike limit with ⟨e, he, he'⟩ | ⟨fault, token, _, rfl, he, he'⟩
  · rw [he, he']
  · rw [he, he']

/--
Nothing after the first end is looked at, neither by the reading nor by its errors. A stream without an end is
read as if it had one where its last token stops.
-/
theorem parseTokens_eq_up_to_end (limit : Nat) :
    (∀ (before : List Token) (mark : Token) (rest : List Token), (∀ token ∈ before, token.kind ≠ .eof) →
      mark.kind = .eof →
      parseTokens limit (before ++ [mark] ++ rest) = parseTokens limit (before ++ [mark])) ∧
    ∀ tokens : List Token, (∀ token ∈ tokens, token.kind ≠ .eof) →
      parseTokens limit tokens = parseTokens limit (tokens ++ [.endOfInput (endPosition tokens)]) := by
  constructor
  · intro before mark rest hbefore hmark
    apply parseTokens_congr_upToEnd
    obtain ⟨more, hmore⟩ := exists_closed_append (before ++ [mark]) rest
    rw [hmore, closed_append_end hmark, List.append_assoc, List.singleton_append,
      upToEnd_append_end hbefore hmark, upToEnd_append_end hbefore hmark]
  · intro tokens hne
    apply parseTokens_congr_upToEnd
    have hlast : tokens.getLast?.map Token.kind ≠ some .eof := by
      intro h
      obtain ⟨last, hlast, hk⟩ := Option.map_eq_some_iff.1 h
      exact hne last (List.mem_of_getLast? hlast) hk
    rw [closed_append_end rfl, closed_eq_ite, if_neg hlast]

/--
The tokens of `c_{ab` with a brace after their end. Looking for a name in braces, the parser comes as far as the
end and does not see the brace, so the two letters are a product that is not closed.
-/
theorem parseTokens_eq_up_to_end_braces :
    let before : List Token := [⟨.identifier, "c", .ofBytes 0 1⟩, ⟨.underscore, "_", .ofBytes 1 1⟩,
      ⟨.openCurly, "\x7b", .ofBytes 2 1⟩, ⟨.identifier, "a", .ofBytes 3 1⟩, ⟨.identifier, "b", .ofBytes 4 1⟩]
    let mark : Token := .endOfInput (.ofOffset 5)
    let rest : List Token := [⟨.closeCurly, "\x7d", .ofBytes 5 1⟩]
    let outcome : Except SyntaxError Expr := .error ⟨.unmatchedDelimiter "\x7b" "\x7d" "EOF", mark⟩
    parseTokens 2 before = outcome ∧ parseTokens 2 (before ++ [mark] ++ rest) = outcome := by
  intro before mark rest outcome
  have hbefore : ∀ token ∈ before, token.kind ≠ .eof := by decide
  obtain ⟨hrest, hclose⟩ := parseTokens_eq_up_to_end 2
  have hend : parseTokens 2 (before ++ [mark]) = outcome := errorOf?_eq_some_iff.1 (by decide +kernel)
  constructor
  · rw [hclose before hbefore]
    exact hend
  · rw [hrest before mark rest hbefore rfl]
    exact hend

end TexFormula

import TexFormula.Proofs.Diagnostic.Located
import TexFormula.Proofs.Parser.Likeness

/-!
# Spacing between lexemes

However the lexemes of a formula are spaced out, it is read in the same way.

* `Spaced lexemes text` : the text is made of the lexemes in order, with gaps between them that are not
  empty, and any gaps before the first and after the last; `Spread` is the part after a lexeme;
* `Token.content`, `Diagnostic.cause` : tokens and errors without their places;
* `Lexeme.of_stops` : a lexeme that was cut out of a text is one before everything that is no letter and
  no digit;
* `tokenize_of_spaced` : spaced out, the lexemes make the same tokens, but for their places;
* `same_reading_of_spaced` : and the same tree, or an error of the same cause.
-/

namespace TexFormula

/-- The text goes on with the lexemes, each after a gap that is not empty, and ends in a gap. -/
inductive Spread : List String → List Char → Prop
  | last {gap : List Char} : Gap gap → Spread [] gap
  | next {gap rest : List Char} {lexeme : String} {lexemes : List String} : Gap gap → gap ≠ [] →
    Spread lexemes rest → Spread (lexeme :: lexemes) (gap ++ (lexeme.toList ++ rest))

/--
The text is made of the lexemes in order. The gaps between two of them are not empty; before the first and
after the last there may be any gap.
-/
inductive Spaced : List String → List Char → Prop
  | blank {gap : List Char} : Gap gap → Spaced [] gap
  | first {gap rest : List Char} {lexeme : String} {lexemes : List String} : Gap gap → Spread lexemes rest →
    Spaced (lexeme :: lexemes) (gap ++ (lexeme.toList ++ rest))

/-- What a token is, apart from where it stands. -/
def Token.content (token : Token) : Kind × String := (token.kind, token.text)

/-- What is wrong with a formula, apart from where. -/
def Diagnostic.cause : Diagnostic → LexFault ⊕ SyntaxFault
  | .lexical error => .inl error.fault
  | .syntactic error => .inr error.fault

def Cut.lexemes : Cut → List String
  | .last _ => []
  | .next _ lexeme rest => String.ofList lexeme :: rest.lexemes

/-! ## Tokens of a cut -/

theorem Cut.map_content_tokens (cut : Cut) (offset : Nat) : (cut.tokens offset).map Token.content =
    cut.lexemes.map (fun lexeme => (lexemeKind lexeme.toList, lexeme)) ++ [(.eof, "EOF")] := by
  induction cut generalizing offset with
  | last gap => rfl
  | next gap lexeme rest ih =>
    rw [Cut.tokens, List.map_cons, ih, Cut.lexemes, List.map_cons, String.toList_ofList]
    rfl

theorem Cut.map_text_dropLast (cut : Cut) (offset : Nat) :
    (cut.tokens offset).dropLast.map Token.text = cut.lexemes := by
  have hmap : ∀ tokens : List Token, tokens.map Token.text = (tokens.map Token.content).map Prod.snd := by
    intro tokens
    rw [List.map_map]
    rfl
  rw [List.map_dropLast, hmap, map_content_tokens, List.map_append, List.map_map]
  show (List.map (fun lexeme => lexeme) cut.lexemes ++ ["EOF"]).dropLast = _
  rw [List.map_id', List.dropLast_concat]

theorem Cut.Valid.exists_lexeme {cut : Cut} (h : cut.Valid) {lexeme : String} (hl : lexeme ∈ cut.lexemes) :
    ∃ rest, Lexeme lexeme.toList rest := by
  induction cut with
  | last gap => cases hl
  | next gap text rest ih =>
    obtain ⟨-, htext, hrest⟩ := h
    rcases List.mem_cons.1 hl with rfl | hl
    · rw [String.toList_ofList]
      exact ⟨_, htext⟩
    · exact ih hrest hl

/-! ## Lexemes that are spaced out -/

/-- A lexeme of some text is one before any text that does not begin with a letter or a digit. -/
theorem Lexeme.of_stops {text rest rest' : List Char} (h : Lexeme text rest) (ha : Stops Char.isAlpha rest')
    (hd : Stops Char.isDigit rest') : Lexeme text rest' := by
  cases h with
  | rowBreak => exact .rowBreak
  | command hne hl hk _ => exact .command hne hl hk ha
  | number hnum _ => exact .number hnum hd
  | assign => exact .assign
  | punctuation hc => exact .punctuation hc
  | keyword hk _ => exact .keyword hk ha
  | letter hc _ => exact lexeme_of_isAlpha hc ha

theorem Gap.stops {gap : List Char} (h : Gap gap) {p : Char → Bool} (hspace : p ' ' = false)
    (hslash : p '\\' = false) {rest : List Char} (hrest : gap = [] → Stops p rest) : Stops p (gap ++ rest) := by
  cases h with
  | nil => exact hrest rfl
  | space _ =>
    rintro _ ⟨⟩
    exact hspace
  | command _ =>
    rintro _ ⟨⟩
    exact hslash

theorem Spread.stops {lexemes : List String} {text : List Char} (h : Spread lexemes text) {p : Char → Bool}
    (hspace : p ' ' = false) (hslash : p '\\' = false) : Stops p text := by
  cases h with
  | last hgap =>
    rw [← List.append_nil text]
    refine hgap.stops hspace hslash fun _ => ?_
    rintro _ ⟨⟩
  | next hgap hne _ => exact hgap.stops hspace hslash fun hnil => absurd hnil hne

section
variable {lexemes : List String} {text : List Char}

/-- A lexeme can be put before lexemes that are spread out, and is cut off there again. -/
theorem Spread.exists_cut_next {gap rest : List Char} {lexeme : String} (h : Spread lexemes rest) (hgap : Gap gap)
    (hlexeme : ∃ rest, Lexeme lexeme.toList rest)
    (hcut : ∃ cut : Cut, cut.Valid ∧ cut.text = rest ∧ cut.lexemes = lexemes) :
    ∃ cut : Cut, cut.Valid ∧ cut.text = gap ++ (lexeme.toList ++ rest) ∧ cut.lexemes = lexeme :: lexemes := by
  obtain ⟨_, hlexeme⟩ := hlexeme
  obtain ⟨cut, hvalid, rfl, rfl⟩ := hcut
  have hfirst := hlexeme.of_stops (h.stops rfl rfl) (h.stops rfl rfl)
  refine ⟨.next gap lexeme.toList cut, ⟨hgap, hfirst, hvalid⟩, rfl, ?_⟩
  rw [Cut.lexemes, String.ofList_toList]

theorem Spread.exists_cut (h : Spread lexemes text) (hl : ∀ lexeme ∈ lexemes, ∃ rest, Lexeme lexeme.toList rest) :
    ∃ cut : Cut, cut.Valid ∧ cut.text = text ∧ cut.lexemes = lexemes := by
  induction h with
  | @last gap hgap => exact ⟨.last gap, hgap, rfl, rfl⟩
  | next hgap _ hspread ih =>
    obtain ⟨hlexeme, hl⟩ := List.forall_mem_cons.1 hl
    exact hspread.exists_cut_next hgap hlexeme (ih hl)

/-- Lexemes that are spaced out are cut where they were put together. -/
theorem Spaced.exists_cut (h : Spaced lexemes text) (hl : ∀ lexeme ∈ lexemes, ∃ rest, Lexeme lexeme.toList rest) :
    ∃ cut : Cut, cut.Valid ∧ cut.text = text ∧ cut.lexemes = lexemes := by
  cases h with
  | blank hgap => exact ⟨.last text, hgap, rfl, rfl⟩
  | first hgap hspread =>
    obtain ⟨hlexeme, hl⟩ := List.forall_mem_cons.1 hl
    exact hspread.exists_cut_next hgap hlexeme (hspread.exists_cut hl)

end

/-- The lexemes of a source, spaced out, make the same tokens, but for their places. -/
theorem tokenize_of_spaced {source source' : String} {tokens : List Token} (h : tokenize source = .ok tokens)
    (hs : Spaced (tokens.dropLast.map Token.text) source'.toList) :
    ∃ tokens', tokenize source' = .ok tokens' ∧ tokens'.map Token.content = tokens.map Token.content := by
  obtain ⟨cut, hvalid, -, rfl⟩ := exists_cut_of_tokensFrom h
  rw [cut.map_text_dropLast] at hs
  obtain ⟨cut', hvalid', htext', hlexemes⟩ := hs.exists_cut fun _ hl => hvalid.exists_lexeme hl
  refine ⟨cut'.tokens 0, ?_, ?_⟩
  · rw [tokenize, ← htext', hvalid'.tokensFrom_text]
  · rw [Cut.map_content_tokens, Cut.map_content_tokens, hlexemes]

/-! ## Reading what is spaced out -/

theorem likeness_content : Likeness fun token token' : Token => token.content = token'.content where
  kind_eq h := congrArg Prod.fst h
  text_eq h := congrArg Prod.snd h

theorem parseTokens_of_map_content {tokens tokens' : List Token}
    (h : (closed tokens).map Token.content = (closed tokens').map Token.content) (limit : Nat) :
    (parseTokens limit tokens).mapError (·.fault) = (parseTokens limit tokens').mapError (·.fault) := by
  have halike : List.Forall₂ (fun token token' : Token => token.content = token'.content)
      (Cursor.ofTokens tokens).tokens (Cursor.ofTokens tokens').tokens := by
    rw [tokens_ofTokens, tokens_ofTokens]
    rwa [← List.forall₂_eq_eq_eq, List.forall₂_map_left_iff, List.forall₂_map_right_iff] at h
  rcases parseTokens_of_alike likeness_content halike limit with ⟨e, he, he'⟩ | ⟨fault, _, _, -, he, he'⟩
  · rw [he, he']
  · rw [he, he']
    rfl

/--
Spacing does not matter. If the lexemes of a source are written down again with other gaps, none of those
between them empty, the new source has the same tokens, but for their places. At every limit both sources
have the same tree, or errors of the same cause.
-/
theorem same_reading_of_spaced {source source' : String} {tokens : List Token} (h : tokenize source = .ok tokens)
    (hs : Spaced (tokens.dropLast.map Token.text) source'.toList) :
    (∃ tokens', tokenize source' = .ok tokens' ∧ tokens'.map Token.content = tokens.map Token.content) ∧
    ∀ limit, (parseFormulaWithin limit source').mapError Diagnostic.cause =
      (parseFormulaWithin limit source).mapError Diagnostic.cause := by
  obtain ⟨tokens', h', hcontent⟩ := tokenize_of_spaced h hs
  refine ⟨⟨tokens', h', hcontent⟩, fun limit => ?_⟩
  rw [parseFormulaWithin, parseFormulaWithin, h, h']
  rw [← closed_of_tokenize h, ← closed_of_tokenize h'] at hcontent
  have hcause (outcome : Except SyntaxError Expr) : (outcome.mapError .syntactic).mapError Diagnostic.cause =
      (outcome.mapError (·.fault)).mapError .inr := by
    cases outcome <;> rfl
  show ((parseTokens limit tokens').mapError _).mapError _ = ((parseTokens limit tokens).mapError _).mapError _
  rw [hcause, hcause, parseTokens_of_map_content hcontent limit]

/-- The keyword at the end of `xTrue` is a lexeme of its own, with a gap before it or without. -/
theorem same_reading_of_spaced_keyword :
    let tokens : List Token := [⟨.identifier, "x", .ofBytes 0 1⟩, ⟨.trueWord, "True", .ofBytes 1 4⟩,
      .endOfInput (.ofOffset 5)]
    tokenize "xTrue" = .ok tokens ∧ Spaced ["x", "True"] " x\\ True".toList ∧
      (∃ tokens', tokenize " x\\ True" = .ok tokens' ∧ tokens'.map Token.content = tokens.map Token.content) ∧
      (parseFormulaWithin 64 " x\\ True").mapError Diagnostic.cause = .error (.inr (.unexpectedToken "True")) := by
  intro tokens
  have h : tokenize "xTrue" = .ok tokens := rfl
  have hs : Spaced ["x", "True"] " x\\ True".toList :=
    .first (.space .nil) (.next (.command .nil) (by decide) (.last .nil))
  obtain ⟨htokens, hparse⟩ := same_reading_of_spaced h hs
  have hformula : parseFormulaWithin 64 "xTrue" =
      .error (.syntactic ⟨.unexpectedToken "True", ⟨.trueWord, "True", .ofBytes 1 4⟩⟩) :=
    errorOf?_eq_some_iff.1 (by decide +kernel)
  refine ⟨h, hs, htokens, ?_⟩
  rw [hparse 64, hformula]
  rfl

end TexFormula

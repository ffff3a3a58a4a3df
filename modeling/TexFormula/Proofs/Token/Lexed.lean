import TexFormula.Proofs.Grammar.Basic
import TexFormula.Proofs.Token.Decomposition

/-!
# Tokens that come from a text

* `Token.Lexed` : the text of the token is a lexeme, and its kind is the one of the lexeme;
* `lexed_of_tokenize` : so are all tokens of a source, but for the end;
* `Token.Lexed.spelling` : a token from a text is a number, a variable of one letter, or has a spelling
  of its kind;
* `isName` : letters, digits and points, a letter first;
* `BracedName.isName` : names in braces that come from a text are such names.
-/

namespace TexFormula

/-- The token has the text and the kind of a lexeme. -/
def Token.Lexed (token : Token) : Prop :=
  ∃ text rest, Lexeme text rest ∧ token.kind = lexemeKind text ∧ token.text = String.ofList text

theorem Cut.Valid.lexed {cut : Cut} (h : cut.Valid) {offset : Nat} {token : Token}
    (ht : token ∈ cut.tokens offset) : token.kind = .eof ∨ token.Lexed := by
  induction cut generalizing offset with
  | last gap =>
    obtain rfl := List.mem_singleton.1 ht
    exact .inl rfl
  | next gap lexeme rest ih =>
    obtain ⟨-, hl, hrest⟩ := h
    rcases List.mem_cons.1 ht with rfl | ht
    · exact .inr ⟨lexeme, rest.text, hl, rfl, rfl⟩
    · exact ih hrest ht

theorem lexed_of_tokenize {source : String} {tokens : List Token} (h : tokenize source = .ok tokens) {token : Token}
    (ht : token ∈ tokens) : token.kind = .eof ∨ token.Lexed := by
  obtain ⟨cut, hvalid, -, rfl⟩ := exists_cut_of_tokensFrom h
  exact hvalid.lexed ht

/-- A token from a text is a number, a word of the vocabulary, or a variable of one letter. -/
theorem Token.Lexed.spelling {token : Token} (h : token.Lexed) :
    token.kind = .number ∧ Numeral token.text.toList ∨ kindOf? token.text = some token.kind ∨
      token.kind = .identifier ∧ ∃ c : Char, c.isAlpha = true ∧ token.text = String.ofList [c] := by
  obtain ⟨text, rest, hl, hk, ht⟩ := h
  rw [hk, ht]
  cases hl with
  | rowBreak => exact .inr (.inl (by decide))
  | command _ _ hsome _ =>
    obtain ⟨kind, hkind⟩ := Option.isSome_iff_exists.1 hsome
    rw [lexemeKind_of_kindOf? rfl hkind]
    exact .inr (.inl hkind)
  | number hnum _ =>
    obtain ⟨c, cs, rfl⟩ := List.exists_cons_of_ne_nil hnum.ne_nil
    rw [lexemeKind_of_isDigit hnum.isDigit_head, String.toList_ofList]
    exact .inl ⟨rfl, hnum⟩
  | assign => exact .inr (.inl (by decide))
  | punctuation hc => exact .inr (.inl (kindOf?_of_mem_punctuation hc))
  | keyword hword _ => exact .inr (.inl (keyword_spec hword).2.2)
  | letter hc _ =>
    rw [lexemeKind_of_isAlpha hc]
    cases hkind : kindOf? (String.ofList [_]) with
    | some kind => exact .inr (.inl rfl)
    | none => exact .inr (.inr ⟨rfl, _, hc, rfl⟩)

/-! ## Names -/

def isNameChar (c : Char) : Bool := c.isAlphanum || c == '.'

/-- Letters, digits and points, a letter first. -/
def isName (name : String) : Bool :=
  match name.toList with
  | [] => false
  | c :: cs => c.isAlpha && cs.all isNameChar

theorem isName_iff {name : String} : isName name = true ↔
    ∃ c cs, name.toList = c :: cs ∧ c.isAlpha = true ∧ ∀ d ∈ cs, isNameChar d = true := by
  unfold isName
  cases name.toList with
  | nil => simp
  | cons c cs =>
    rw [Bool.and_eq_true, List.all_eq_true]
    constructor
    · rintro ⟨hc, hcs⟩
      exact ⟨c, cs, rfl, hc, hcs⟩
    · rintro ⟨_, _, ⟨⟩, hc, hcs⟩
      exact ⟨hc, hcs⟩

theorem isNameChar_of_isAlpha {c : Char} (h : c.isAlpha = true) : isNameChar c = true := by
  rw [isNameChar, Char.isAlphanum, h]
  rfl

theorem isNameChar_of_isDigit {c : Char} (h : c.isDigit = true) : isNameChar c = true := by
  rw [isNameChar, Char.isAlphanum, h, Bool.or_true]
  rfl

theorem isNameChar_of_isName {name : String} (h : isName name = true) : ∀ c ∈ name.toList, isNameChar c = true := by
  obtain ⟨c, cs, heq, hc, hcs⟩ := isName_iff.1 h
  rw [heq]
  exact List.forall_mem_cons.2 ⟨isNameChar_of_isAlpha hc, hcs⟩

theorem Numeral.isNameChar {text : List Char} (h : Numeral text) : ∀ c ∈ text, isNameChar c = true := by
  cases h with
  | integer _ hd => exact fun c hc => isNameChar_of_isDigit (hd c hc)
  | decimal _ hd _ hf =>
    intro c hc
    rcases List.mem_append.1 hc with hc | hc
    · exact isNameChar_of_isDigit (hd c hc)
    · rcases List.mem_cons.1 hc with rfl | hc
      · rfl
      · exact isNameChar_of_isDigit (hf c hc)

theorem isName_of_symbolName? {text name : String} (h : symbolName? text = some name) : isName name = true := by
  have hall : ∀ entry ∈ symbols, isName entry.2 = true := by decide +kernel
  obtain ⟨before, after, heq, -⟩ := List.lookup_eq_some_iff.1 h
  refine hall (text, name) ?_
  rw [heq]
  exact List.mem_append_right before List.mem_cons_self

section
variable {token : Token}

theorem Token.Lexed.isName_text (h : token.Lexed)
    (hk : token.kind ∈ [Kind.identifier, .transpose, .trueWord, .falseWord, .bmatrix]) : isName token.text = true := by
  have hvoc : ∀ entry ∈ vocabulary, entry.2 ∈ [Kind.identifier, .transpose, .trueWord, .falseWord, .bmatrix] →
      isName entry.1 = true := by decide +kernel
  rcases h.spelling with ⟨hnum, -⟩ | hkind | ⟨-, c, hc, ht⟩
  · rw [hnum] at hk
    simp at hk
  · exact hvoc _ (mem_vocabulary hkind) hk
  · refine isName_iff.2 ⟨c, [], ?_, hc, by simp⟩
    rw [ht, String.toList_ofList]

theorem Token.Lexed.numeral_text (h : token.Lexed) (hk : token.kind = .number) : Numeral token.text.toList := by
  have hvoc : ∀ entry ∈ vocabulary, entry.2 ≠ .number := by decide +kernel
  rcases h.spelling with ⟨-, hnum⟩ | hkind | ⟨hid, -⟩
  · exact hnum
  · exact absurd hk (hvoc _ (mem_vocabulary hkind))
  · rw [hk] at hid
    cases hid

/-- A letter-like token is a number, a word of letters or a named symbol. -/
theorem Token.fragment?_cases {fragment : String} (h : token.fragment? = some fragment) :
    token.kind = .number ∧ fragment = token.text ∨
    token.kind ∈ [Kind.identifier, .transpose, .trueWord, .falseWord, .bmatrix] ∧ fragment = token.text ∨
    symbolName? token.text = some fragment := by
  unfold Token.fragment? at h
  split at h <;> simp_all

/-- What a token adds to a name is a name on its own or, if it is a number, can go on one. -/
theorem Token.Lexed.fragment (h : token.Lexed) {fragment : String} (hf : token.fragment? = some fragment) :
    (∀ c ∈ fragment.toList, isNameChar c = true) ∧ (token.kind ≠ .number → isName fragment = true) := by
  rcases Token.fragment?_cases hf with ⟨hk, rfl⟩ | ⟨hk, rfl⟩ | hsymbol
  · exact ⟨(h.numeral_text hk).isNameChar, fun hne => absurd hk hne⟩
  · have hname := h.isName_text hk
    exact ⟨isNameChar_of_isName hname, fun _ => hname⟩
  · have hname := isName_of_symbolName? hsymbol
    exact ⟨isNameChar_of_isName hname, fun _ => hname⟩

end

theorem Spells.isNameChar {run : List Token} {name : String} (h : Spells run name)
    (hrun : ∀ token ∈ run, token.Lexed) : ∀ c ∈ name.toList, isNameChar c = true := by
  obtain ⟨fragments, hf, rfl⟩ := h
  intro c hc
  rw [String.toList_join] at hc
  obtain ⟨fragment, hfragment, hc⟩ := List.mem_flatMap.1 hc
  have hmem : some fragment ∈ run.map Token.fragment? := hf ▸ List.mem_map_of_mem hfragment
  obtain ⟨token, ht, hsome⟩ := List.mem_map.1 hmem
  exact ((hrun token ht).fragment hsome).1 c hc

theorem BracedName.isName {name : String} {w : List Token} (h : BracedName name w)
    (hw : ∀ token ∈ w, token.Lexed) : isName name = true := by
  obtain ⟨opening, run, closing, rfl, -, -, hspell, hne, hfirst⟩ := h
  have hrun : ∀ token ∈ run, token.Lexed := fun token ht => hw token (by simp [ht])
  have hchars := hspell.isNameChar hrun
  obtain ⟨fragments, hf, rfl⟩ := hspell
  cases fragments with
  | nil => exact absurd String.join_nil hne
  | cons fragment fragments =>
    obtain ⟨token, run, rfl, hsome, -⟩ := List.map_eq_cons_iff.1 hf
    have hname := ((hrun token List.mem_cons_self).fragment hsome).2 fun hk => hfirst (by rw [headKind?_cons, hk])
    obtain ⟨c, cs, heq, hc, -⟩ := isName_iff.1 hname
    rw [String.join_cons, String.toList_append, heq] at hchars
    refine isName_iff.2 ⟨c, cs ++ (String.join fragments).toList, ?_, hc, ?_⟩
    · rw [String.join_cons, String.toList_append, heq, List.cons_append]
    · exact (List.forall_mem_cons.1 hchars).2

end TexFormula

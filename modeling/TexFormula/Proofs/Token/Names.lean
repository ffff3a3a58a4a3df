import TexFormula.Formula
import TexFormula.Proofs.Parser.Completeness
import TexFormula.Proofs.Token.Decomposition

/-!
# Names come back whole

A name is not a lexeme. Its letters and digits are cut into letters, keywords and numbers, and how they are cut depends
on the run of letters that each of them begins. The parser joins the pieces again.

* `isPlainName` : a letter, and letters and digits after it;
* `exists_piece` : such characters begin with a letter, a keyword or a number;
* `fragment?_of_lexeme` : each of these adds its own text to a name, whatever its kind;
* `SpeltBy offset cs rest run` : where `rest` follows, the characters `cs` become the tokens `run`, which spell them;
* `exists_speltBy` : letters and digits are spelt by their tokens;
* `parseFormula_of_plainName` : upright names, functions and indices get the name that was written.
-/

namespace TexFormula

/-- A letter, and letters and digits after it. -/
def isPlainName (name : String) : Bool :=
  match name.toList with
  | [] => false
  | c :: cs => c.isAlpha && cs.all Char.isAlphanum

theorem isPlainName_iff {name : String} : isPlainName name = true ↔
    ∃ c cs, name.toList = c :: cs ∧ c.isAlpha = true ∧ ∀ d ∈ c :: cs, d.isAlphanum = true := by
  unfold isPlainName
  cases name.toList with
  | nil => simp
  | cons c cs =>
    rw [Bool.and_eq_true, List.all_eq_true]
    constructor
    · rintro ⟨hc, hcs⟩
      exact ⟨c, cs, rfl, hc, List.forall_mem_cons.2 ⟨by rw [Char.isAlphanum, hc, Bool.true_or], hcs⟩⟩
    · rintro ⟨_, _, ⟨⟩, hc, hcs⟩
      exact ⟨hc, (List.forall_mem_cons.1 hcs).2⟩

/-! ## Pieces of names -/

section
variable {p : Char → Bool} {c : Char} {cs text rest : List Char}

theorem Stops.append (h : Stops p cs) (hrest : Stops p rest) : Stops p (cs ++ rest) := by
  cases cs with
  | nil => exact hrest
  | cons c cs => exact h

theorem Stops.isAlpha (h : Stops Char.isAlphanum rest) : Stops Char.isAlpha rest :=
  fun c hc => (Bool.or_eq_false_iff.1 (h c hc)).1

theorem Stops.isDigit (h : Stops Char.isAlphanum rest) : Stops Char.isDigit rest :=
  fun c hc => (Bool.or_eq_false_iff.1 (h c hc)).2

/-- Letters and digits begin with a letter, a keyword or a number. -/
theorem exists_piece (hc : c.isAlphanum = true) (cs : List Char) (hrest : Stops Char.isAlphanum rest) :
    ∃ tail cs', cs = tail ++ cs' ∧ Lexeme (c :: tail) (cs' ++ rest) ∧
      (c.isAlpha = true → tail = [] ∨ String.ofList (c :: tail) ∈ keywords) := by
  rcases Bool.or_eq_true_iff.1 hc with hc | hc
  · obtain ⟨letters, cs', rfl, hl, hstop⟩ := exists_run_of_class Char.isAlpha cs
    have hstops := hstop.append hrest.isAlpha
    by_cases hk : String.ofList (c :: letters) ∈ keywords
    · exact ⟨letters, cs', rfl, .keyword hk hstops, fun _ => .inr hk⟩
    · refine ⟨[], letters ++ cs', rfl, .letter hc ?_, fun _ => .inl rfl⟩
      rwa [List.append_assoc, takeWhile_append_of_stops hl hstops]
  · obtain ⟨digits, cs', rfl, hd, hstop⟩ := exists_run_of_class Char.isDigit cs
    have hnumeral : Numeral (c :: digits) := .integer (List.cons_ne_nil _ _) (List.forall_mem_cons.2 ⟨hc, hd⟩)
    refine ⟨digits, cs', rfl, .number hnumeral (hstop.append hrest.isDigit), fun ha => ?_⟩
    rw [isDigit_of_isAlpha ha] at hc
    cases hc

theorem fragment?_of_kindOf? {kind : Kind} (h : kindOf? (String.ofList text) = some kind)
    (ht : ∀ d ∈ text, d.isAlpha = true) (span : Span) :
    (Token.mk kind (String.ofList text) span).fragment? = some (String.ofList text) := by
  have hvoc : ∀ entry ∈ vocabulary, entry.1.toList.all Char.isAlpha = true →
      (Token.mk entry.2 entry.1 (.ofBytes 0 0)).fragment? = some entry.1 := by decide +kernel
  have hword := hvoc _ (mem_vocabulary h)
  rw [String.toList_ofList] at hword
  exact hword (List.all_eq_true.2 ht)

/-- A lexeme of letters and digits adds its text to a name. -/
theorem fragment?_of_lexeme (h : Lexeme text rest) (ht : ∀ d ∈ text, d.isAlphanum = true) (span : Span) :
    (Token.mk (lexemeKind text) (String.ofList text) span).fragment? = some (String.ofList text) := by
  cases h with
  | rowBreak | assign => exact absurd (ht _ List.mem_cons_self) (by decide)
  | command _ _ _ _ => exact absurd (ht '\\' List.mem_cons_self) (by decide)
  | punctuation hc =>
    have hall : (punctuation.all fun c => !c.isAlphanum) = true := by decide
    have hnone := List.all_eq_true.1 hall _ hc
    rw [ht _ List.mem_cons_self] at hnone
    cases hnone
  | number hnumeral _ =>
    obtain ⟨c, cs, rfl⟩ := List.exists_cons_of_ne_nil hnumeral.ne_nil
    rw [lexemeKind_of_isDigit hnumeral.isDigit_head]
    rfl
  | keyword hk _ =>
    obtain ⟨-, hl, hkind⟩ := keyword_spec hk
    exact fragment?_of_kindOf? hkind hl span
  | letter hc _ =>
    rw [lexemeKind_of_isAlpha hc]
    cases hkind : kindOf? (String.ofList [_]) with
    | none => rfl
    | some kind => exact fragment?_of_kindOf? hkind (List.forall_mem_singleton.2 hc) span

theorem lexemeKind_ne_number (hc : c.isAlpha = true) : lexemeKind (c :: cs) ≠ .number := by
  have hvoc : ∀ entry ∈ vocabulary, entry.2 ≠ .number := by decide +kernel
  unfold lexemeKind
  rw [List.head?_cons, Option.any_some, isDigit_of_isAlpha hc, if_neg Bool.false_ne_true]
  cases hkind : kindOf? (String.ofList (c :: cs)) with
  | none => exact nofun
  | some kind => exact hvoc _ (mem_vocabulary hkind)

end

/-! ## The tokens of a name -/

/-- Where `rest` follows them, the characters `cs` become the tokens `run`. -/
def Turns (offset : Nat) (cs rest : List Char) (run : List Token) : Prop :=
  ∀ tokens, tokensFrom (offset + byteLength cs) 0 rest = .ok tokens →
    tokensFrom offset 0 (cs ++ rest) = .ok (run ++ tokens)

section
variable {cs cs' rest text : List Char} {offset : Nat} {run run' : List Token}

theorem Turns.append (h : Turns offset cs (cs' ++ rest) run) (h' : Turns (offset + byteLength cs) cs' rest run') :
    Turns offset (cs ++ cs') rest (run ++ run') := by
  intro tokens htokens
  rw [byteLength_append, ← Nat.add_assoc] at htokens
  rw [List.append_assoc, List.append_assoc]
  exact h _ (h' tokens htokens)

theorem turns_lexeme (h : Lexeme text rest) (hpoint : rest.head? ≠ some '.') (offset : Nat) :
    Turns offset text rest [⟨lexemeKind text, String.ofList text, .ofBytes offset (byteLength text)⟩] := by
  intro tokens htokens
  obtain ⟨c, tail, rfl⟩ := List.exists_cons_of_ne_nil h.ne_nil
  rw [List.cons_append, tokensFrom_of_lexeme tail rest (scan_of_lexeme h hpoint), htokens]
  rfl

theorem Spells.append {name name' : String} (h : Spells run name) (h' : Spells run' name') :
    Spells (run ++ run') (name ++ name') := by
  obtain ⟨fragments, hrun, rfl⟩ := h
  obtain ⟨fragments', hrun', rfl⟩ := h'
  refine ⟨fragments ++ fragments', ?_, String.join_append.symm⟩
  rw [List.map_append, List.map_append, hrun, hrun']

theorem spells_singleton {token : Token} {fragment : String} (h : token.fragment? = some fragment) :
    Spells [token] fragment := by
  refine ⟨[fragment], ?_, by simp⟩
  rw [List.map_singleton, h]
  rfl

theorem Spells.eq_nil (h : Spells [] (String.ofList cs)) : cs = [] := by
  obtain ⟨fragments, hrun, hjoin⟩ := h
  obtain rfl : fragments = [] := List.map_eq_nil_iff.1 hrun.symm
  exact String.ofList_eq_empty_iff.1 hjoin

theorem head?_ne_point (hcs : ∀ d ∈ cs, d.isAlphanum = true) (hrest : rest.head? ≠ some '.') :
    (cs ++ rest).head? ≠ some '.' := by
  cases cs with
  | nil => exact hrest
  | cons d cs =>
    rintro ⟨⟩
    exact absurd (hcs '.' List.mem_cons_self) (by decide)

end

/-- Where `rest` follows them, the characters become tokens that spell them. -/
structure SpeltBy (offset : Nat) (cs rest : List Char) (run : List Token) : Prop where
  turns : Turns offset cs rest run
  spells : Spells run (String.ofList cs)

section
variable {c : Char} {cs cs' rest text : List Char} {offset : Nat} {run run' : List Token}

theorem SpeltBy.append (h : SpeltBy offset cs (cs' ++ rest) run) (h' : SpeltBy (offset + byteLength cs) cs' rest run') :
    SpeltBy offset (cs ++ cs') rest (run ++ run') := by
  refine ⟨h.turns.append h'.turns, ?_⟩
  rw [String.ofList_append]
  exact h.spells.append h'.spells

theorem speltBy_lexeme (h : Lexeme text rest) (ht : ∀ d ∈ text, d.isAlphanum = true)
    (hpoint : rest.head? ≠ some '.') (offset : Nat) :
    SpeltBy offset text rest [⟨lexemeKind text, String.ofList text, .ofBytes offset (byteLength text)⟩] :=
  ⟨turns_lexeme h hpoint offset, spells_singleton (fragment?_of_lexeme h ht _)⟩

theorem exists_speltBy (hcs : ∀ d ∈ cs, d.isAlphanum = true) (hstop : Stops Char.isAlphanum rest)
    (hpoint : rest.head? ≠ some '.') (offset : Nat) : ∃ run, SpeltBy offset cs rest run := by
  induction hn : cs.length using Nat.strongRecOn generalizing cs offset with
  | ind n ih =>
    cases cs with
    | nil => exact ⟨[], fun tokens htokens => htokens, [], rfl, rfl⟩
    | cons c cs =>
      obtain ⟨tail, cs, rfl, hl, -⟩ := exists_piece (hcs c List.mem_cons_self) cs hstop
      rw [← List.cons_append] at hcs
      obtain ⟨htail, hcs⟩ := List.forall_mem_append.1 hcs
      rw [List.length_cons, List.length_append] at hn
      obtain ⟨run, hrun⟩ := ih cs.length (by omega) hcs (offset + byteLength (c :: tail)) rfl
      exact ⟨_, (speltBy_lexeme hl htail (head?_ne_point hcs hpoint) offset).append hrun⟩

/-- A name is spelt by its tokens. The first is no number, and it is not alone unless the name is a lexeme. -/
theorem exists_speltBy_of_isAlpha (hc : c.isAlpha = true) (hcs : ∀ d ∈ c :: cs, d.isAlphanum = true)
    (hstop : Stops Char.isAlphanum rest) (hpoint : rest.head? ≠ some '.') (offset : Nat) :
    ∃ run, SpeltBy offset (c :: cs) rest run ∧ headKind? run ≠ some .number ∧
      (cs ≠ [] → String.ofList (c :: cs) ∉ keywords → 2 ≤ run.length) := by
  obtain ⟨tail, cs, rfl, hl, hpiece⟩ := exists_piece (hcs c List.mem_cons_self) cs hstop
  rw [← List.cons_append] at hcs
  obtain ⟨htail, hcs⟩ := List.forall_mem_append.1 hcs
  obtain ⟨run, hrun⟩ := exists_speltBy hcs hstop hpoint (offset + byteLength (c :: tail))
  refine ⟨_, (speltBy_lexeme hl htail (head?_ne_point hcs hpoint) offset).append hrun, ?_, fun hlong hkeyword => ?_⟩
  · exact fun hk => lexemeKind_ne_number hc (Option.some.inj hk)
  · cases run with
    | cons token run => simp
    | nil =>
      obtain rfl := hrun.spells.eq_nil
      rw [List.append_nil] at hlong hkeyword
      rcases hpiece hc with hletter | hk
      · exact absurd hletter hlong
      · exact absurd hk hkeyword

end

/-! ## Sources with a name in braces -/

section
variable {name : String}

/-- A plain name in braces becomes tokens that are a name in braces. -/
theorem exists_turns_of_plainName (h : isPlainName name = true) (rest : List Char) (hrest : rest.head? ≠ some '.')
    (offset : Nat) : ∃ run, Turns offset (['\x7b'] ++ (name.toList ++ ['\x7d'])) rest run ∧ BracedName name run ∧
      (name.length ≠ 1 → name ∉ keywords → BracedRun run) := by
  obtain ⟨c, cs, hname, hc, hcs⟩ := isPlainName_iff.1 h
  have hstop : Stops Char.isAlphanum ('\x7d' :: rest) := stops_cons rfl rest
  obtain ⟨run, ⟨hturns, hspells⟩, hfirst, hlong⟩ :=
    exists_speltBy_of_isAlpha hc hcs hstop (by simp) (offset + byteLength ['\x7b'])
  have hpoint : (c :: cs ++ '\x7d' :: rest).head? ≠ some '.' := head?_ne_point hcs (by simp)
  rw [← hname] at hturns hspells hlong hpoint
  rw [String.ofList_toList] at hspells hlong
  have hopening : Lexeme ['\x7b'] (name.toList ++ ['\x7d'] ++ rest) := .punctuation (by decide)
  have hclosing : Lexeme ['\x7d'] rest := .punctuation (by decide)
  rw [← List.singleton_append, ← List.append_assoc] at hpoint
  refine ⟨_, (turns_lexeme hopening hpoint offset).append (hturns.append (turns_lexeme hclosing hrest _)), ?_, ?_⟩
  · refine ⟨_, run, _, rfl, rfl, rfl, hspells, ?_, hfirst⟩
    rintro rfl
    cases hname
  · intro hletter hkeyword
    refine ⟨_, run, _, rfl, rfl, rfl, ⟨name, hspells⟩, hlong ?_ hkeyword, hfirst⟩
    rintro rfl
    rw [← String.length_toList, hname] at hletter
    exact hletter rfl

/-- A source that becomes the tokens of a primary with its subscripts has the meaning of these. -/
theorem parseFormulaWithin_of_turns {source : String} {cs : List Char} {w : List Token} {n limit : Nat} {e : Expr}
    (hsource : source.toList = cs) (h : Turns 0 cs [] w) (hd : Derives n false (.part .subscript e) w) (hn : n ≤ limit) :
    parseFormulaWithin limit source = .ok e := by
  let mark := Token.endOfInput (.ofOffset (0 + byteLength cs))
  have htokens : tokenize source = .ok (w ++ [mark]) := by
    rw [tokenize, hsource, ← List.append_nil cs]
    exact h [mark] rfl
  have hword : beforeEnd (w ++ [mark]) = w := by
    rw [beforeEnd_append hd.kind_ne_eof, show beforeEnd [mark] = [] from rfl, List.append_nil]
  have hparse : parseTokens limit (w ++ [mark]) = .ok e := by
    refine parseTokens_of_beforeEnd ?_ hn
    rw [hword]
    exact .comparison (.expression (.term (.factor (.power hd))))
  rw [parseFormulaWithin, htokens]
  dsimp only
  rw [hparse]
  rfl

theorem exists_turns_command (letters : List Char) {kind : Kind} (hne : letters ≠ [])
    (hl : letters.all Char.isAlpha = true) (hk : kindOf? (String.ofList ('\\' :: letters)) = some kind)
    (offset : Nat) (rest : List Char) :
    ∃ sign : Token, sign.kind = kind ∧ Turns offset ('\\' :: letters) ('\x7b' :: rest) [sign] := by
  have hcommand : Lexeme ('\\' :: letters) ('\x7b' :: rest) :=
    .command hne (List.all_eq_true.1 hl) (by rw [hk]; rfl) (stops_cons rfl rest)
  exact ⟨_, lexemeKind_of_kindOf? rfl hk, turns_lexeme hcommand (by simp) offset⟩

theorem exists_turns_punctuation {c : Char} {kind : Kind} (hk : lexemeKind [c] = kind) (hc : c ∈ punctuation)
    (rest : List Char) (hrest : rest.head? ≠ some '.') (offset : Nat) :
    ∃ sign : Token, sign.kind = kind ∧ Turns offset [c] rest [sign] :=
  ⟨_, hk, turns_lexeme (.punctuation hc) hrest offset⟩

theorem exists_derives_letter {c : Char} (hc : c.isAlpha = true) (hk : lexemeKind [c] = .identifier)
    (rest : List Char) (hstop : Stops Char.isAlpha rest) (hrest : rest.head? ≠ some '.') (offset : Nat) :
    ∃ token, Turns offset [c] rest [token] ∧
      Derives 1 false (.part .subscript (.symbol (String.ofList [c]))) [token] := by
  have hletter := lexeme_of_isAlpha hc hstop
  have hkind : lexemeKind [c] ∈ [Kind.identifier, .transpose] := by
    rw [hk]
    decide
  let token : Token := ⟨lexemeKind [c], String.ofList [c], .ofBytes offset (byteLength [c])⟩
  have hsymbol : Derives 0 false (.part .symbol (.symbol token.text)) [token] := .letter hkind
  exact ⟨token, turns_lexeme hletter hrest offset, .subscript (.primary (by decide) hsymbol)⟩

theorem parseFormulaWithin_mathrm (h : isPlainName name = true) {limit : Nat} (hlimit : 1 ≤ limit) :
    parseFormulaWithin limit ("\\mathrm\x7b" ++ name ++ "\x7d") = .ok (uprightMeaning name) := by
  have hkind : kindOf? "\\mathrm" = some .mathrm := by decide +kernel
  obtain ⟨sign, hsign, hcommand⟩ := exists_turns_command "mathrm".toList (by decide) (by decide) hkind 0
    (name.toList ++ ['\x7d'] ++ [])
  obtain ⟨run, hrun, hname, -⟩ := exists_turns_of_plainName h [] (by simp)
    (0 + byteLength ('\\' :: "mathrm".toList))
  refine parseFormulaWithin_of_turns ?_ (hcommand.append hrun) ?_ hlimit
  · simp [String.toList_append]
  · exact .subscript (.primary (p := .mathrm) (by decide) (.mathrm hsign hname))

theorem exists_turns_parenthesized (offset : Nat) : ∃ run, Turns offset (['('] ++ (['x'] ++ [')'])) [] run ∧
    Derives 2 false (.argument [.symbol "x"]) run := by
  have hopen : lexemeKind ['('] = .openParen := by decide +kernel
  have hclose : lexemeKind [')'] = .closeParen := by decide +kernel
  have hx : lexemeKind ['x'] = .identifier := by decide +kernel
  obtain ⟨opening, ho, hopening⟩ := exists_turns_punctuation hopen (by decide) ['x', ')'] (by simp) offset
  obtain ⟨token, hletter, hvalue⟩ := exists_derives_letter rfl hx [')'] (stops_cons rfl []) (by simp)
    (offset + byteLength ['('])
  obtain ⟨closing, hc, hclosing⟩ := exists_turns_punctuation hclose (by decide) [] (by simp)
    (offset + byteLength ['('] + byteLength ['x'])
  refine ⟨_, hopening.append (hletter.append hclosing), .parenthesized (.inl (by rw [← ho]; rfl)) ?_⟩
  have hlist : Derives 1 (opening.kind == .bar) (.list (opening.kind == .openParen && true) [.symbol "x"]) [token] := by
    rw [ho]
    exact .value (.comparison (.expression (.term (.factor (.power hvalue)))))
  have hclosed : opening.kind.closing? = some closing.kind := by
    rw [ho, hc]
    rfl
  have hgroup := Derives.bare (b := false) hclosed hlist
  rw [ho] at hgroup
  exact hgroup

theorem parseFormulaWithin_operatorname (h : isPlainName name = true) {limit : Nat} (hlimit : 3 ≤ limit) :
    parseFormulaWithin limit ("\\operatorname\x7b" ++ name ++ "\x7d(x)") = .ok (.call name [.symbol "x"]) := by
  have hkind : kindOf? "\\operatorname" = some .operatorname := by decide +kernel
  obtain ⟨sign, hsign, hcommand⟩ := exists_turns_command "operatorname".toList (by decide) (by decide) hkind 0
    (name.toList ++ ['\x7d'] ++ ['(', 'x', ')'])
  obtain ⟨run, hrun, hname, -⟩ := exists_turns_of_plainName h ['(', 'x', ')'] (by simp)
    (0 + byteLength ('\\' :: "operatorname".toList))
  obtain ⟨others, hothers, hargument⟩ := exists_turns_parenthesized
    (0 + byteLength ('\\' :: "operatorname".toList) + byteLength (['\x7b'] ++ (name.toList ++ ['\x7d'])))
  have hturns := hrun.append hothers
  refine parseFormulaWithin_of_turns ?_ (Turns.append (by simpa using hcommand) hturns) ?_ hlimit
  · simp [String.toList_append]
  · show Derives 3 false _ (sign :: (run ++ others))
    exact .subscript (.primary (p := .operatorname) (by decide) (.operatorname hsign hname hargument))

theorem parseFormulaWithin_index (h : isPlainName name = true) (hletter : name.length ≠ 1)
    (hkeyword : name ∉ keywords) {limit : Nat} (hlimit : 1 ≤ limit) :
    parseFormulaWithin limit ("c_\x7b" ++ name ++ "\x7d") = .ok (.accessor (.symbol "c") [.symbol name]) := by
  have hc : lexemeKind ['c'] = .identifier := by decide +kernel
  have hsub : lexemeKind ['_'] = .underscore := by decide +kernel
  obtain ⟨token, htoken, hobject⟩ := exists_derives_letter rfl hc ('_' :: '\x7b' :: (name.toList ++ ['\x7d']))
    (stops_cons rfl _) (by simp) 0
  obtain ⟨sign, hsign, hunderscore⟩ := exists_turns_punctuation hsub (by decide)
    ('\x7b' :: (name.toList ++ ['\x7d'])) (by simp) (0 + byteLength ['c'])
  obtain ⟨run, hrun, hname, hindex⟩ := exists_turns_of_plainName h [] (by simp)
    (0 + byteLength ['c'] + byteLength ['_'])
  have hturns : Turns _ _ [] _ := Turns.append (by simpa using hunderscore) hrun
  refine parseFormulaWithin_of_turns ?_ (Turns.append (by simpa using htoken) hturns) ?_ hlimit
  · simp [String.toList_append]
  · exact .indexed hobject hsign (.indexName (hindex hletter hkeyword) hname)

end

/--
Names come back whole: an upright name, unless it is a truth value, the name of a function, and the name that is an
index, unless it is a lexeme. How the name was cut into lexemes cannot be seen any more.
-/
theorem parseFormula_of_plainName {name : String} (h : isPlainName name = true) :
    parseFormula ("\\mathrm\x7b" ++ name ++ "\x7d") = .ok (if name = "True" then .boolean true
      else if name = "False" then .boolean false else .symbol name) ∧
    parseFormula ("\\operatorname\x7b" ++ name ++ "\x7d(x)") = .ok (.call name [.symbol "x"]) ∧
    (name.length ≠ 1 → name ∉ keywords →
      parseFormula ("c_\x7b" ++ name ++ "\x7d") = .ok (.accessor (.symbol "c") [.symbol name])) :=
  ⟨parseFormulaWithin_mathrm h (by decide), parseFormulaWithin_operatorname h (by decide),
    fun hletter hkeyword => parseFormulaWithin_index h hletter hkeyword (by decide)⟩

/-- A name of a symbol, a keyword, a number and another keyword. -/
theorem parseFormula_of_plainName_keywords : isPlainName "eTrue2bmatrix" = true ∧
    parseFormula "\\mathrm\x7beTrue2bmatrix\x7d" = .ok (.symbol "eTrue2bmatrix") ∧
    parseFormula "\\operatorname\x7beTrue2bmatrix\x7d(x)" = .ok (.call "eTrue2bmatrix" [.symbol "x"]) ∧
    parseFormula "c_\x7beTrue2bmatrix\x7d" = .ok (.accessor (.symbol "c") [.symbol "eTrue2bmatrix"]) := by
  have hname : isPlainName "eTrue2bmatrix" = true := by decide
  obtain ⟨hupright, hfunction, hindex⟩ := parseFormula_of_plainName hname
  exact ⟨hname, hupright, hfunction, hindex (by decide) (by decide)⟩

end TexFormula

import TexFormula.Diagnostic.Caret
import TexFormula.Proofs.Diagnostic.Located
import TexFormula.Proofs.Token.Faults

/-!
# The caret stands under the character in error

A caret is placed by counting bytes, and what it points at is read by counting characters. The two agree
because the lexer passes nothing but printable ASCII: what stands before an error has one byte for each
character, and no newline among them. Nor is an error found among the spaces at the beginning of the
line, which are not shown.

* `Lexeme.isPlainAscii`, `Gap.isPlainAscii` : what lexemes and gaps are written with;
* `exists_plain_split_of_error` : what stands before an error, and that no space follows;
* `lineAt_splitLines` : the line of an error is the first;
* `render_of_split` : the rendered error of a place in the first line;
* `caret_under_error` : the caret of an error stands under the character that the error is at.
-/

namespace TexFormula

open Text (isPlainAscii trimEnd)

def firstLine (cs : List Char) : List Char := cs.takeWhile (· ≠ '\n')

def indentation (line : List Char) : Nat := (line.takeWhile (· = ' ')).length

/-! ## What is passed before an error -/

theorem isPlainAscii_iff {c : Char} : isPlainAscii c = true ↔ 32 ≤ c.toNat ∧ c.toNat < 127 := by
  rw [isPlainAscii, Bool.and_eq_true, decide_eq_true_eq, decide_eq_true_eq]

theorem clear_of_isPlainAscii {c : Char} (h : isPlainAscii c = true) : c.toNat < 128 ∧ c ≠ '\n' := by
  have hn := isPlainAscii_iff.1 h
  refine ⟨by omega, ?_⟩
  rintro rfl
  exact absurd hn.1 (by decide)

theorem isPlainAscii_of_isAlpha {c : Char} (h : c.isAlpha = true) : isPlainAscii c = true := by
  have hn := toNat_of_isAlpha h
  exact isPlainAscii_iff.2 (by omega)

theorem isPlainAscii_of_isDigit {c : Char} (h : c.isDigit = true) : isPlainAscii c = true := by
  have hn := toNat_of_isDigit h
  exact isPlainAscii_iff.2 (by omega)

theorem Gap.isPlainAscii {gap : List Char} (h : Gap gap) : ∀ c ∈ gap, isPlainAscii c = true := by
  induction h with
  | nil => simp
  | space _ ih => exact List.forall_mem_cons.2 ⟨rfl, ih⟩
  | command _ ih => exact List.forall_mem_cons.2 ⟨rfl, List.forall_mem_cons.2 ⟨rfl, ih⟩⟩

theorem Numeral.isPlainAscii {text : List Char} (h : Numeral text) : ∀ c ∈ text, isPlainAscii c = true := by
  cases h with
  | integer _ hd => exact fun c hc => isPlainAscii_of_isDigit (hd c hc)
  | decimal _ hd _ hf =>
    refine List.forall_mem_append.2 ⟨fun c hc => isPlainAscii_of_isDigit (hd c hc), ?_⟩
    exact List.forall_mem_cons.2 ⟨rfl, fun c hc => isPlainAscii_of_isDigit (hf c hc)⟩

theorem Lexeme.isPlainAscii {text rest : List Char} (h : Lexeme text rest) : ∀ c ∈ text, isPlainAscii c = true := by
  cases h with
  | rowBreak => exact List.all_eq_true.1 rfl
  | command _ hl _ _ => exact List.forall_mem_cons.2 ⟨rfl, fun c hc => isPlainAscii_of_isAlpha (hl c hc)⟩
  | number hnum _ => exact hnum.isPlainAscii
  | assign => exact List.all_eq_true.1 rfl
  | punctuation hc =>
    have hall : TexFormula.punctuation.all Text.isPlainAscii = true := rfl
    simpa using List.all_eq_true.1 hall _ hc
  | keyword hk _ => exact fun c hc => isPlainAscii_of_isAlpha ((keyword_spec hk).2.1 c hc)
  | letter hc _ => simpa using isPlainAscii_of_isAlpha hc

theorem Cut.Valid.isPlainAscii {cut : Cut} (h : cut.Valid) : ∀ c ∈ cut.text, isPlainAscii c = true := by
  induction cut with
  | last gap => exact Gap.isPlainAscii h
  | next gap lexeme rest ih =>
    obtain ⟨hgap, hl, hrest⟩ := h
    exact List.forall_mem_append.2 ⟨hgap.isPlainAscii, List.forall_mem_append.2 ⟨hl.isPlainAscii, ih hrest⟩⟩

/-- What stands before a fault is printable ASCII, and the fault is not at a space. -/
theorem exists_plain_split_of_tokensFrom_error {text : List Char} {offset : Nat} {error : LexError}
    (h : tokensFrom offset 0 text = .error error) : ∃ before rest, text = before ++ rest ∧
      error.position = .ofOffset (offset + byteLength before) ∧ (∀ c ∈ before, isPlainAscii c = true) ∧
        rest.head? ≠ some ' ' := by
  obtain ⟨cut, c, cs, hvalid, rfl, hscan, hp⟩ := exists_cut_of_tokensFrom_error h
  refine ⟨cut.text, c :: cs, rfl, hp, hvalid.isPlainAscii, ?_⟩
  rintro ⟨⟩
  cases hscan

theorem Cut.Valid.exists_head_text {cut : Cut} (h : cut.Valid) {offset : Nat} {token : Token}
    (ht : token ∈ cut.tokens offset) : ∃ c cs, token.text.toList = c :: cs ∧ c ≠ ' ' := by
  induction cut generalizing offset with
  | last gap =>
    obtain rfl := List.mem_singleton.1 ht
    have htext : "EOF".toList = ['E', 'O', 'F'] := by decide
    exact ⟨'E', ['O', 'F'], htext, by decide⟩
  | next gap lexeme rest ih =>
    obtain ⟨-, hl, hrest⟩ := h
    rcases List.mem_cons.1 ht with rfl | ht
    · obtain ⟨c, cs, rfl⟩ := List.exists_cons_of_ne_nil hl.ne_nil
      refine ⟨c, cs, String.toList_ofList, ?_⟩
      rintro rfl
      exact hrest.gapless hl ' ' (cs ++ rest.text) 0 rfl rfl
    · exact ih hrest ht

theorem Cut.Valid.exists_plain_split_of_mem {cut : Cut} (h : cut.Valid) {offset : Nat} {token : Token}
    (ht : token ∈ cut.tokens offset) : ∃ before rest, cut.text = before ++ rest ∧
      token.position = .ofOffset (offset + byteLength before) ∧ (∀ c ∈ before, Text.isPlainAscii c = true) ∧
        rest.head? ≠ some ' ' := by
  obtain ⟨before, rest, hsplit, hp, hrest⟩ := exists_split_of_mem ht
  have hplain := h.isPlainAscii
  rw [hsplit] at hplain
  refine ⟨before, rest, hsplit, hp, (List.forall_mem_append.1 hplain).1, ?_⟩
  rcases hrest with ⟨-, rfl⟩ | ⟨after, rfl⟩
  · simp
  · obtain ⟨c, cs, htext, hc⟩ := h.exists_head_text ht
    rw [htext]
    simpa using hc

/-- What stands before an error is printable ASCII, and the error is not at a space. -/
theorem exists_plain_split_of_error {limit : Nat} {source : String} {diagnostic : Diagnostic}
    (h : parseFormulaWithin limit source = .error diagnostic) : ∃ before rest, source.toList = before ++ rest ∧
      diagnostic.position = .ofOffset (byteLength before) ∧ (∀ c ∈ before, isPlainAscii c = true) ∧
        rest.head? ≠ some ' ' := by
  rcases parseFormulaWithin_error_cases h with ⟨error, htokenize, rfl⟩ | ⟨tokens, error, htokenize, hparse, rfl⟩
  · obtain ⟨before, rest, hsplit, hp, hclear⟩ := exists_plain_split_of_tokensFrom_error htokenize
    rw [Nat.zero_add] at hp
    exact ⟨before, rest, hsplit, hp, hclear⟩
  · have hmem := (truthful_of_error hparse).mem
    rw [closed_of_tokenize htokenize] at hmem
    obtain ⟨cut, hvalid, htext, rfl⟩ := exists_cut_of_tokensFrom htokenize
    obtain ⟨before, rest, hsplit, hp, hclear⟩ := hvalid.exists_plain_split_of_mem hmem
    rw [htext] at hsplit
    rw [Nat.zero_add] at hp
    exact ⟨before, rest, hsplit, hp, hclear⟩

/-! ## The line of an error -/

section
variable {before line rest : List Char}

theorem splitLines_of_newline (h : ∀ c ∈ line, c ≠ '\n') :
    splitLines (line ++ '\n' :: rest) = (line ++ ['\n']) :: splitLines rest := by
  induction line with
  | nil => rw [List.nil_append, splitLines, if_pos rfl, List.nil_append]
  | cons c line ih =>
    obtain ⟨hc, hline⟩ := List.forall_mem_cons.1 h
    rw [List.cons_append, splitLines, if_neg hc, ih hline]
    rfl

theorem splitLines_of_single (h : ∀ c ∈ line, c ≠ '\n') (hne : line ≠ []) : splitLines line = [line] := by
  induction line with
  | nil => exact absurd rfl hne
  | cons c line ih =>
    obtain ⟨hc, hline⟩ := List.forall_mem_cons.1 h
    rw [splitLines, if_neg hc]
    cases line with
    | nil => rfl
    | cons d line => rw [ih hline (List.cons_ne_nil d line)]

/-- The first line holds all offsets up to the newline that ends it. -/
theorem lineAt_cons {offset : Nat} (h : offset < byteLength line) (lines : List (List Char)) :
    lineAt offset 0 (line :: lines) = ⟨0, line⟩ := by
  cases lines with
  | nil => rfl
  | cons next lines =>
    show (if offset < 0 + byteLength line then _ else _) = _
    rw [Nat.zero_add, if_pos h]

theorem firstLine_append (h : ∀ c ∈ before, c ≠ '\n') : firstLine (before ++ rest) = before ++ firstLine rest :=
  List.takeWhile_append_of_pos fun c hc => decide_eq_true (h c hc)

theorem head?_of_firstLine {c : Char} (h : (firstLine rest).head? = some c) : rest.head? = some c := by
  rw [firstLine, List.head?_takeWhile] at h
  exact (Option.filter_eq_some_iff.1 h).1

theorem lineAt_splitLines (h : ∀ c ∈ before, c ≠ '\n') (rest : List Char) :
    ∃ ending, (ending = [] ∨ ending = ['\n']) ∧
      lineAt (byteLength before) 0 (splitLines (before ++ rest)) = ⟨0, firstLine (before ++ rest) ++ ending⟩ := by
  obtain ⟨run, after, rfl, hrun, hstop⟩ := exists_run_of_class (fun c => c ≠ '\n') rest
  have hfirst : firstLine (before ++ (run ++ after)) = before ++ run := by
    rw [firstLine_append h]
    exact congrArg _ (takeWhile_append_of_stops hrun hstop)
  have hline : ∀ c ∈ before ++ run, c ≠ '\n' :=
    List.forall_mem_append.2 ⟨h, fun c hc => of_decide_eq_true (hrun c hc)⟩
  rw [hfirst]
  cases after with
  | nil =>
    refine ⟨[], .inl rfl, ?_⟩
    rw [List.append_nil, List.append_nil]
    by_cases hne : before ++ run = []
    · rw [hne]
      rfl
    · rw [splitLines_of_single hline hne]
      rfl
  | cons c after =>
    obtain rfl : c = '\n' := by simpa using hstop c rfl
    refine ⟨['\n'], .inr rfl, ?_⟩
    rw [← List.append_assoc, splitLines_of_newline hline, lineAt_cons]
    rw [byteLength_append, byteLength_append]
    have hnewline : 0 < byteLength ['\n'] := by decide
    omega

theorem indentation_append_newline (line : List Char) : indentation (line ++ ['\n']) = indentation line := by
  unfold indentation
  rw [List.takeWhile_append]
  split
  · next hall => rw [List.takeWhile_cons_of_neg (by decide), List.append_nil, hall]
  · rfl

theorem indentation_append_le (h : rest.head? ≠ some ' ') : indentation (line ++ rest) ≤ line.length := by
  have hrest : rest.takeWhile (· = ' ') = [] := by
    cases rest with
    | nil => rfl
    | cons c rest => exact List.takeWhile_cons_of_neg (by simpa using h)
  unfold indentation
  rw [List.takeWhile_append, hrest]
  split
  · exact Nat.le_of_eq (by rw [List.append_nil])
  · exact (List.takeWhile_prefix _).length_le

theorem indentation_le_length (line : List Char) : indentation line ≤ line.length :=
  (List.takeWhile_prefix _).length_le

theorem trimEnd_append_newline (line : List Char) : trimEnd (line ++ ['\n']) = trimEnd line := by
  unfold trimEnd
  rw [List.reverse_append, List.reverse_singleton, List.singleton_append, List.dropWhile_cons_of_pos (by decide)]

theorem trimEnd_prefix (line : List Char) : trimEnd line <+: line := by
  have hsuffix := (List.dropWhile_suffix (l := line.reverse) Text.isBlank).reverse
  rwa [List.reverse_reverse] at hsuffix

/-- What is shown of a line stands as far from the indentation as it does in the line. -/
theorem getElem?_trimEnd_drop (cs : List Char) {n k : Nat} (hk : k ≤ n)
    (h : n - k < (trimEnd (cs.drop k)).length) : (trimEnd (cs.drop k))[n - k]? = cs[n]? := by
  obtain ⟨trimmed, htrimmed⟩ := trimEnd_prefix (cs.drop k)
  calc (trimEnd (cs.drop k))[n - k]?
      = (trimEnd (cs.drop k) ++ trimmed)[n - k]? := (List.getElem?_append_left h).symm
    _ = cs[n]? := by rw [htrimmed, List.getElem?_drop, Nat.add_sub_cancel' hk]

theorem trimEnd_drop_append {ending : List Char} (h : ending = [] ∨ ending = ['\n']) (line : List Char) :
    indentation (line ++ ending) = indentation line ∧
      trimEnd ((line ++ ending).drop (indentation line)) = trimEnd (line.drop (indentation line)) := by
  rcases h with rfl | rfl
  · rw [List.append_nil]
    exact ⟨rfl, rfl⟩
  · rw [List.drop_append_of_le_length (indentation_le_length line), trimEnd_append_newline]
    exact ⟨indentation_append_newline line, rfl⟩

/-- Of an error in the first line, that line is shown, and the caret after as many dashes as bytes are shown. -/
theorem render_of_split {source : String} {diagnostic : Diagnostic} (hsplit : source.toList = before ++ rest)
    (hp : diagnostic.position.offset = byteLength before) (h : ∀ c ∈ before, c ≠ '\n') :
    diagnostic.render source = diagnostic.headline ++ "\n  |\n  | " ++
      String.ofList (trimEnd ((firstLine source.toList).drop (indentation (firstLine source.toList)))) ++
      "\n  | " ++ caretLine (byteLength before) (indentation (firstLine source.toList)) := by
  obtain ⟨ending, hending, hline⟩ := lineAt_splitLines h rest
  obtain ⟨hindent, hshown⟩ := trimEnd_drop_append hending (firstLine (before ++ rest))
  unfold Diagnostic.render
  dsimp only
  rw [hp, hsplit, hline]
  change _ ++ String.ofList (trimEnd (List.drop (indentation (firstLine (before ++ rest) ++ ending)) _)) ++ _ ++
    caretLine (byteLength before - 0) (indentation (firstLine (before ++ rest) ++ ending)) = _
  rw [hindent, hshown, Nat.sub_zero]

end

theorem byteLength_of_isPlainAscii {cs : List Char} (h : ∀ c ∈ cs, isPlainAscii c = true) :
    byteLength cs = cs.length := by
  induction cs with
  | nil => rfl
  | cons c cs ih =>
    obtain ⟨hc, hcs⟩ := List.forall_mem_cons.1 h
    have hsize : c.utf8Size = 1 := by
      have hn := (isPlainAscii_iff.1 hc).2
      exact Char.utf8Size_eq_one_iff.2 (UInt32.le_iff_toNat_le.2 (Nat.le_of_lt hn))
    rw [byteLength, ih hcs, hsize, List.length_cons, Nat.add_comm]

/--
The caret of an error stands under the character that the error is at. What stands before that character is
ASCII in the first line, and more of it than the spaces that the line begins with. Shown is the first line
without these spaces and without white space at its end; below, after as many dashes as characters are shown
before it, stands the caret.
-/
theorem caret_under_error {source : String} (hsize : source.utf8ByteSize < UInt32.size) {limit : Nat}
    {diagnostic : Diagnostic} (h : parseFormulaWithin limit source = .error diagnostic) :
    let offset := diagnostic.position.offset
    let line := firstLine source.toList
    let shown := trimEnd (line.drop (indentation line))
    ∃ before rest, source.toList = before ++ rest ∧ byteLength before = offset ∧
      (∀ c ∈ before, c.toNat < 128 ∧ c ≠ '\n') ∧ indentation line ≤ offset ∧
      diagnostic.render source = diagnostic.headline ++ "\n  |\n  | " ++ String.ofList shown ++ "\n  | " ++
        String.ofList (List.replicate (offset - indentation line) '-' ++ ['^']) ∧
      (offset - indentation line < shown.length → shown[offset - indentation line]? = rest.head?) := by
  intro offset line shown
  obtain ⟨before, rest, hsplit, hp, hplain, hspace⟩ := exists_plain_split_of_error h
  have hclear : ∀ c ∈ before, c.toNat < 128 ∧ c ≠ '\n' := fun c hc => clear_of_isPlainAscii (hplain c hc)
  have hoffset : byteLength before = offset := by
    have hle := byteLength_append before rest
    rw [← hsplit, byteLength_ofList source.toList, String.ofList_toList] at hle
    show _ = diagnostic.position.offset
    rw [hp, Position.offset_ofOffset (by omega)]
  have hline : line = before ++ firstLine rest := by
    show firstLine source.toList = _
    rw [hsplit, firstLine_append fun c hc => (hclear c hc).2]
  have hindent : indentation line ≤ offset := by
    rw [← hoffset, byteLength_of_isPlainAscii hplain, hline]
    exact indentation_append_le fun hhead => hspace (head?_of_firstLine hhead)
  refine ⟨before, rest, hsplit, hoffset, hclear, hindent, ?_, fun hlt => ?_⟩
  · rw [← hoffset]
    exact render_of_split hsplit hoffset.symm fun c hc => (hclear c hc).2
  · have hchar : shown[offset - indentation line]? = (firstLine rest).head? := by
      calc shown[offset - indentation line]?
          = (before ++ firstLine rest)[offset]? := by
            rw [← hline]
            exact getElem?_trimEnd_drop line hindent hlt
        _ = (before ++ firstLine rest)[before.length]? := by rw [← hoffset, byteLength_of_isPlainAscii hplain]
        _ = (firstLine rest).head? := by
            rw [List.getElem?_append_right (Nat.le_refl _), Nat.sub_self, List.head?_eq_getElem?]
    rw [List.getElem?_eq_getElem hlt] at hchar ⊢
    exact (head?_of_firstLine hchar.symm).symm

/-- The second number is five bytes into the source, of which three are not shown. -/
theorem caret_under_error_indented :
    let source := "   5 5 "
    let diagnostic : Diagnostic := .syntactic ⟨.ambiguousNumbers "5" "5", ⟨.number, "5", .ofBytes 5 1⟩⟩
    source.utf8ByteSize < UInt32.size ∧ parseFormulaWithin 64 source = .error diagnostic ∧
      diagnostic.render source = diagnostic.headline ++ "\n  |\n  | 5 5\n  | --^" ∧
      ∃ before rest, source.toList = before ++ rest ∧ byteLength before = 5 ∧ rest.head? = some '5' := by
  intro source diagnostic
  have hsize : source.utf8ByteSize < UInt32.size := by decide
  have h : parseFormulaWithin 64 source = .error diagnostic := errorOf?_eq_some_iff.1 (by decide +kernel)
  obtain ⟨before, rest, hsplit, hbytes, -, -, hrender, hchar⟩ := caret_under_error hsize h
  have hoffset : diagnostic.position.offset = 5 := rfl
  have hline : firstLine source.toList = "   5 5 ".toList := by decide
  have hshown : trimEnd ("   5 5 ".toList.drop (indentation "   5 5 ".toList)) = ['5', ' ', '5'] := by decide
  have hindent : indentation "   5 5 ".toList = 3 := by decide
  rw [hoffset, hline, hindent] at hchar hrender
  rw [hindent] at hshown
  rw [hshown] at hchar hrender
  refine ⟨hsize, h, ?_, before, rest, hsplit, hbytes, (hchar (by decide)).symm⟩
  rw [hrender]
  simp only [String.append_assoc]
  rfl

end TexFormula

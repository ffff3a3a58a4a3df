import TexFormula.Proofs.Token.Decomposition

/-!
# Where no token can be found

* `LexFault.lexeme` : the characters that a cause is about;
* `LexFault.StandsAt` : the texts that begin with a fault, by its cause;
* `standsAt_of_scan` : at the head of a text, `scan` finds no other faults;
* `Lexeme.shorten` : a lexeme stays one if the text after it is cut off before a character that is no letter;
* `exists_cut_of_tokensFrom_error` : the text before a fault is cut into gaps and lexemes to its end;
* `exists_split_of_tokenize_error` : the tokens of a text end at the first place where there is none.

Letters, digits and points are looked at before it is known where a lexeme ends, so it is not plain that the text
before a fault has tokens when it stands alone. It has, for a fault is never at a letter or at a digit, and a number
takes a point only along with a digit.
-/

namespace TexFormula

namespace LexFault

def lexeme : LexFault → String
  | controlCharacter character => String.singleton character
  | unknownCommand command => command
  | unrecognised text => text

/-- The texts that begin with a fault. -/
inductive StandsAt : LexFault → List Char → Prop
  | controlCharacter {c : Char} {rest : List Char} : c.toNat < 0x20 ∨ c.toNat = 0x7f →
    StandsAt (.controlCharacter c) (c :: rest)
  /-- A backslash and all the letters after it, which are no word of the vocabulary. -/
  | unknownWord {letters rest : List Char} : letters ≠ [] → (∀ c ∈ letters, c.isAlpha = true) →
    Stops Char.isAlpha rest → kindOf? (String.ofList ('\\' :: letters)) = none →
    StandsAt (.unknownCommand (String.ofList ('\\' :: letters))) ('\\' :: (letters ++ rest))
  /-- A backslash and a character that makes neither a word nor a gap nor a row break with it. -/
  | unknownSign {c : Char} {rest : List Char} : c.isAlpha = false → c ≠ ' ' → c ≠ '\\' →
    StandsAt (.unknownCommand (String.ofList ['\\', c])) ('\\' :: c :: rest)
  | backslash : StandsAt (.unrecognised (String.ofList ['\\'])) ['\\']
  /-- A character that begins no gap, no lexeme and no other fault. -/
  | unrecognised {c : Char} {rest : List Char} : isControl c = false → c ≠ ' ' → c ≠ '\\' → c.isDigit = false →
    c.isAlpha = false → c ∉ punctuation → ¬ (c = ':' ∧ rest.head? = some '=') →
    StandsAt (.unrecognised (String.ofList [c])) (c :: rest)

theorem StandsAt.exists_append {fault : LexFault} {text : List Char} (h : fault.StandsAt text) :
    fault.lexeme ≠ "" ∧ ∃ rest, text = fault.lexeme.toList ++ rest := by
  cases h with
  | @controlCharacter c rest _ =>
    refine ⟨by simp [lexeme], rest, ?_⟩
    rw [lexeme, String.toList_singleton]
    rfl
  | @unknownWord _ rest _ _ _ _ | @unknownSign _ rest _ _ _ | @unrecognised _ rest _ _ _ _ _ _ _ =>
    refine ⟨by simp [lexeme], rest, ?_⟩
    rw [lexeme, String.toList_ofList]
    rfl
  | backslash => exact ⟨by simp [lexeme], [], rfl⟩

end LexFault

/-! ## Faults at the head of a text -/

section
variable {c : Char} {cs : List Char} {fault : LexFault}

theorem standsAt_of_scanCommand (h : scanCommand cs = .fault fault) : fault.StandsAt ('\\' :: cs) := by
  unfold scanCommand at h
  split at h
  · cases h
    exact .backslash
  · cases h
  · cases h
  · next c cs hspace hslash =>
    split at h
    · next hc =>
      obtain ⟨letters, rest, rfl, hl, hstop⟩ := exists_run_of_class Char.isAlpha cs
      simp only [takeWhile_append_of_stops hl hstop] at h
      split at h
      · cases h
      · next hkind =>
        cases h
        exact .unknownWord (List.cons_ne_nil _ _) (List.forall_mem_cons.2 ⟨hc, hl⟩) hstop hkind
    · next hc =>
      cases h
      refine .unknownSign (Bool.not_eq_true _ ▸ hc) ?_ ?_
      · rintro rfl
        exact hspace rfl
      · rintro rfl
        exact hslash rfl

theorem scanLetters_ne_fault : scanLetters c cs ≠ .fault fault := by
  unfold scanLetters
  dsimp only
  split
  · exact nofun
  · exact nofun

/-- The fault that is found at the head of a text stands there. -/
theorem standsAt_of_scan (h : scan c cs = .fault fault) : fault.StandsAt (c :: cs) := by
  unfold scan at h
  split at h
  · next hcontrol =>
    cases h
    rw [isControl, Bool.or_eq_true, decide_eq_true_eq, beq_iff_eq] at hcontrol
    exact .controlCharacter hcontrol
  next hcontrol =>
  split at h
  · cases h
  next hspace =>
  split at h
  · next hslash =>
    subst hslash
    exact standsAt_of_scanCommand h
  next hslash =>
  split at h
  · cases h
  next hdigit =>
  split at h
  · cases h
  next hassign =>
  split at h
  · exact absurd h scanLetters_ne_fault
  next halpha =>
  split at h
  · cases h
  · next hkind =>
    cases h
    rw [String.singleton_eq_ofList] at hkind ⊢
    refine .unrecognised (Bool.not_eq_true _ ▸ hcontrol) hspace hslash (Bool.not_eq_true _ ▸ hdigit)
      (Bool.not_eq_true _ ▸ halpha) (fun hmem => ?_) hassign
    rw [kindOf?_of_mem_punctuation hmem] at hkind
    cases hkind

theorem isAlpha_eq_false_of_scan (h : scan c cs = .fault fault) : c.isAlpha = false := by
  rw [← Bool.not_eq_true]
  intro hc
  rw [scan_of_isAlpha hc] at h
  exact scanLetters_ne_fault h

end

/-! ## The text before a fault -/

section
variable {p : Char → Bool} {c : Char} {cs rest text : List Char}

theorem Stops.shorten (h : Stops p (rest ++ cs)) : Stops p rest := by
  intro d hd
  obtain ⟨rest, rfl⟩ := List.head?_eq_some_iff.1 hd
  exact h d rfl

theorem takeWhile_append_cons (hc : p c = false) : (rest ++ c :: cs).takeWhile p = rest.takeWhile p := by
  rw [List.takeWhile_append, List.takeWhile_cons, hc, if_neg Bool.false_ne_true, List.append_nil]
  split
  · next hlength =>
    exact ((List.takeWhile_prefix p).eq_of_length hlength).symm
  · rfl

/-- A lexeme stays one if the text after it is cut off before a character that is no letter. -/
theorem Lexeme.shorten (h : Lexeme text (rest ++ c :: cs)) (hc : c.isAlpha = false) : Lexeme text rest := by
  cases h with
  | rowBreak => exact .rowBreak
  | command hne hl hk hstop => exact .command hne hl hk hstop.shorten
  | number hnum hstop => exact .number hnum hstop.shorten
  | assign => exact .assign
  | punctuation hd => exact .punctuation hd
  | keyword hk hstop => exact .keyword hk hstop.shorten
  | letter hd hk =>
    -- The run that the letter begins ends before the cut.
    rw [takeWhile_append_cons hc] at hk
    exact .letter hd hk

end

/-- A text without tokens has a fault, and what stands before the fault is cut to its end. -/
theorem exists_cut_of_tokensFrom_error {text : List Char} {offset : Nat} {error : LexError}
    (h : tokensFrom offset 0 text = .error error) : ∃ (cut : Cut) (c : Char) (cs : List Char),
      cut.Valid ∧ text = cut.text ++ c :: cs ∧ scan c cs = .fault error.fault ∧
        error.position = .ofOffset (offset + byteLength cut.text) := by
  induction hn : text.length using Nat.strongRecOn generalizing text offset with
  | ind n ih =>
    obtain ⟨gap, body, rfl, hgap, hbody⟩ := exists_gap text
    rw [hgap.tokensFrom_append] at h
    cases body with
    | nil => cases h
    | cons c cs =>
      cases hscan : scan c cs with
      | fault fault =>
        rw [tokensFrom, hscan] at h
        cases h
        exact ⟨.last gap, c, cs, hgap, rfl, hscan, rfl⟩
      | gap more => exact absurd hscan (hbody c cs more rfl)
      | lexeme kind more =>
        obtain ⟨tail, rest, rfl, rfl, hl, -⟩ := lexeme_of_scan hscan
        rw [tokensFrom_of_lexeme tail rest hscan] at h
        rw [List.length_append, List.length_cons, List.length_append] at hn
        cases hothers : tokensFrom (offset + byteLength gap + byteLength (c :: tail)) 0 rest with
        | ok others =>
          rw [hothers] at h
          cases h
        | error e =>
          rw [hothers] at h
          cases h
          obtain ⟨cut, d, ds, hvalid, rfl, hfault, hp⟩ := ih rest.length (by omega) hothers rfl
          have hlexeme := hl.shorten (isAlpha_eq_false_of_scan hfault)
          refine ⟨.next gap (c :: tail) cut, d, ds, ⟨hgap, hlexeme, hvalid⟩, by simp [Cut.text], hfault, ?_⟩
          rw [hp, Cut.text, byteLength_append, byteLength_append]
          simp only [Nat.add_assoc]

/--
The tokens of a source end at the first place where there is none. The place is between two characters and not at the
end of the source, what stands before it has tokens, and the characters in the error, which are those of its cause,
stand right there.
-/
theorem exists_split_of_tokenize_error {source : String} (hsize : source.utf8ByteSize < UInt32.size) {error : LexError}
    (h : tokenize source = .error error) : ∃ before after : String,
      source = before ++ (error.fault.lexeme ++ after) ∧ before.utf8ByteSize = error.position.offset ∧
      error.position.offset < source.utf8ByteSize ∧ (∃ tokens, tokenize before = .ok tokens) ∧
      error.fault.StandsAt (error.fault.lexeme ++ after).toList := by
  obtain ⟨cut, c, cs, hvalid, htext, hscan, hp⟩ := exists_cut_of_tokensFrom_error h
  have hfault := standsAt_of_scan hscan
  obtain ⟨hne, rest, hrest⟩ := hfault.exists_append
  have hsource : source = String.ofList cut.text ++ (error.fault.lexeme ++ String.ofList rest) := by
    rw [← String.toList_inj, String.toList_append, String.toList_append, String.toList_ofList, String.toList_ofList,
      ← hrest]
    exact htext
  have hbytes := congrArg String.utf8ByteSize hsource
  rw [String.utf8ByteSize_append, String.utf8ByteSize_append] at hbytes
  have hoffset : (String.ofList cut.text).utf8ByteSize = error.position.offset := by
    rw [hp, Nat.zero_add, byteLength_ofList, Position.offset_ofOffset (by omega)]
  refine ⟨_, _, hsource, hoffset, ?_, ⟨cut.tokens 0, ?_⟩, ?_⟩
  · have hpos := Nat.pos_of_ne_zero (mt String.utf8ByteSize_eq_zero_iff.1 hne)
    omega
  · rw [tokenize, String.toList_ofList]
    exact hvalid.tokensFrom_text 0
  · rw [String.toList_append, String.toList_ofList, ← hrest]
    exact hfault

/-- A number with a point, a letter, and a command that is not in the vocabulary, before what no lexeme begins with. -/
theorem exists_split_of_tokenize_error_command : "2.5x\\fooé".utf8ByteSize < UInt32.size ∧
    tokenize "2.5x\\fooé" = .error ⟨.unknownCommand "\\foo", .ofOffset 4⟩ ∧
    ∃ before after : String, "2.5x\\fooé" = before ++ ("\\foo" ++ after) ∧ before.utf8ByteSize = 4 ∧
      4 < "2.5x\\fooé".utf8ByteSize ∧ (∃ tokens, tokenize before = .ok tokens) ∧
      (LexFault.unknownCommand "\\foo").StandsAt ("\\foo" ++ after).toList := by
  have hsize : "2.5x\\fooé".utf8ByteSize < UInt32.size := by decide
  have h : tokenize "2.5x\\fooé" = .error ⟨.unknownCommand "\\foo", .ofOffset 4⟩ := rfl
  exact ⟨hsize, h, exists_split_of_tokenize_error hsize h⟩

end TexFormula

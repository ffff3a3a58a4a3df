import TexFormula.Parser.Productions

/-!
# The lexemes of a formula

What a lexeme may look like, given the text after it, and that `scan` finds nothing else.

* `Numeral` : digits, with a point and more digits or without;
* `Gap`, `Lexeme` : what stands between lexemes, and the lexemes by their shape;
* `lexemeKind` : the kind that belongs to a lexeme;
* `isDecimal_iff` : `isDecimal` tells the numerals;
* `scan_of_lexeme`, `lexeme_of_scan` : the lexeme at the head of a text is the one that `scan` takes.

A lexeme of the shape of a number may be the beginning of a longer one: `12` stands before `.5` as
well as `12.5` does before nothing. No lexeme starts with a point, so only the longer can be part of a
text that is cut into lexemes to its end; this is why `scan_of_lexeme` asks that no point follows.
-/

namespace TexFormula

/-- The words of more than one letter that are one lexeme. -/
def keywords : List String := ["bmatrix", "True", "False"]

/-- The characters, other than letters and digits, that are a lexeme on their own. -/
def punctuation : List Char :=
  ['-', '+', '*', '/', '^', '_', '=', '<', '>', '(', ')', '\x7b', '\x7d', '|', '&', ',', '?']

/-- No character of the class `p` comes first in `rest`. -/
def Stops (p : Char → Bool) (rest : List Char) : Prop := ∀ c, rest.head? = some c → p c = false

inductive Numeral : List Char → Prop
  | integer {digits : List Char} : digits ≠ [] → (∀ c ∈ digits, c.isDigit = true) → Numeral digits
  | decimal {digits fraction : List Char} : digits ≠ [] → (∀ c ∈ digits, c.isDigit = true) →
    fraction ≠ [] → (∀ c ∈ fraction, c.isDigit = true) → Numeral (digits ++ '.' :: fraction)

/-- What may stand between lexemes: spaces, each on its own or after a backslash. -/
inductive Gap : List Char → Prop
  | nil : Gap []
  | space {cs : List Char} : Gap cs → Gap (' ' :: cs)
  | command {cs : List Char} : Gap cs → Gap ('\\' :: ' ' :: cs)

/-- `Lexeme text rest` says that the characters `text` are a lexeme where `rest` follows them. -/
inductive Lexeme : List Char → List Char → Prop
  | rowBreak {rest : List Char} : Lexeme ['\\', '\\'] rest
  | command {letters rest : List Char} : letters ≠ [] → (∀ c ∈ letters, c.isAlpha = true) →
    (kindOf? (String.ofList ('\\' :: letters))).isSome = true → Stops Char.isAlpha rest →
    Lexeme ('\\' :: letters) rest
  | number {text rest : List Char} : Numeral text → Stops Char.isDigit rest → Lexeme text rest
  | assign {rest : List Char} : Lexeme [':', '='] rest
  | punctuation {c : Char} {rest : List Char} : c ∈ punctuation → Lexeme [c] rest
  | keyword {letters rest : List Char} : String.ofList letters ∈ keywords → Stops Char.isAlpha rest →
    Lexeme letters rest
  /-- A letter is a lexeme unless the run of letters that it begins is a keyword. -/
  | letter {c : Char} {rest : List Char} : c.isAlpha = true →
    String.ofList (c :: rest.takeWhile Char.isAlpha) ∉ keywords → Lexeme [c] rest

/-- The kind of a lexeme: the one in the vocabulary, if it is neither a number nor a variable. -/
def lexemeKind (text : List Char) : Kind :=
  if text.head?.any Char.isDigit then .number else (kindOf? (String.ofList text)).getD .identifier

/-! ## Runs of characters -/

section
variable {p : Char → Bool} {w rest : List Char}

theorem takeWhile_append_of_stops (hw : ∀ c ∈ w, p c = true) (hr : Stops p rest) :
    (w ++ rest).takeWhile p = w := by
  rw [List.takeWhile_append_of_pos hw]
  cases rest with
  | nil => rw [List.takeWhile_nil, List.append_nil]
  | cons c rest => rw [List.takeWhile_cons, hr c rfl, if_neg Bool.false_ne_true, List.append_nil]

theorem stops_cons {c : Char} (h : p c = false) (rest : List Char) : Stops p (c :: rest) := by
  rintro _ ⟨⟩
  exact h

theorem exists_run_of_class (p : Char → Bool) (cs : List Char) : ∃ run rest,
    cs = run ++ rest ∧ (∀ c ∈ run, p c = true) ∧ Stops p rest := by
  refine ⟨cs.takeWhile p, cs.dropWhile p, List.takeWhile_append_dropWhile.symm, ?_, fun c hc => ?_⟩
  · exact List.all_eq_true.1 List.all_takeWhile
  · have hfirst := List.head?_dropWhile_not p cs
    rw [hc] at hfirst
    simpa using hfirst

end

/-! ## Numbers -/

def fractionTail : List Char → Nat
  | '.' :: c :: rest => if c.isDigit then 2 + (rest.takeWhile Char.isDigit).length else 0
  | _ => 0

theorem numberTail_append {digits rest : List Char} (hd : ∀ c ∈ digits, c.isDigit = true)
    (hr : Stops Char.isDigit rest) : numberTail (digits ++ rest) = digits.length + fractionTail rest := by
  unfold numberTail
  simp only [takeWhile_append_of_stops hd hr, List.drop_left]
  split
  · next c rest =>
    show _ = _ + (if c.isDigit = true then _ else _)
    split
    · exact Nat.add_assoc _ _ _
    · rfl
  · next hne => rw [fractionTail.eq_2 rest hne, Nat.add_zero]

theorem fractionTail_of_digits {c : Char} {fraction rest : List Char} (hf : ∀ d ∈ c :: fraction, d.isDigit = true)
    (hr : Stops Char.isDigit rest) : fractionTail ('.' :: c :: (fraction ++ rest)) = 2 + fraction.length := by
  obtain ⟨hc, hf⟩ := List.forall_mem_cons.1 hf
  show (if c.isDigit = true then _ else _) = _
  rw [if_pos hc, takeWhile_append_of_stops hf hr]

/-- The number at the head of a text is a numeral, and no digit follows it. -/
theorem numeral_of_numberTail {c : Char} (hc : c.isDigit = true) (cs : List Char) : ∃ tail rest,
    cs = tail ++ rest ∧ tail.length = numberTail cs ∧ Numeral (c :: tail) ∧ Stops Char.isDigit rest := by
  obtain ⟨digits, rest, rfl, hd, hstop⟩ := exists_run_of_class Char.isDigit cs
  have hall : ∀ d ∈ c :: digits, d.isDigit = true := List.forall_mem_cons.2 ⟨hc, hd⟩
  have hint : Numeral (c :: digits) := .integer (List.cons_ne_nil _ _) hall
  rw [numberTail_append hd hstop]
  by_cases hpoint : ∃ d cs, rest = '.' :: d :: cs ∧ d.isDigit = true
  · obtain ⟨d, cs, rfl, hfirst⟩ := hpoint
    obtain ⟨fraction, rest, rfl, hf, hstop'⟩ := exists_run_of_class Char.isDigit cs
    have hfall : ∀ e ∈ d :: fraction, e.isDigit = true := List.forall_mem_cons.2 ⟨hfirst, hf⟩
    refine ⟨digits ++ '.' :: d :: fraction, rest, by simp, ?_, ?_, hstop'⟩
    · rw [fractionTail_of_digits hfall hstop', List.length_append, List.length_cons, List.length_cons]
      omega
    · exact .decimal (List.cons_ne_nil c digits) hall (List.cons_ne_nil d fraction) hfall
  · refine ⟨digits, rest, rfl, ?_, hint, hstop⟩
    unfold fractionTail
    split
    · next d cs =>
      rw [if_neg fun hfirst => hpoint ⟨d, cs, rfl, hfirst⟩]
      rfl
    · rfl

theorem Numeral.isDigit_head {c : Char} {cs : List Char} (h : Numeral (c :: cs)) : c.isDigit = true := by
  generalize htext : c :: cs = text at h
  cases h with
  | integer _ hd =>
    subst htext
    exact hd c List.mem_cons_self
  | decimal hne hd _ _ =>
    obtain ⟨d, digits, rfl⟩ := List.exists_cons_of_ne_nil hne
    rw [(List.cons.inj htext).1]
    exact hd d List.mem_cons_self

theorem numberTail_of_numeral {c : Char} {cs rest : List Char} (h : Numeral (c :: cs))
    (hr : Stops Char.isDigit rest) (hpoint : rest.head? ≠ some '.') : numberTail (cs ++ rest) = cs.length := by
  generalize htext : c :: cs = text at h
  cases h with
  | integer _ hd =>
    subst htext
    rw [numberTail_append (List.forall_mem_cons.1 hd).2 hr]
    unfold fractionTail
    split
    · simp at hpoint
    · rfl
  | decimal hne hd hfne hf =>
    obtain ⟨d, digits, rfl⟩ := List.exists_cons_of_ne_nil hne
    obtain ⟨f, fraction, rfl⟩ := List.exists_cons_of_ne_nil hfne
    rw [List.cons_append, List.cons.injEq] at htext
    obtain ⟨rfl, rfl⟩ := htext
    have hstop : Stops Char.isDigit ('.' :: f :: (fraction ++ rest)) := by
      rintro _ ⟨⟩
      rfl
    rw [List.append_assoc, List.cons_append, List.cons_append,
      numberTail_append (List.forall_mem_cons.1 hd).2 hstop, fractionTail_of_digits hf hr, List.length_append,
      List.length_cons, List.length_cons]
    omega

theorem Numeral.ne_nil {text : List Char} (h : Numeral text) : text ≠ [] := by
  cases h with
  | integer hne _ => exact hne
  | decimal _ _ _ _ => simp

theorem isDecimal_iff {text : String} : isDecimal text = true ↔ Numeral text.toList := by
  unfold isDecimal
  cases text.toList with
  | nil =>
    constructor
    · intro h
      cases h
    · intro h
      exact absurd rfl h.ne_nil
  | cons c cs =>
    show (c.isDigit && numberTail cs == cs.length) = true ↔ _
    rw [Bool.and_eq_true, beq_iff_eq]
    constructor
    · rintro ⟨hc, hlen⟩
      obtain ⟨tail, rest, hcs, htail, hnum, -⟩ := numeral_of_numberTail hc cs
      have hrest : rest = [] := by
        rw [← htail, hcs, List.length_append] at hlen
        exact List.length_eq_zero_iff.1 (by omega)
      rw [hcs, hrest, List.append_nil]
      exact hnum
    · intro h
      have hstop : Stops Char.isDigit [] := by
        rintro _ ⟨⟩
      have htail := numberTail_of_numeral h hstop (by simp)
      rw [List.append_nil] at htail
      exact ⟨h.isDigit_head, htail⟩

/-! ## The vocabulary -/

theorem mem_vocabulary {text : String} {kind : Kind} (h : kindOf? text = some kind) : (text, kind) ∈ vocabulary := by
  obtain ⟨before, after, heq, -⟩ := List.lookup_eq_some_iff.1 h
  rw [heq]
  exact List.mem_append_right before List.mem_cons_self

/-- A word of letters in the vocabulary is a keyword or a single letter. -/
theorem keyword_of_kindOf? {letters : List Char} {kind : Kind} (h : kindOf? (String.ofList letters) = some kind)
    (hl : ∀ c ∈ letters, c.isAlpha = true) : String.ofList letters ∈ keywords ∨ letters.length = 1 := by
  have hvoc : ∀ entry ∈ vocabulary, entry.1.toList.all Char.isAlpha = true →
      entry.1 ∈ keywords ∨ entry.1.toList.length = 1 := by decide +kernel
  have hword := hvoc _ (mem_vocabulary h)
  rw [String.toList_ofList] at hword
  exact hword (List.all_eq_true.2 hl)

theorem mem_punctuation_of_kindOf? {c : Char} {kind : Kind} (h : kindOf? (String.ofList [c]) = some kind)
    (hc : c.isAlpha = false) : c ∈ punctuation := by
  have hvoc : ∀ entry ∈ vocabulary, entry.1.toList.length = 1 →
      (entry.1.toList.all fun c => c.isAlpha || punctuation.contains c) = true := by decide +kernel
  have hchar := hvoc _ (mem_vocabulary h)
  rw [String.toList_ofList] at hchar
  have hmem := List.all_eq_true.1 (hchar rfl) c List.mem_cons_self
  rw [hc, Bool.false_or] at hmem
  exact List.contains_iff_mem.1 hmem

theorem keyword_spec {letters : List Char} (h : String.ofList letters ∈ keywords) :
    2 ≤ letters.length ∧ (∀ c ∈ letters, c.isAlpha = true) ∧
      kindOf? (String.ofList letters) = some (lexemeKind letters) := by
  have hall : ∀ text ∈ keywords, 2 ≤ text.toList.length ∧ text.toList.all Char.isAlpha = true ∧
      kindOf? text = some (lexemeKind text.toList) := by decide +kernel
  have hword := hall _ h
  rwa [String.toList_ofList, List.all_eq_true] at hword

/-- A letter is a lexeme where no other letter follows, for no keyword is a single letter. -/
theorem lexeme_of_isAlpha {c : Char} {rest : List Char} (hc : c.isAlpha = true) (hr : Stops Char.isAlpha rest) :
    Lexeme [c] rest := by
  have hrun : rest.takeWhile Char.isAlpha = [] := takeWhile_append_of_stops (w := []) (by simp) hr
  refine .letter hc ?_
  rw [hrun]
  intro hk
  exact absurd (keyword_spec hk).1 (by simp)

theorem kindOf?_of_mem_punctuation {c : Char} (h : c ∈ punctuation) :
    kindOf? (String.ofList [c]) = some (lexemeKind [c]) := by
  have hall : (punctuation.all fun c => kindOf? (String.ofList [c]) = some (lexemeKind [c])) = true := by
    decide +kernel
  exact of_decide_eq_true (List.all_eq_true.1 hall c h)

/-! ## What `scan` does with each class of characters -/

section
variable {c : Char} {cs : List Char}

theorem toNat_of_isDigit (h : c.isDigit = true) : 48 ≤ c.toNat ∧ c.toNat ≤ 57 := by
  simp only [Char.isDigit, Bool.and_eq_true, decide_eq_true_eq] at h
  exact ⟨UInt32.le_iff_toNat_le.1 h.1, UInt32.le_iff_toNat_le.1 h.2⟩

theorem toNat_of_isAlpha (h : c.isAlpha = true) :
    (65 ≤ c.toNat ∧ c.toNat ≤ 90) ∨ (97 ≤ c.toNat ∧ c.toNat ≤ 122) := by
  rcases Bool.or_eq_true_iff.1 h with h | h
  · obtain ⟨hlo, hhi⟩ := of_decide_eq_true h
    exact .inl ⟨UInt32.le_iff_toNat_le.1 hlo, UInt32.le_iff_toNat_le.1 hhi⟩
  · obtain ⟨hlo, hhi⟩ := Bool.and_eq_true_iff.1 h
    exact .inr ⟨UInt32.le_iff_toNat_le.1 (of_decide_eq_true hlo), UInt32.le_iff_toNat_le.1 (of_decide_eq_true hhi)⟩

theorem isDigit_of_isAlpha (h : c.isAlpha = true) : c.isDigit = false := by
  rw [← Bool.not_eq_true]
  intro hd
  have := toNat_of_isAlpha h
  have := toNat_of_isDigit hd
  omega

/-- The characters of these codes are neither control characters nor part of a gap or a command. -/
theorem plain_of_toNat (h : 33 ≤ c.toNat) (h' : c.toNat < 127) (hb : c.toNat ≠ 92) :
    isControl c = false ∧ c ≠ ' ' ∧ c ≠ '\\' := by
  refine ⟨?_, ?_, ?_⟩
  · simp only [isControl, Bool.or_eq_false_iff, decide_eq_false_iff_not, beq_eq_false_iff_ne]
    omega
  · rintro rfl
    exact absurd h (by decide)
  · rintro rfl
    exact hb rfl

theorem scan_of_isDigit (h : c.isDigit = true) : scan c cs = .lexeme .number (numberTail cs) := by
  have hn := toNat_of_isDigit h
  obtain ⟨hcontrol, hspace, hslash⟩ := plain_of_toNat (c := c) (by omega) (by omega) (by omega)
  simp only [scan, hcontrol, hspace, hslash, h, if_true, if_false, Bool.false_eq_true]

theorem scan_of_isAlpha (h : c.isAlpha = true) : scan c cs = scanLetters c cs := by
  have hn := toNat_of_isAlpha h
  obtain ⟨hcontrol, hspace, hslash⟩ := plain_of_toNat (c := c) (by omega) (by omega) (by omega)
  have hcolon : c ≠ ':' := by
    rintro rfl
    exact absurd h (by decide)
  simp only [scan, hcontrol, hspace, hslash, isDigit_of_isAlpha h, hcolon, h, false_and, if_true, if_false,
    Bool.false_eq_true]

theorem scan_of_mem_punctuation (h : c ∈ punctuation) : scan c cs = .lexeme (lexemeKind [c]) 0 := by
  have hall : (punctuation.all fun c => (33 ≤ c.toNat ∧ c.toNat < 127 ∧ c.toNat ≠ 92) ∧ c.isDigit = false ∧
      c ≠ ':' ∧ c.isAlpha = false) = true := by decide +kernel
  obtain ⟨⟨hlo, hhi, hne⟩, hd, hcolon, ha⟩ := of_decide_eq_true (List.all_eq_true.1 hall c h)
  have hk := kindOf?_of_mem_punctuation h
  rw [← String.singleton_eq_ofList] at hk
  obtain ⟨hcontrol, hspace, hslash⟩ := plain_of_toNat hlo hhi hne
  simp only [scan, hcontrol, hspace, hslash, hd, hcolon, ha, hk, false_and, if_false, Bool.false_eq_true]

theorem scanCommand_of_isAlpha (h : c.isAlpha = true) : scanCommand (c :: cs) =
    match kindOf? (String.ofList ('\\' :: c :: cs.takeWhile Char.isAlpha)) with
    | some kind => .lexeme kind (cs.takeWhile Char.isAlpha).length.succ
    | none => .fault (.unknownCommand (String.ofList ('\\' :: c :: cs.takeWhile Char.isAlpha))) := by
  unfold scanCommand
  split
  · next heq => cases heq
  · next heq =>
    cases heq
    cases h
  · next heq =>
    cases heq
    cases h
  · next heq =>
    cases heq
    rw [if_pos h]
    rfl

theorem lexemeKind_of_isDigit (h : c.isDigit = true) : lexemeKind (c :: cs) = .number := if_pos h

theorem lexemeKind_of_kindOf? {kind : Kind} (hd : c.isDigit = false)
    (h : kindOf? (String.ofList (c :: cs)) = some kind) : lexemeKind (c :: cs) = kind := by
  unfold lexemeKind
  rw [List.head?_cons, Option.any_some, hd, if_neg Bool.false_ne_true, h]
  rfl

theorem lexemeKind_of_isAlpha (h : c.isAlpha = true) :
    lexemeKind [c] = (kindOf? (String.ofList [c])).getD .identifier := by
  unfold lexemeKind
  rw [List.head?_cons, Option.any_some, isDigit_of_isAlpha h, if_neg Bool.false_ne_true]

end

/-! ## The lexeme at the head of a text -/

/-- The lexeme at the head of a text is the one that is taken. -/
theorem scan_of_lexeme {c : Char} {cs rest : List Char} (h : Lexeme (c :: cs) rest) (hpoint : rest.head? ≠ some '.') :
    scan c (cs ++ rest) = .lexeme (lexemeKind (c :: cs)) cs.length := by
  cases h with
  | rowBreak => rfl
  | command hne hl hk hstop =>
    obtain ⟨d, letters, rfl⟩ := List.exists_cons_of_ne_nil hne
    obtain ⟨kind, hkind⟩ := Option.isSome_iff_exists.1 hk
    obtain ⟨hd, hl⟩ := List.forall_mem_cons.1 hl
    show scanCommand (d :: (letters ++ rest)) = _
    rw [scanCommand_of_isAlpha hd, takeWhile_append_of_stops hl hstop, hkind, lexemeKind_of_kindOf? rfl hkind]
    rfl
  | number hnum hstop =>
    have hc := hnum.isDigit_head
    rw [scan_of_isDigit hc, numberTail_of_numeral hnum hstop hpoint, lexemeKind_of_isDigit hc]
  | assign => rfl
  | punctuation hc => exact scan_of_mem_punctuation hc
  | keyword hk hstop =>
    obtain ⟨-, hl, hkind⟩ := keyword_spec hk
    obtain ⟨hc, hl⟩ := List.forall_mem_cons.1 hl
    rw [scan_of_isAlpha hc, scanLetters]
    simp only [takeWhile_append_of_stops hl hstop, hkind]
  | letter hc hk =>
    rw [List.nil_append, scan_of_isAlpha hc, scanLetters]
    have hrun : ∀ d ∈ c :: rest.takeWhile Char.isAlpha, d.isAlpha = true :=
      List.forall_mem_cons.2 ⟨hc, List.all_eq_true.1 List.all_takeWhile⟩
    cases hkind : kindOf? (String.ofList (c :: rest.takeWhile Char.isAlpha)) with
    | some kind =>
      have hlen := (keyword_of_kindOf? hkind hrun).resolve_left hk
      have hnil : rest.takeWhile Char.isAlpha = [] := by simpa using hlen
      rw [hnil] at hkind ⊢
      rw [lexemeKind_of_kindOf? (isDigit_of_isAlpha hc) hkind]
    | none =>
      rw [lexemeKind_of_isAlpha hc, String.singleton_eq_ofList]
      rfl

theorem lexeme_of_scanCommand {cs : List Char} {kind : Kind} {more : Nat} (h : scanCommand cs = .lexeme kind more) :
    ∃ tail rest, cs = tail ++ rest ∧ tail.length = more ∧ Lexeme ('\\' :: tail) rest ∧
      kind = lexemeKind ('\\' :: tail) := by
  unfold scanCommand at h
  split at h
  · cases h
  · cases h
  · next rest =>
    cases h
    exact ⟨['\\'], rest, rfl, rfl, .rowBreak, rfl⟩
  · next c cs _ _ =>
    split at h
    · next hc =>
      obtain ⟨letters, rest, rfl, hl, hstop⟩ := exists_run_of_class Char.isAlpha cs
      simp only [takeWhile_append_of_stops hl hstop] at h
      split at h
      · next kind' hkind =>
        cases h
        refine ⟨c :: letters, rest, rfl, rfl, ?_, (lexemeKind_of_kindOf? rfl hkind).symm⟩
        exact .command (List.cons_ne_nil _ _) (List.forall_mem_cons.2 ⟨hc, hl⟩) (by rw [hkind]; rfl) hstop
      · cases h
    · cases h

theorem lexeme_of_scanLetters {c : Char} {cs : List Char} {kind : Kind} {more : Nat} (hc : c.isAlpha = true)
    (h : scanLetters c cs = .lexeme kind more) :
    ∃ tail rest, cs = tail ++ rest ∧ tail.length = more ∧ Lexeme (c :: tail) rest ∧ kind = lexemeKind (c :: tail) := by
  have hd := isDigit_of_isAlpha hc
  obtain ⟨letters, rest, rfl, hl, hstop⟩ := exists_run_of_class Char.isAlpha cs
  have hrun := takeWhile_append_of_stops hl hstop
  unfold scanLetters at h
  simp only [hrun] at h
  split at h
  · next kind' hkind =>
    cases h
    rcases keyword_of_kindOf? hkind (List.forall_mem_cons.2 ⟨hc, hl⟩) with hk | hlen
    · exact ⟨letters, rest, rfl, rfl, .keyword hk hstop, (lexemeKind_of_kindOf? hd hkind).symm⟩
    · obtain rfl : letters = [] := by simpa using hlen
      refine ⟨[], rest, rfl, rfl, .letter hc ?_, (lexemeKind_of_kindOf? hd hkind).symm⟩
      rw [List.nil_append] at hrun
      rw [hrun]
      intro hk
      exact absurd (keyword_spec hk).1 (by simp)
  · next hkind =>
    cases h
    refine ⟨[], letters ++ rest, rfl, rfl, .letter hc ?_, ?_⟩
    · rw [hrun]
      intro hk
      have hsome := (keyword_spec hk).2.2
      rw [hkind] at hsome
      cases hsome
    · rw [lexemeKind_of_isAlpha hc, String.singleton_eq_ofList]

/-- What is taken from the head of a text is a lexeme, with the kind that belongs to it. -/
theorem lexeme_of_scan {c : Char} {cs : List Char} {kind : Kind} {more : Nat} (h : scan c cs = .lexeme kind more) :
    ∃ tail rest, cs = tail ++ rest ∧ tail.length = more ∧ Lexeme (c :: tail) rest ∧ kind = lexemeKind (c :: tail) := by
  unfold scan at h
  split at h
  · cases h
  split at h
  · cases h
  split at h
  · next hslash =>
    subst hslash
    exact lexeme_of_scanCommand h
  split at h
  · next hd =>
    cases h
    obtain ⟨tail, rest, hcs, hlen, hnum, hstop⟩ := numeral_of_numberTail hd cs
    exact ⟨tail, rest, hcs, hlen, .number hnum hstop, (lexemeKind_of_isDigit hd).symm⟩
  next hd =>
  split at h
  · next hassign =>
    cases h
    obtain ⟨rfl, heq⟩ := hassign
    obtain ⟨rest, rfl⟩ := List.head?_eq_some_iff.1 heq
    exact ⟨['='], rest, rfl, rfl, .assign, rfl⟩
  split at h
  · next hc => exact lexeme_of_scanLetters hc h
  next hc =>
  split at h
  · next kind' hkind =>
    cases h
    rw [String.singleton_eq_ofList] at hkind
    refine ⟨[], cs, rfl, rfl, .punctuation (mem_punctuation_of_kindOf? hkind (Bool.not_eq_true _ ▸ hc)), ?_⟩
    exact (lexemeKind_of_kindOf? (Bool.not_eq_true _ ▸ hd) hkind).symm
  · cases h

theorem gap_of_scan {c : Char} {cs : List Char} {more : Nat} (h : scan c cs = .gap more) :
    ∃ tail rest, cs = tail ++ rest ∧ tail.length = more ∧ Gap (c :: tail) := by
  unfold scan at h
  split at h
  · cases h
  split at h
  · next hspace =>
    cases h
    subst hspace
    exact ⟨[], cs, rfl, rfl, .space .nil⟩
  split at h
  · next hslash =>
    subst hslash
    unfold scanCommand at h
    split at h
    · cases h
    · next rest =>
      cases h
      exact ⟨[' '], rest, rfl, rfl, .command .nil⟩
    · cases h
    · split at h
      · dsimp only at h
        split at h <;> cases h
      · cases h
  split at h
  · cases h
  split at h
  · cases h
  split at h
  · unfold scanLetters at h
    dsimp only at h
    split at h <;> cases h
  · split at h <;> cases h

end TexFormula

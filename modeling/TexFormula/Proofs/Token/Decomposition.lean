import TexFormula.Proofs.Token.Lexemes

/-!
# Cutting a text into lexemes

* `Cut` : lexemes with the gaps between them, in the order in which they are written;
* `Cut.Valid` : the gaps are gaps, and the lexemes are lexemes before what follows them;
* `Cut.Writes offset cut tokens` : from byte `offset` on, the tokens are the lexemes of the cut with the
  bytes they take, and an end;
* `Cut.unique` : a text can be cut in only one way;
* `tokenize_eq_ok_iff_exists_cut` : the tokens of a text are those of its cut, if there is one.
-/

namespace TexFormula

/-- Lexemes with the gaps before, between and after them. -/
inductive Cut
  | last (gap : List Char)
  | next (gap lexeme : List Char) (rest : Cut)

/-- A token of the given kind and text that takes the bytes from `start` up to `stop`. -/
structure Token.Covers (token : Token) (kind : Kind) (text : String) (start stop : Nat) : Prop where
  kind_eq : token.kind = kind
  text_eq : token.text = text
  start_eq : token.span.start.offset = start
  stop_eq : token.span.stop.offset = stop

namespace Cut

def text : Cut → List Char
  | .last gap => gap
  | .next gap lexeme rest => gap ++ (lexeme ++ rest.text)

/-- Every gap is a gap, and every lexeme is one before the text after it. -/
def Valid : Cut → Prop
  | .last gap => Gap gap
  | .next gap lexeme rest => Gap gap ∧ Lexeme lexeme rest.text ∧ rest.Valid

/-- The tokens are the lexemes in order, each with the bytes it takes, and then an end. -/
def Writes (offset : Nat) : Cut → List Token → Prop
  | .last gap, tokens =>
    let stop := offset + byteLength gap
    ∃ mark, tokens = [mark] ∧ mark.Covers .eof "EOF" stop stop
  | .next gap lexeme rest, tokens =>
    let start := offset + byteLength gap
    let stop := start + byteLength lexeme
    ∃ token others, tokens = token :: others ∧
      token.Covers (lexemeKind lexeme) (String.ofList lexeme) start stop ∧ rest.Writes stop others

/-- The tokens that the lexemes of a cut make, where positions are counted as in a token. -/
def tokens (offset : Nat) : Cut → List Token
  | .last gap => [.endOfInput (.ofOffset (offset + byteLength gap))]
  | .next gap lexeme rest =>
    let start := offset + byteLength gap
    ⟨lexemeKind lexeme, String.ofList lexeme, .ofBytes start (byteLength lexeme)⟩ ::
      rest.tokens (start + byteLength lexeme)

end Cut

/-! ## Positions -/

/-- In a source of less than `2 ^ 32` bytes, the position of a token is where it stands. -/
theorem offset_eq_iff {p : Position} {n : Nat} (hn : n < UInt32.size) : p.offset = n ↔ p = .ofOffset n := by
  constructor
  · rintro rfl
    obtain ⟨val⟩ := p
    show Position.mk val = ⟨UInt32.ofNat val.toNat⟩
    rw [UInt32.ofNat_toNat]
  · rintro rfl
    show (UInt32.ofNat n).toNat = n
    exact UInt32.toNat_ofNat_of_lt hn

theorem Token.covers_iff {token : Token} {kind : Kind} {text : String} {start : Nat} (size : Nat)
    (h : start + size < UInt32.size) :
    token.Covers kind text start (start + size) ↔ token = ⟨kind, text, .ofBytes start size⟩ := by
  constructor
  · intro hc
    obtain ⟨kind', text', ⟨first, last⟩⟩ := token
    obtain ⟨rfl, rfl, hs, ht⟩ := hc
    obtain rfl : first = _ := (offset_eq_iff (by omega)).1 hs
    obtain rfl : last = _ := (offset_eq_iff h).1 ht
    rfl
  · rintro rfl
    exact ⟨rfl, rfl, (offset_eq_iff (by omega)).2 rfl, (offset_eq_iff h).2 rfl⟩

theorem Cut.writes_iff {cut : Cut} {offset : Nat} {tokens : List Token}
    (h : offset + byteLength cut.text < UInt32.size) : cut.Writes offset tokens ↔ tokens = cut.tokens offset := by
  induction cut generalizing offset tokens with
  | last gap =>
    constructor
    · rintro ⟨mark, rfl, hmark⟩
      rw [(Token.covers_iff 0 h).1 hmark]
      rfl
    · rintro rfl
      exact ⟨_, rfl, (Token.covers_iff 0 h).2 rfl⟩
  | next gap lexeme rest ih =>
    rw [Cut.text, byteLength_append, byteLength_append] at h
    have hstop : offset + byteLength gap + byteLength lexeme < UInt32.size := by omega
    have hrest : offset + byteLength gap + byteLength lexeme + byteLength rest.text < UInt32.size := by omega
    constructor
    · rintro ⟨token, others, rfl, htoken, hothers⟩
      rw [(Token.covers_iff _ hstop).1 htoken, (ih hrest).1 hothers]
      rfl
    · rintro rfl
      exact ⟨_, _, rfl, (Token.covers_iff _ hstop).2 rfl, (ih hrest).2 rfl⟩

/-! ## Reading a cut -/

section
variable {offset : Nat} {c : Char}

theorem tokensFrom_append (covered rest : List Char) : tokensFrom offset covered.length (covered ++ rest) =
    tokensFrom (offset + byteLength covered) 0 rest := by
  induction covered generalizing offset with
  | nil => rfl
  | cons c covered ih =>
    show tokensFrom (offset + c.utf8Size) covered.length (covered ++ rest) = _
    rw [ih, byteLength, Nat.add_assoc]

theorem tokensFrom_of_gap (tail rest : List Char) (h : scan c (tail ++ rest) = .gap tail.length) :
    tokensFrom offset 0 (c :: (tail ++ rest)) = tokensFrom (offset + byteLength (c :: tail)) 0 rest := by
  rw [tokensFrom, h]
  show tokensFrom (offset + c.utf8Size) tail.length (tail ++ rest) = _
  rw [tokensFrom_append, byteLength, Nat.add_assoc]

theorem tokensFrom_of_lexeme {kind : Kind} (tail rest : List Char)
    (h : scan c (tail ++ rest) = .lexeme kind tail.length) :
    tokensFrom offset 0 (c :: (tail ++ rest)) = (tokensFrom (offset + byteLength (c :: tail)) 0 rest).map
      (⟨kind, String.ofList (c :: tail), .ofBytes offset (byteLength (c :: tail))⟩ :: ·) := by
  rw [tokensFrom, h]
  simp only [List.take_left, tokensFrom_append, byteLength, Nat.add_assoc]

theorem Gap.tokensFrom_append {gap : List Char} (h : Gap gap) (rest : List Char) :
    tokensFrom offset 0 (gap ++ rest) = tokensFrom (offset + byteLength gap) 0 rest := by
  induction h generalizing offset with
  | nil => rfl
  | @space cs _ ih =>
    calc tokensFrom offset 0 (' ' :: (cs ++ rest))
        = tokensFrom (offset + byteLength [' ']) 0 (cs ++ rest) := tokensFrom_of_gap [] _ rfl
      _ = _ := by rw [ih, Nat.add_assoc, ← byteLength_append, List.singleton_append]
  | @command cs _ ih =>
    calc tokensFrom offset 0 ('\\' :: ' ' :: (cs ++ rest))
        = tokensFrom (offset + byteLength ['\\', ' ']) 0 (cs ++ rest) := tokensFrom_of_gap [' '] _ rfl
      _ = _ := by rw [ih, Nat.add_assoc, ← byteLength_append]; rfl

end

/-! ## Where gaps and lexemes begin -/

/-- No gap stands at the head of the text. -/
def Gapless (text : List Char) : Prop := ∀ c cs more, text = c :: cs → scan c cs ≠ .gap more

theorem gapless_nil : Gapless [] := by
  intro c cs more h
  cases h

theorem Gap.append {gap gap' : List Char} (h : Gap gap) (h' : Gap gap') : Gap (gap ++ gap') := by
  induction h with
  | nil => exact h'
  | space _ ih => exact .space ih
  | command _ ih => exact .command ih

/-- Every text begins with a gap, which may be empty, and can be taken to its end. -/
theorem exists_gap (text : List Char) : ∃ gap rest, text = gap ++ rest ∧ Gap gap ∧ Gapless rest := by
  induction hn : text.length using Nat.strongRecOn generalizing text with
  | ind n ih =>
    by_cases htext : Gapless text
    · exact ⟨[], text, rfl, .nil, htext⟩
    · simp only [Gapless, Classical.not_forall, Decidable.not_not] at htext
      obtain ⟨c, cs, more, rfl, hscan⟩ := htext
      obtain ⟨tail, cs, rfl, -, hgap⟩ := gap_of_scan hscan
      rw [List.length_cons, List.length_append] at hn
      obtain ⟨gap, rest, rfl, hgap', hrest⟩ := ih cs.length (by omega) cs rfl
      exact ⟨c :: tail ++ gap, rest, by simp, hgap.append hgap', hrest⟩

theorem Gap.unique {gap gap' rest rest' : List Char} (h : Gap gap) (h' : Gap gap') (hr : Gapless rest)
    (hr' : Gapless rest') (heq : gap ++ rest = gap' ++ rest') : gap = gap' ∧ rest = rest' := by
  induction h generalizing gap' with
  | nil =>
    cases h' with
    | nil => exact ⟨rfl, heq⟩
    | space _ => exact absurd rfl (hr _ _ 0 heq)
    | command _ => exact absurd rfl (hr _ _ 1 heq)
  | space _ ih =>
    cases h' with
    | nil => exact absurd rfl (hr' _ _ 0 heq.symm)
    | space h' =>
      obtain ⟨rfl, hrest⟩ := ih h' (List.cons.inj heq).2
      exact ⟨rfl, hrest⟩
    | command _ => cases (List.cons.inj heq).1
  | command _ ih =>
    cases h' with
    | nil => exact absurd rfl (hr' _ _ 1 heq.symm)
    | space _ => cases (List.cons.inj heq).1
    | command h' =>
      obtain ⟨rfl, hrest⟩ := ih h' (List.cons.inj (List.cons.inj heq).2).2
      exact ⟨rfl, hrest⟩

theorem Lexeme.ne_nil {text rest : List Char} (h : Lexeme text rest) : text ≠ [] := by
  cases h with
  | number hnum _ => exact hnum.ne_nil
  | keyword hk _ =>
    have hlen := (keyword_spec hk).1
    rintro rfl
    simp at hlen
  | _ => exact List.cons_ne_nil _ _

theorem Lexeme.head_ne_point {c : Char} {cs rest : List Char} (h : Lexeme (c :: cs) rest) : c ≠ '.' := by
  rintro rfl
  generalize htext : '.' :: cs = text at h
  cases h with
  | number hnum _ =>
    subst htext
    exact absurd hnum.isDigit_head (by decide)
  | punctuation hc =>
    obtain ⟨rfl, -⟩ := List.cons.inj htext
    exact absurd hc (by decide)
  | keyword hk _ =>
    subst htext
    exact absurd ((keyword_spec hk).2.1 '.' List.mem_cons_self) (by decide)
  | letter hc _ =>
    obtain ⟨rfl, -⟩ := List.cons.inj htext
    exact absurd hc (by decide)
  | _ => cases (List.cons.inj htext).1

theorem Cut.Valid.head?_ne_point {cut : Cut} (h : cut.Valid) : cut.text.head? ≠ some '.' := by
  have hgap (gap rest : List Char) (hgap : Gap gap) (hrest : rest.head? ≠ some '.') :
      (gap ++ rest).head? ≠ some '.' := by
    cases hgap with
    | nil => exact hrest
    | space _ => simp
    | command _ => simp
  cases cut with
  | last gap =>
    have hlast := hgap gap [] h (by simp)
    rwa [List.append_nil] at hlast
  | next gap lexeme rest =>
    obtain ⟨hg, hl, -⟩ := h
    obtain ⟨c, cs, rfl⟩ := List.exists_cons_of_ne_nil hl.ne_nil
    refine hgap gap _ hg ?_
    rintro ⟨⟩
    exact hl.head_ne_point rfl

section
variable {lexeme lexeme' : List Char} {rest rest' : Cut}

theorem Cut.Valid.scan_eq {c : Char} {cs : List Char} (h : rest.Valid) (hl : Lexeme (c :: cs) rest.text) :
    scan c (cs ++ rest.text) = .lexeme (lexemeKind (c :: cs)) cs.length :=
  scan_of_lexeme hl h.head?_ne_point

theorem Cut.Valid.gapless (h : rest.Valid) (hl : Lexeme lexeme rest.text) : Gapless (lexeme ++ rest.text) := by
  obtain ⟨c, cs, rfl⟩ := List.exists_cons_of_ne_nil hl.ne_nil
  intro d ds more heq
  obtain ⟨rfl, rfl⟩ := List.cons.inj heq
  rw [List.append_eq, h.scan_eq hl]
  simp

/-- Where a lexeme ends is settled by the text. -/
theorem Lexeme.unique (hl : Lexeme lexeme rest.text) (hl' : Lexeme lexeme' rest'.text) (h : rest.Valid)
    (h' : rest'.Valid) (heq : lexeme ++ rest.text = lexeme' ++ rest'.text) :
    lexeme = lexeme' ∧ rest.text = rest'.text := by
  obtain ⟨c, cs, rfl⟩ := List.exists_cons_of_ne_nil hl.ne_nil
  obtain ⟨c', cs', rfl⟩ := List.exists_cons_of_ne_nil hl'.ne_nil
  obtain ⟨rfl, htail⟩ := List.cons.inj heq
  have hscan := h'.scan_eq hl'
  rw [← List.append_eq, ← htail, List.append_eq, h.scan_eq hl, Scan.lexeme.injEq] at hscan
  refine List.append_inj heq ?_
  rw [List.length_cons, List.length_cons, hscan.2]

end

/-! ## Cuts and tokens -/

/-- A text can be cut in only one way. -/
theorem Cut.unique {cut cut' : Cut} (h : cut.Valid) (h' : cut'.Valid) (heq : cut.text = cut'.text) : cut = cut' := by
  induction cut generalizing cut' with
  | last gap =>
    cases cut' with
    | last gap' => rw [show gap = gap' from heq]
    | next gap' lexeme' rest' =>
      obtain ⟨hg', hl', hrest'⟩ := h'
      have hsplit : gap ++ [] = gap' ++ (lexeme' ++ rest'.text) := (List.append_nil gap).trans heq
      obtain ⟨-, hnil⟩ := Gap.unique h hg' gapless_nil (hrest'.gapless hl') hsplit
      exact absurd (List.append_eq_nil_iff.1 hnil.symm).1 hl'.ne_nil
  | next gap lexeme rest ih =>
    obtain ⟨hg, hl, hrest⟩ := h
    cases cut' with
    | last gap' =>
      have hsplit : gap ++ (lexeme ++ rest.text) = gap' ++ [] := heq.trans (List.append_nil gap').symm
      obtain ⟨-, hnil⟩ := hg.unique h' (hrest.gapless hl) gapless_nil hsplit
      exact absurd (List.append_eq_nil_iff.1 hnil).1 hl.ne_nil
    | next gap' lexeme' rest' =>
      obtain ⟨hg', hl', hrest'⟩ := h'
      obtain ⟨rfl, htail⟩ := hg.unique hg' (hrest.gapless hl) (hrest'.gapless hl') heq
      obtain ⟨rfl, htext⟩ := hl.unique hl' hrest hrest' htail
      rw [ih hrest hrest' htext]

/-- A text that is cut has the tokens of the cut. -/
theorem Cut.Valid.tokensFrom_text {cut : Cut} (h : cut.Valid) (offset : Nat) :
    tokensFrom offset 0 cut.text = .ok (cut.tokens offset) := by
  induction cut generalizing offset with
  | last gap =>
    have hgap : tokensFrom offset 0 (gap ++ []) = _ := Gap.tokensFrom_append h []
    rw [List.append_nil] at hgap
    exact hgap
  | next gap lexeme rest ih =>
    obtain ⟨hg, hl, hrest⟩ := h
    obtain ⟨c, cs, rfl⟩ := List.exists_cons_of_ne_nil hl.ne_nil
    rw [Cut.text, hg.tokensFrom_append, List.cons_append, tokensFrom_of_lexeme cs _ (hrest.scan_eq hl), ih hrest]
    rfl

theorem exists_cut_of_tokensFrom {offset : Nat} {text : List Char} {tokens : List Token}
    (h : tokensFrom offset 0 text = .ok tokens) :
    ∃ cut : Cut, cut.Valid ∧ cut.text = text ∧ tokens = cut.tokens offset := by
  induction hn : text.length using Nat.strongRecOn generalizing text offset tokens with
  | ind n ih =>
    obtain ⟨gap, body, rfl, hgap, hbody⟩ := exists_gap text
    rw [hgap.tokensFrom_append] at h
    cases body with
    | nil =>
      cases h
      exact ⟨.last gap, hgap, (List.append_nil gap).symm, rfl⟩
    | cons c cs =>
      cases hscan : scan c cs with
      | fault fault =>
        rw [tokensFrom, hscan] at h
        cases h
      | gap more => exact absurd hscan (hbody c cs more rfl)
      | lexeme kind more =>
        obtain ⟨tail, rest, rfl, rfl, hl, rfl⟩ := lexeme_of_scan hscan
        rw [tokensFrom_of_lexeme tail rest hscan] at h
        rw [List.length_append, List.length_cons, List.length_append] at hn
        cases hothers : tokensFrom (offset + byteLength gap + byteLength (c :: tail)) 0 rest with
        | error e =>
          rw [hothers] at h
          cases h
        | ok others =>
          rw [hothers] at h
          cases h
          obtain ⟨cut, hvalid, rfl, rfl⟩ := ih rest.length (by omega) hothers rfl
          exact ⟨.next gap (c :: tail) cut, ⟨hgap, hl, hvalid⟩, rfl, rfl⟩

theorem byteLength_ofList (cs : List Char) : byteLength cs = (String.ofList cs).utf8ByteSize := by
  induction cs with
  | nil => rfl
  | cons c cs ih =>
    rw [String.ofList_cons, String.utf8ByteSize_append, String.utf8ByteSize_singleton, byteLength, ih]

/--
A source has tokens if and only if it can be cut into gaps and lexemes, and they are its lexemes, with
the bytes they take, and an end. It can be cut in only one way.
-/
theorem tokenize_eq_ok_iff_exists_cut {source : String} (h : source.utf8ByteSize < UInt32.size) (tokens : List Token) :
    (tokenize source = .ok tokens ↔
      ∃ cut : Cut, cut.Valid ∧ cut.text = source.toList ∧ cut.Writes 0 tokens) ∧
    ∀ cut cut' : Cut, cut.Valid → cut'.Valid → cut.text = source.toList → cut'.text = source.toList →
      cut = cut' := by
  have hwrites (cut : Cut) (htext : cut.text = source.toList) : cut.Writes 0 tokens ↔ tokens = cut.tokens 0 := by
    refine Cut.writes_iff ?_
    rw [htext, byteLength_ofList, String.ofList_toList, Nat.zero_add]
    exact h
  refine ⟨⟨fun ht => ?_, ?_⟩, fun cut cut' hv hv' ht ht' => Cut.unique hv hv' (ht.trans ht'.symm)⟩
  · obtain ⟨cut, hvalid, htext, heq⟩ := exists_cut_of_tokensFrom ht
    exact ⟨cut, hvalid, htext, (hwrites cut htext).2 heq⟩
  · rintro ⟨cut, hvalid, htext, hcut⟩
    rw [tokenize, ← htext, hvalid.tokensFrom_text, ← (hwrites cut htext).1 hcut]

/-- A gap in the middle, a keyword at the end of a run of letters, and a gap at the end. -/
theorem tokenize_eq_ok_iff_exists_cut_gap :
    let tokens : List Token := [⟨.number, "2.5", .ofBytes 0 3⟩, ⟨.identifier, "x", .ofBytes 5 1⟩,
      ⟨.trueWord, "True", .ofBytes 6 4⟩, .endOfInput (.ofOffset 11)]
    "2.5\\ xTrue ".utf8ByteSize < UInt32.size ∧ tokenize "2.5\\ xTrue " = .ok tokens ∧
      ∃ cut : Cut, (cut.Valid ∧ cut.text = "2.5\\ xTrue ".toList ∧ cut.Writes 0 tokens) ∧
        ∀ cut' : Cut, cut'.Valid → cut'.text = "2.5\\ xTrue ".toList → cut' = cut := by
  intro tokens
  have hsize : "2.5\\ xTrue ".utf8ByteSize < UInt32.size := by decide
  have h : tokenize "2.5\\ xTrue " = .ok tokens := rfl
  obtain ⟨hiff, hunique⟩ := tokenize_eq_ok_iff_exists_cut hsize tokens
  obtain ⟨cut, hvalid, htext, hwrites⟩ := hiff.1 h
  exact ⟨hsize, h, cut, ⟨hvalid, htext, hwrites⟩, fun cut' hv ht => hunique cut' cut hv hvalid ht htext⟩

end TexFormula

import Mathlib.Data.List.Forall2
import TexFormula.Proofs.Parser.Moves
import TexFormula.Proofs.Parser.Steps

/-!
# Tokens that look alike are read alike

The parser looks at the kinds and at the texts of tokens, and hands tokens on in its errors. Where they
stand makes no difference to it, and it sees no token after the first end of a stream.

* `Cursor.horizon` : the tokens from the current one on that can be seen, which are those up to the first end;
  every look ahead is one at the current token of a cursor further on;
* `ParserState.Alike R s s'` : the two states have passed tokens in `R`, can see tokens in `R`, and agree in
  everything else;
* `views_alike` : such states look alike, so from these every reading ends alike (`mirrors_wholeInput`);
* `parseTokens_of_upToEnd` : streams that are alike up to their first ends give the same tree, or errors alike.

The relation is a parameter, so that it may say more of two tokens than how they look, such as that they
have the same place in two streams.
-/

namespace TexFormula

open ParseM

/-! ## What can be seen -/

/-- The tokens up to the first end, which is the last of them. -/
def upToEnd : List Token → List Token
  | [] => []
  | token :: tokens => if token.kind = .eof then [token] else token :: upToEnd tokens

/-- The tokens from the current one on up to the first end. -/
def Cursor.horizon (cursor : Cursor) : List Token := upToEnd (cursor.ahead ++ [cursor.stop.token])

theorem upToEnd_append_end {before : List Token} (hb : ∀ token ∈ before, token.kind ≠ .eof) {mark : Token}
    (hk : mark.kind = .eof) (rest : List Token) : upToEnd (before ++ mark :: rest) = before ++ [mark] := by
  induction before with
  | nil => simp [upToEnd, hk]
  | cons token before ih =>
    obtain ⟨htoken, hb⟩ := List.forall_mem_cons.1 hb
    rw [List.cons_append, upToEnd, if_neg htoken, ih hb, List.cons_append]

/-- No end is part of a name, so a run of letter-like tokens is one that can be seen. -/
theorem fragmentRun_upToEnd (tokens : List Token) {mark : Token} (hk : mark.kind = .eof) :
    fragmentRun (upToEnd (tokens ++ [mark])) = fragmentRun tokens := by
  have hend {token : Token} (h : token.kind = .eof) (rest : List Token) : fragmentRun (token :: rest) = [] := by
    simp [fragmentRun, Token.fragment?, h]
  induction tokens with
  | nil => rw [List.nil_append, upToEnd, if_pos hk, hend hk, fragmentRun]
  | cons token tokens ih =>
    rw [List.cons_append, upToEnd]
    by_cases h : token.kind = .eof
    · rw [if_pos h, hend h, hend h]
    · rw [if_neg h, fragmentRun, fragmentRun, ih]

namespace Cursor

variable {c : Cursor}

theorem ahead_eq_cons (h : c.current.kind ≠ .eof) : c.ahead = c.current :: c.advance.ahead :=
  (moves_advance (s := ⟨c, 0, 0⟩) h).ahead

theorem stop_advance (h : c.current.kind ≠ .eof) : c.advance.stop = c.stop :=
  (moves_advance (s := ⟨c, 0, 0⟩) h).stop

theorem advance_of_eof (h : c.current.kind = .eof) : c.advance = c := by
  unfold advance
  split
  · rfl
  · next token rest ha =>
    have hk : token.kind = .eof := by simpa [current, peek, ha] using h
    rw [if_pos hk]

theorem horizon_of_eof (h : c.current.kind = .eof) : c.horizon = [c.current] := by
  unfold current peek at h ⊢
  unfold horizon
  cases ha : c.ahead with
  | nil => simp [upToEnd, EndMark.token]
  | cons token rest =>
    rw [ha] at h
    exact if_pos h

theorem horizon_of_ne (h : c.current.kind ≠ .eof) : c.horizon = c.current :: c.advance.horizon := by
  rw [horizon, ahead_eq_cons h, List.cons_append, upToEnd, if_neg h, horizon, stop_advance h]

theorem exists_horizon_eq (c : Cursor) : ∃ rest, c.horizon = c.current :: rest := by
  by_cases h : c.current.kind = .eof
  · exact ⟨[], horizon_of_eof h⟩
  · exact ⟨c.advance.horizon, horizon_of_ne h⟩

theorem fragments_zero (c : Cursor) : c.fragments 0 = fragmentRun c.horizon := (fragmentRun_upToEnd c.ahead rfl).symm

/-! Looking ahead from a token that is no end, what is seen is seen from the next token, one place nearer. -/

theorem peek_succ (h : c.current.kind ≠ .eof) (n : Nat) : c.peek (n + 1) = c.advance.peek n := by
  rw [peek, ahead_eq_cons h, List.getElem?_cons_succ, peek, stop_advance h]

theorem fragments_succ (h : c.current.kind ≠ .eof) (n : Nat) : c.fragments (n + 1) = c.advance.fragments n := by
  rw [fragments, ahead_eq_cons h, List.drop_succ_cons, fragments]

theorem peek_length_fragments (c : Cursor) :
    c.peek (c.fragments 0).length = (c.advanceBy (c.fragments 0).length).current := by
  generalize hn : (c.fragments 0).length = n
  induction n generalizing c with
  | zero => rfl
  | succ n ih =>
    have h : c.current.kind ≠ .eof := by
      intro he
      rw [fragments_zero, horizon_of_eof he, fragmentRun, Token.fragment?, he] at hn
      cases hn
    have hnext : (c.advance.fragments 0).length = n := by
      rw [fragments, List.drop_zero, ahead_eq_cons h, fragmentRun] at hn
      cases hf : c.current.fragment? with
      | none =>
        rw [hf] at hn
        cases hn
      | some fragment =>
        rw [hf] at hn
        exact Nat.succ.inj hn
    rw [peek_succ h, advanceBy, ih _ hnext]

theorem atBracedName_of_ne (h : c.current.kind ≠ .eof) : Read.atBracedName c =
    (c.current.kind == .openCurly && 2 ≤ (c.advance.fragments 0).length && c.advance.current.kind != .number &&
      (c.advance.advanceBy (c.advance.fragments 0).length).current.kind == .closeCurly) := by
  rw [Read.atBracedName, fragments_succ h, peek_succ h, peek_succ h, peek_length_fragments]
  rfl

end Cursor

/-! ## States that are alike -/

theorem Likeness.and {R : Token → Token → Prop} (hR : Likeness R) (S : Token → Token → Prop) :
    Likeness fun token token' => R token token' ∧ S token token' :=
  ⟨fun h => hR.kind_eq h.1, fun h => hR.text_eq h.1⟩

/-- The tokens passed and those that can be seen are in the relation, and the states agree in everything else. -/
structure ParserState.Alike (R : Token → Token → Prop) (s s' : ParserState) : Prop where
  passed : List.Forall₂ R s.cursor.passed s'.cursor.passed
  horizon : List.Forall₂ R s.cursor.horizon s'.cursor.horizon
  depth : s.depth = s'.depth
  openBars : s.openBars = s'.openBars

section
variable {R : Token → Token → Prop} {s s' : ParserState}

theorem fragmentRun_of_forall₂ (hR : Likeness R) {l l' : List Token} (h : List.Forall₂ R l l') :
    fragmentRun l = fragmentRun l' := by
  induction h with
  | nil => rfl
  | cons hhead _ ih =>
    rw [fragmentRun, fragmentRun, ih, Token.fragment?, Token.fragment?, hR.kind_eq hhead, hR.text_eq hhead]

namespace ParserState.Alike

theorem current (h : s.Alike R s') : R s.cursor.current s'.cursor.current := by
  have hhorizon := h.horizon
  obtain ⟨rest, heq⟩ := s.cursor.exists_horizon_eq
  obtain ⟨rest', heq'⟩ := s'.cursor.exists_horizon_eq
  rw [heq, heq'] at hhorizon
  exact (List.forall₂_cons.1 hhorizon).1

theorem previous? (h : s.Alike R s') : Option.Rel R s.cursor.previous? s'.cursor.previous? := by
  have hpassed := h.passed
  unfold Cursor.previous?
  generalize s.cursor.passed = l at hpassed
  generalize s'.cursor.passed = l' at hpassed
  cases hpassed with
  | nil => exact .none
  | cons hhead _ => exact .some hhead

theorem kind_eq (hR : Likeness R) (h : s.Alike R s') : s.cursor.current.kind = s'.cursor.current.kind :=
  hR.kind_eq h.current

theorem fragments_eq (hR : Likeness R) (h : s.Alike R s') : s.cursor.fragments 0 = s'.cursor.fragments 0 := by
  rw [Cursor.fragments_zero, Cursor.fragments_zero, fragmentRun_of_forall₂ hR h.horizon]

theorem numberBefore? (hR : Likeness R) (h : s.Alike R s') :
    Option.Rel R (Read.numberBefore? s.cursor) (Read.numberBefore? s'.cursor) := by
  have hprev := h.previous?
  rw [Read.numberBefore?, Read.numberBefore?, h.kind_eq hR]
  generalize s.cursor.previous? = first at hprev
  generalize s'.cursor.previous? = first' at hprev
  split
  · cases hprev with
    | none => exact .none
    | some hfirst =>
      rw [Option.filter_some, Option.filter_some, hR.kind_eq hfirst]
      split
      · exact .some hfirst
      · exact .none
  · exact .none

theorem advance (hR : Likeness R) (h : s.Alike R s') :
    Alike R { s with cursor := s.cursor.advance } { s' with cursor := s'.cursor.advance } := by
  by_cases hk : s.cursor.current.kind = .eof
  · rw [Cursor.advance_of_eof hk, Cursor.advance_of_eof ((h.kind_eq hR).symm.trans hk)]
    exact h
  · have hk' : s'.cursor.current.kind ≠ .eof := by rwa [← h.kind_eq hR]
    have hhorizon := h.horizon
    rw [Cursor.horizon_of_ne hk, Cursor.horizon_of_ne hk', List.forall₂_cons] at hhorizon
    refine ⟨?_, hhorizon.2, h.depth, h.openBars⟩
    rw [(moves_advance hk).passed, (moves_advance hk').passed]
    exact .cons h.current h.passed

theorem advanceBy (hR : Likeness R) (h : s.Alike R s') (n : Nat) :
    Alike R { s with cursor := s.cursor.advanceBy n } { s' with cursor := s'.cursor.advanceBy n } := by
  induction n generalizing s s' with
  | zero => exact h
  | succ n ih => exact ih (h.advance hR)

theorem peek_one (hR : Likeness R) (h : s.Alike R s') (hk : s.cursor.current.kind ≠ .eof) :
    R (s.cursor.peek 1) (s'.cursor.peek 1) := by
  have hk' : s'.cursor.current.kind ≠ .eof := by rwa [← h.kind_eq hR]
  rw [Cursor.peek_succ hk, Cursor.peek_succ hk']
  exact (h.advance hR).current

theorem atBracedName_eq (hR : Likeness R) (h : s.Alike R s') :
    Read.atBracedName s.cursor = Read.atBracedName s'.cursor := by
  have hkind := h.kind_eq hR
  by_cases hk : s.cursor.current.kind = .openCurly
  · have hnext := h.advance hR
    have hafter := hnext.advanceBy hR (s.cursor.advance.fragments 0).length
    have hrun : s.cursor.advance.fragments 0 = s'.cursor.advance.fragments 0 := hnext.fragments_eq hR
    rw [Cursor.atBracedName_of_ne (by rw [hk]; decide), Cursor.atBracedName_of_ne (by rw [← hkind, hk]; decide),
      hkind, hnext.kind_eq hR, hafter.kind_eq hR, hrun]
  · rw [Read.atBracedName, Read.atBracedName, ← hkind, beq_eq_false_iff_ne.2 hk]
    rfl

end ParserState.Alike

end

/-- States that are alike look alike to the parser, and steps keep them so. -/
theorem views_alike {R : Token → Token → Prop} (hR : Likeness R) : Views R (ParserState.Alike R) where
  toLikeness := hR
  current h := h.current
  numberBefore? h := h.numberBefore? hR
  fragments h := h.fragments_eq hR
  peek_one h := h.peek_one hR
  atBracedName h := h.atBracedName_eq hR
  depth h := h.depth
  openBars h := h.openBars
  advance h := h.advance hR
  withDepth _ h := ⟨h.passed, h.horizon, rfl, h.openBars⟩
  withBars _ h := ⟨h.passed, h.horizon, h.depth, rfl⟩

/-! ## Whole streams -/

section
variable {R : Token → Token → Prop} {tokens tokens' : List Token}

/-- In as many steps, the rules of the grammar read alike from states that are alike. -/
def alike (hR : Likeness R) (limit : Nat) :
    Correspondence (views_alike hR).mirrors ParseM ParseM (.standard limit) (.standard limit) :=
  (views_alike hR).mirrors.same (Rules.sameGrammar_standard limit limit) ((views_alike hR).mirrors_nested limit)
    (views_alike hR).mirrors_withBars fun _ _ hs => .exhausted hs

theorem mirrors_run (hR : Likeness R) (limit : Nat) {p : Production} (hp : p.rank ≠ 1) :
    Mirrors R (ParserState.Alike R) Eq (p.run (.standard limit)) (p.run (.standard limit)) := by
  intro s s' hs
  have hread (steps : Nat) : EndsAlike R (ParserState.Alike R) Eq (p.read (.standard limit) steps s)
      (p.read (.standard limit) steps s') :=
    (alike hR limit).production rfl p s s' hs
  have henough := hread (max (Production.enough (.standard limit) s) (Production.enough (.standard limit) s'))
  rwa [read_eq_run (fun h => absurd h hp) (Nat.le_max_left _ _),
    read_eq_run (fun h => absurd h hp) (Nat.le_max_right _ _)] at henough

theorem mirrors_wholeInput (hR : Likeness R) (limit : Nat) :
    Mirrors R (ParserState.Alike R) Eq (wholeInput (.standard limit)) (wholeInput (.standard limit)) :=
  (alike hR limit).wholeInput (mirrors_run hR limit (by decide))

theorem Cursor.passed_ofTokens (tokens : List Token) : (Cursor.ofTokens tokens).passed = [] := by
  unfold Cursor.ofTokens
  split
  · rfl
  · split
    · rfl
    · rfl

theorem Cursor.horizon_ofTokens (tokens : List Token) :
    (Cursor.ofTokens tokens).horizon = upToEnd (Cursor.ofTokens tokens).tokens := by
  rw [Cursor.horizon, Cursor.tokens, Cursor.passed_ofTokens]
  rfl

theorem alike_ofTokens
    (h : List.Forall₂ R (upToEnd (Cursor.ofTokens tokens).tokens) (upToEnd (Cursor.ofTokens tokens').tokens)) :
    ParserState.Alike R (.ofTokens tokens) (.ofTokens tokens') := by
  rw [← Cursor.horizon_ofTokens, ← Cursor.horizon_ofTokens] at h
  refine ⟨?_, h, rfl, rfl⟩
  show List.Forall₂ R (Cursor.ofTokens tokens).passed (Cursor.ofTokens tokens').passed
  rw [Cursor.passed_ofTokens, Cursor.passed_ofTokens]
  exact .nil

/--
Streams that are alike up to their first ends give the same tree, or errors with the same cause at tokens alike.
-/
theorem parseTokens_of_upToEnd (hR : Likeness R)
    (h : List.Forall₂ R (upToEnd (Cursor.ofTokens tokens).tokens) (upToEnd (Cursor.ofTokens tokens').tokens))
    (limit : Nat) :
    (∃ e, parseTokens limit tokens = .ok e ∧ parseTokens limit tokens' = .ok e) ∨
    ∃ fault token token', R token token' ∧ parseTokens limit tokens = .error ⟨fault, token⟩ ∧
      parseTokens limit tokens' = .error ⟨fault, token'⟩ := by
  have hends : EndsAlike R (ParserState.Alike R) Eq (wholeInput (.standard limit) _) (wholeInput (.standard limit) _) :=
    mirrors_wholeInput hR limit _ _ (alike_ofTokens h)
  have hsettles := settles_wholeInput limit (.ofTokens tokens)
  generalize hr : wholeInput (.standard limit) (.ofTokens tokens) = r at hends hsettles
  generalize hr' : wholeInput (.standard limit) (.ofTokens tokens') = r' at hends
  cases hends with
  | ok heq _ =>
    subst heq
    exact .inl ⟨_, settled_eq_ok_iff.2 ⟨_, hr⟩, settled_eq_ok_iff.2 ⟨_, hr'⟩⟩
  | rejected htoken _ =>
    exact .inr ⟨_, _, _, htoken, settled_eq_error_iff.2 ⟨_, hr⟩, settled_eq_error_iff.2 ⟨_, hr'⟩⟩
  | exhausted _ => exact hsettles.elim

theorem forall₂_upToEnd (hR : Likeness R) (h : List.Forall₂ R tokens tokens') :
    List.Forall₂ R (upToEnd tokens) (upToEnd tokens') := by
  induction h with
  | nil => exact .nil
  | cons hhead _ ih =>
    rw [upToEnd, upToEnd, hR.kind_eq hhead]
    split
    · exact .cons hhead .nil
    · exact .cons hhead ih

/-- Streams that are alike give the same tree, or errors with the same cause at tokens alike. -/
theorem parseTokens_of_alike (hR : Likeness R)
    (h : List.Forall₂ R (Cursor.ofTokens tokens).tokens (Cursor.ofTokens tokens').tokens) (limit : Nat) :
    (∃ e, parseTokens limit tokens = .ok e ∧ parseTokens limit tokens' = .ok e) ∨
    ∃ fault token token', R token token' ∧ parseTokens limit tokens = .error ⟨fault, token⟩ ∧
      parseTokens limit tokens' = .error ⟨fault, token'⟩ :=
  parseTokens_of_upToEnd hR (forall₂_upToEnd hR h) limit

end

end TexFormula

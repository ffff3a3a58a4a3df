import TexFormula.Proofs.Grammar.Nesting
import TexFormula.Proofs.Parser.Soundness

/-!
# Accepted streams are balanced

Delimiters that open and close in pairs are there in equal numbers, and bars, which are their own
partners, in an even number.

* `countKind kind w` : how many tokens of a word are of the given kind;
* `partners` : the kinds that open something, each with the kind that closes it;
* `Nested.count_eq`, `Nested.two_dvd_count_bar` : what nesting says about numbers;
* `nested_delimiters_of_parseTokens` : the delimiters of an accepted stream are nested and balanced.
-/

namespace TexFormula

def countKind (kind : Kind) (w : List Token) : Nat := (w.map Token.kind).count kind

/-- The kinds that open something, each with another kind that closes it. -/
def partners : List (Kind × Kind) :=
  [(.openParen, .closeParen), (.openCurly, .closeCurly), (.left, .right), (.beginEnv, .endEnv)]

/-- Erasing all other tokens does not change how many delimiters there are. -/
theorem count_delimiters {kind : Kind} (h : kind.isDelimiter = true) (w : List Token) :
    (delimiters w).count kind = countKind kind w := by
  unfold delimiters countKind
  exact List.count_filter h

theorem isDelimiter_of_mem_partners {pair : Kind × Kind} (h : pair ∈ partners) :
    pair.1.isDelimiter = true ∧ pair.2.isDelimiter = true := by
  revert pair
  decide

theorem count_of_closing? {opening closing : Kind} (h : opening.closing? = some closing) {pair : Kind × Kind}
    (hp : pair ∈ partners) : [opening, closing].count pair.1 = [opening, closing].count pair.2 := by
  revert pair
  cases opening <;> cases h <;> decide

theorem count_of_mem_partners {pair : Kind × Kind} (h : pair ∈ partners) :
    [Kind.left, .right].count pair.1 = [Kind.left, .right].count pair.2 ∧
      [Kind.beginEnv, .openCurly, .closeCurly, .endEnv, .openCurly, .closeCurly].count pair.1 =
        [Kind.beginEnv, .openCurly, .closeCurly, .endEnv, .openCurly, .closeCurly].count pair.2 := by
  revert pair
  decide

theorem Nested.count_eq {n : Nat} {ks : List Kind} (h : Nested n ks) {pair : Kind × Kind} (hp : pair ∈ partners) :
    ks.count pair.1 = ks.count pair.2 := by
  induction h with
  | nil => rfl
  | append _ _ ihv ihw => rw [List.count_append, List.count_append, ihv, ihw]
  | bare ho _ ih =>
    have hpair := count_of_closing? ho hp
    simp only [List.count_cons, List.count_append, List.count_nil] at hpair ⊢
    omega
  | wrapped ho _ ih =>
    have hpair := count_of_closing? ho hp
    have hmarks := (count_of_mem_partners hp).1
    simp only [List.count_cons, List.count_append, List.count_nil] at hpair hmarks ⊢
    omega
  | matrix _ ih =>
    have hmarks := (count_of_mem_partners hp).2
    simp only [List.count_cons, List.count_append, List.count_nil] at hmarks ⊢
    omega

theorem Nested.two_dvd_count_bar {n : Nat} {ks : List Kind} (h : Nested n ks) : 2 ∣ ks.count .bar := by
  have hpair {opening closing : Kind} (ho : opening.closing? = some closing) :
      2 ∣ [opening, closing].count .bar := by
    cases opening <;> cases ho <;> decide
  induction h with
  | nil => exact Nat.dvd_zero 2
  | append _ _ ihv ihw =>
    rw [List.count_append]
    exact Nat.dvd_add ihv ihw
  | bare ho _ ih | wrapped ho _ ih =>
    have hbars := hpair ho
    simp [List.count_cons] at hbars ⊢
    omega
  | matrix _ ih => simpa using ih

/--
The delimiters of an accepted stream, all other tokens erased, are nested, at most as deep as the limit
says. So as many are closed as are opened, and the number of bars is even.
-/
theorem nested_delimiters_of_parseTokens {limit : Nat} {tokens : List Token} {e : Expr}
    (h : parseTokens limit tokens = .ok e) :
    Nested limit (delimiters (beforeEnd tokens)) ∧
      (∀ pair ∈ partners, countKind pair.1 (beforeEnd tokens) = countKind pair.2 (beforeEnd tokens)) ∧
      2 ∣ countKind .bar (beforeEnd tokens) := by
  obtain ⟨u, hu⟩ := settled_eq_ok_iff.1 h
  have hn : Nested limit (delimiters (beforeEnd tokens)) := (derives_of_wholeInput hu).nested
  refine ⟨hn, fun pair hp => ?_, ?_⟩
  · have hd := isDelimiter_of_mem_partners hp
    rw [← count_delimiters hd.1, ← count_delimiters hd.2]
    exact hn.count_eq hp
  · rw [← count_delimiters (by rfl)]
    exact hn.two_dvd_count_bar

/-- The tokens of `|\left(x\right)_{a}|`, which nest two deep and are read in three levels. -/
theorem nested_delimiters_of_parseTokens_bars :
    let tokens : List Token := [⟨.bar, "|", .ofBytes 0 1⟩, ⟨.left, "\\left", .ofBytes 1 5⟩,
      ⟨.openParen, "(", .ofBytes 6 1⟩, ⟨.identifier, "x", .ofBytes 7 1⟩, ⟨.right, "\\right", .ofBytes 8 6⟩,
      ⟨.closeParen, ")", .ofBytes 14 1⟩, ⟨.underscore, "_", .ofBytes 15 1⟩,
      ⟨.openCurly, "\x7b", .ofBytes 16 1⟩, ⟨.identifier, "a", .ofBytes 17 1⟩,
      ⟨.closeCurly, "\x7d", .ofBytes 18 1⟩, ⟨.bar, "|", .ofBytes 19 1⟩]
    let word : List Kind := [.bar, .left, .openParen, .right, .closeParen, .openCurly, .closeCurly, .bar]
    parseTokens 3 tokens = .ok (.call "abs" [.accessor (.symbol "x") [.symbol "a"]]) ∧
      delimiters (beforeEnd tokens) = word ∧ Nested 3 word ∧ 2 ∣ countKind .bar (beforeEnd tokens) := by
  intro tokens word
  have h : parseTokens 3 tokens = .ok (.call "abs" [.accessor (.symbol "x") [.symbol "a"]]) :=
    eq_ok_of_toOption (by decide +kernel)
  obtain ⟨hn, -, hbars⟩ := nested_delimiters_of_parseTokens h
  exact ⟨h, rfl, hn, hbars⟩

end TexFormula

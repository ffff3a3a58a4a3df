import TexFormula.Proofs.Grammar.Rendering
import TexFormula.Proofs.Parser.Completeness

/-!
# What stands in delimiters is read as on its own

* `Grouped w e g e'` : the word `g` is `w` in delimiters, and means `e'` if `w` means `e`;
* `Derives.eq_of_same_place` : a primary is settled by the place where it begins;
* `Derives.exists_leading_primary` : what does not begin with a minus sign begins with a primary;
* `parseTokens_of_grouped` : delimiters around a whole stream cost one level and change nothing else.

That one level is enough is a matter of the grammar alone. That it is needed is not: a word in parentheses may be
accepted for other reasons than what is between them, as in `(x)(y)`. Where the tokens between them are accepted on
their own, though, the delimiters are one primary, and no other primary begins at the same place.
-/

namespace TexFormula

/-- The word `w`, which means `e`, in delimiters, and what it means there. Bars need a `\left` and a `\right`. -/
inductive Grouped (w : List Token) (e : Expr) : List Token → Expr → Prop
  | bare {opening closing : Token} : opening.kind.closing? = some closing.kind → opening.kind ≠ .bar →
    Grouped w e (opening :: (w ++ [closing])) e
  | wrapped {left opening right closing : Token} : left.kind = .left → right.kind = .right →
    opening.kind.closing? = some closing.kind → opening.kind ≠ .bar →
    Grouped w e (left :: opening :: (w ++ [right, closing])) e
  | bars {left opening right closing : Token} : left.kind = .left → right.kind = .right →
    opening.kind = .bar → closing.kind = .bar →
    Grouped w e (left :: opening :: (w ++ [right, closing])) (.call "abs" [e])

/-! ## Where a primary ends -/

theorem Yields.unique {α : Type} {m : Nat → Nat → ParseM α} {s t t' : ParserState} {a a' : α} (h : Yields m s a t)
    (h' : Yields m s a' t') : a = a' ∧ t = t' := by
  obtain ⟨bound, h⟩ := h
  obtain ⟨bound', h'⟩ := h'
  have heq := h (max bound bound') (max bound bound') (Nat.le_max_left _ _) (Nat.le_max_left _ _)
  rw [h' _ _ (Nat.le_max_right _ _) (Nat.le_max_right _ _)] at heq
  cases heq
  exact ⟨rfl, rfl⟩

section
variable {n m : Nat} {b b' : Bool} {e e' : Expr} {v w x y : List Token}

/-- A primary is settled by the place where it begins: whatever follows, it has one end and one meaning. -/
theorem Derives.eq_of_same_place (h : Derives n b (.part .primary e) v) (h' : Derives m b' (.part .primary e') w)
    (heq : v ++ x = w ++ y) : v = w ∧ e = e' := by
  let s : ParserState := ⟨⟨[], v ++ x, .atPosition (.ofOffset 0)⟩, 0, 0⟩
  let u : ParserState := ⟨⟨(v ++ x).reverse, [], .atPosition (.ofOffset 0)⟩, 0, 0⟩
  have hpass : Moves s (v ++ x) u := ⟨(List.append_nil _).symm, (List.append_nil _).symm, rfl, rfl, rfl⟩
  have hpass' : Moves s (w ++ y) u := heq ▸ hpass
  have hs : Within (max n m) (max n m) false s := ⟨Nat.zero_add _, rfl⟩
  obtain ⟨t, hst, -⟩ := hpass.split
  obtain ⟨t', hst', -⟩ := hpass'.split
  -- One and the same run reads both of them.
  have hread := h.outsideBars.complete.yields_read (Nat.le_max_left n m) hs hst rfl
  have hread' := h'.outsideBars.complete.yields_read (Nat.le_max_right n m) hs hst' rfl
  obtain ⟨hmeaning, hend⟩ := hread.unique hread'
  refine ⟨List.append_inj_left heq ?_, hmeaning⟩
  have hlength := congrArg List.length (hst.passed.symm.trans ((congrArg (·.cursor.passed) hend).trans hst'.passed))
  simpa using hlength

/-- Whatever a comparison is made of, it begins with a primary, if it does not begin with a minus sign. -/
theorem Derives.exists_leading_primary {p : Production} (h : Derives n b (.part p e) w) (hp : p.rank ≠ 1)
    (hw : headKind? w ≠ some .dash) : ∃ e₀ v rest, w = v ++ rest ∧ Derives n b (.part .primary e₀) v := by
  have hleft {u u' : List Token} (hu : headKind? (u ++ u') ≠ some .dash) : headKind? u ≠ some .dash :=
    fun he => hu (headKind?_append he u')
  generalize hr : Reading.part p e = r at h
  induction h generalizing p e with
  | comparison _ ih | expression _ ih | term _ ih | factor _ ih | power _ ih | subscript _ ih =>
    exact ih (by decide) hw rfl
  | relation _ _ _ _ ih _ | sum _ _ _ _ ih _ | times _ _ _ _ ih _ | neighbours _ _ _ _ ih _
  | raised _ _ _ _ _ ih _ | transposed _ _ _ ih _ | indexed _ _ _ ih _ =>
    obtain ⟨e₀, v, rest, rfl, hv⟩ := ih (by decide) (hleft hw) rfl
    exact ⟨e₀, v, _, List.append_assoc _ _ _, hv⟩
  | assignment h _ _ _ _ _ => exact ⟨_, _, _, rfl, h⟩
  | minus hk _ _ => exact absurd (by rw [headKind?_cons, hk]) hw
  | primary hq h _ => exact ⟨_, _, [], (List.append_nil _).symm, .primary hq h⟩
  | _ => cases hr <;> exact absurd rfl hp

theorem beforeEnd_eq_self (hw : ∀ token ∈ w, token.kind ≠ .eof) : beforeEnd w = w := by
  simpa [beforeEnd] using beforeEnd_append hw []

theorem Derives.meaning_unique (h : Derives n false (.part .comparison e) w)
    (h' : Derives m false (.part .comparison e') w) : e = e' := by
  have hw := beforeEnd_eq_self h.kind_ne_eof
  rw [← hw] at h h'
  have heq := parseTokens_of_beforeEnd h (Nat.le_max_left n m)
  rw [parseTokens_of_beforeEnd h' (Nat.le_max_right n m)] at heq
  exact (Except.ok.inj heq).symm

end

/-! ## Delimiters -/

section
variable {n m : Nat} {b : Bool} {e e' : Expr} {w g : List Token}

theorem Grouped.primary (hg : Grouped w e g e') (h : Derives n false (.part .comparison e) w) :
    Derives (n + 1) b (.part .primary e') g := by
  refine .primary (p := .grouping) (by decide) (.grouping ?_)
  have hvalue (allowed : Bool) : Derives n false (.list allowed [e]) w := .value h
  cases hg with
  | @bare opening closing hc hbar =>
    rw [← show enclosed opening.kind [e] = [e] from if_neg hbar]
    refine .bare hc ?_
    rw [beq_eq_false_iff_ne.2 hbar]
    exact hvalue _
  | @wrapped left opening right closing hl hr hc hbar =>
    rw [← show enclosed opening.kind [e] = [e] from if_neg hbar]
    exact .wrapped hl hc hr (hvalue _)
  | @bars left opening right closing hl hr ho hc =>
    rw [← show enclosed opening.kind [e] = [.call "abs" [e]] from if_pos ho]
    refine .wrapped hl ?_ hr (hvalue _)
    rw [ho, hc]
    rfl

theorem Derives.comparison_of_primary (h : Derives n b (.part .primary e) w) : Derives n b (.part .comparison e) w :=
  .comparison (.expression (.term (.factor (.power (.subscript h)))))

/-- Delimiters that are read as one group hold a comparison. -/
theorem Grouped.inside (hg : Grouped w e g e') {es : List Expr} (h : Derives n b (.group false es) g) :
    ∃ e₁, Derives n false (.part .comparison e₁) w := by
  have hlist {b : Bool} {allowed : Bool} {es : List Expr} (h : Derives n b (.list (allowed && false) es) w) :
      ∃ e₁, Derives n false (.part .comparison e₁) w := by
    rw [Bool.and_false] at h
    cases h with
    | value h => exact ⟨_, h.outsideBars⟩
  cases hg with
  | @bare opening closing hc _ =>
    generalize hword : opening :: (w ++ [closing]) = g at h
    cases h with
    | bare _ h =>
      obtain ⟨rfl, htail⟩ := List.cons.inj hword
      obtain ⟨rfl, -⟩ := List.append_inj' htail rfl
      exact hlist h
    | wrapped hl _ _ _ =>
      obtain ⟨rfl, -⟩ := List.cons.inj hword
      rw [hl] at hc
      cases hc
  | @wrapped left opening right closing hl _ _ _ | @bars left opening right closing hl _ _ _ =>
    generalize hword : left :: opening :: (w ++ [right, closing]) = g at h
    cases h with
    | bare hc _ =>
      obtain ⟨rfl, -⟩ := List.cons.inj hword
      rw [hl] at hc
      cases hc
    | wrapped _ _ _ h =>
      obtain ⟨-, htail⟩ := List.cons.inj (List.cons.inj hword).2
      obtain ⟨rfl, -⟩ := List.append_inj' htail rfl
      exact hlist h

theorem Grouped.bind_headKind? (hg : Grouped w e g e') : (headKind? g).bind Kind.production? = some .grouping := by
  cases hg with
  | bare hc _ =>
    rw [headKind?_cons, Option.bind_some]
    exact production?_eq_some_iff.2 (.inr (by rw [hc]; rfl))
  | wrapped hl _ _ _ | bars hl _ _ _ =>
    rw [headKind?_cons, Option.bind_some]
    exact production?_eq_some_iff.2 (.inl hl)

theorem Grouped.derives_inside (hg : Grouped w e g e') (h : Derives n false (.part .comparison e) w) {e₁ : Expr}
    (h₁ : Derives (m + 1) false (.part .comparison e₁) g) : Derives m false (.part .comparison e) w := by
  have hdash : headKind? g ≠ some .dash := by
    intro hk
    have hstart := hg.bind_headKind?
    rw [hk] at hstart
    cases hstart
  obtain ⟨e₀, v, rest, hsplit, hv⟩ := h₁.exists_leading_primary (by decide) hdash
  have hplace : v ++ rest = g ++ [] := by rw [← hsplit, List.append_nil]
  obtain ⟨rfl, -⟩ := hv.eq_of_same_place (hg.primary (b := false) h) hplace
  cases hv with
  | primary hp hv =>
    have hstart := hv.bind_headKind? hp
    rw [hg.bind_headKind?] at hstart
    cases hstart
    cases hv with
    | grouping hv =>
      obtain ⟨e₂, hinside⟩ := hg.inside hv
      rw [h.meaning_unique hinside]
      exact hinside

end

/-! ## Whole streams -/

/--
Delimiters around all tokens of a stream change nothing but the levels it needs. If the tokens `w` are accepted within
some limit, then in parentheses or braces, with `\left` and `\right` or without, they are accepted within the next
limit and have the same tree; in bars with `\left` and `\right`, the tree is the absolute value of theirs. A limit
that is less than one more than they need themselves is not enough. Whether an end follows makes no difference.
-/
theorem parseTokens_of_grouped {limit : Nat} {w g ending : List Token} {e e' : Expr}
    (hw : ∀ token ∈ w, token.kind ≠ .eof) (h : parseTokens limit w = .ok e) (hg : Grouped w e g e')
    (hend : beforeEnd ending = []) :
    parseTokens (limit + 1) (g ++ ending) = .ok e' ∧
      ∀ m, parseTokens (m + 1) (g ++ ending) = .ok e' ↔ parseTokens m w = .ok e := by
  have hderives {m : Nat} (h : parseTokens m w = .ok e) : Derives m false (.part .comparison e) w := by
    obtain ⟨u, hu⟩ := settled_eq_ok_iff.1 h
    rw [← beforeEnd_eq_self hw]
    exact derives_of_wholeInput hu
  have hprimary := hg.primary (b := false) (hderives h)
  have hword : beforeEnd (g ++ ending) = g := by
    rw [beforeEnd_append hprimary.kind_ne_eof, hend, List.append_nil]
  have hdeeper {m : Nat} (h : parseTokens m w = .ok e) : parseTokens (m + 1) (g ++ ending) = .ok e' := by
    refine parseTokens_of_beforeEnd ?_ (Nat.le_refl _)
    rw [hword]
    exact (hg.primary (hderives h)).comparison_of_primary
  refine ⟨hdeeper h, fun m => ⟨fun hm => ?_, hdeeper⟩⟩
  obtain ⟨u, hu⟩ := settled_eq_ok_iff.1 hm
  have hgroup := derives_of_wholeInput hu
  rw [hword] at hgroup
  refine parseTokens_of_beforeEnd ?_ (Nat.le_refl m)
  rw [beforeEnd_eq_self hw]
  exact hg.derives_inside (hderives h) hgroup

/-- The tokens of `y := |x_{de}|`, which need three levels, in bars with `\left` and `\right`. -/
theorem parseTokens_of_grouped_bars :
    let w : List Token := [⟨.identifier, "y", .ofBytes 6 1⟩, ⟨.assign, ":=", .ofBytes 8 2⟩, ⟨.bar, "|", .ofBytes 11 1⟩,
      ⟨.identifier, "x", .ofBytes 12 1⟩, ⟨.underscore, "_", .ofBytes 13 1⟩, ⟨.openCurly, "\x7b", .ofBytes 14 1⟩,
      ⟨.identifier, "d", .ofBytes 15 1⟩, ⟨.symbol, "e", .ofBytes 16 1⟩, ⟨.closeCurly, "\x7d", .ofBytes 17 1⟩,
      ⟨.bar, "|", .ofBytes 18 1⟩]
    let g : List Token := [⟨.left, "\\left", .ofBytes 0 5⟩, ⟨.bar, "|", .ofBytes 5 1⟩] ++ w ++
      [⟨.right, "\\right", .ofBytes 19 6⟩, ⟨.bar, "|", .ofBytes 25 1⟩]
    let e := Expr.assignment "y" (.call "abs" [.accessor (.symbol "x") [.symbol "de"]])
    parseTokens 3 w = .ok e ∧ Grouped w e g (.call "abs" [e]) ∧
      parseTokens 4 (g ++ [.endOfInput (.ofOffset 26)]) = .ok (.call "abs" [e]) ∧
      parseTokens 3 (g ++ [.endOfInput (.ofOffset 26)]) ≠ .ok (.call "abs" [e]) := by
  intro w g e
  have h : parseTokens 3 w = .ok e := eq_ok_of_toOption (by decide +kernel)
  have htwo : parseTokens 2 w ≠ .ok e := by
    have herror : (errorOf? (parseTokens 2 w)).isSome = true := by decide +kernel
    intro hok
    rw [hok] at herror
    cases herror
  have hg : Grouped w e g (.call "abs" [e]) := .bars rfl rfl rfl rfl
  obtain ⟨hfour, hlevels⟩ := parseTokens_of_grouped (by decide) h hg
    (show beforeEnd [.endOfInput (.ofOffset 26)] = [] from rfl)
  exact ⟨h, hg, hfour, fun hthree => htwo ((hlevels 2).1 hthree)⟩

end TexFormula

import TexFormula.Formula
import TexFormula.Proofs.Expr.Nodes
import TexFormula.Proofs.Parser.Soundness
import TexFormula.Proofs.Token.Lexed

/-!
# The trees of formulas are well formed

* `Expr.Shaped` : what holds of a single node: numbers are numerals, names are names, operators are
  known, and nothing is empty that must not be;
* `Derives.wellFormed` : a word of tokens that come from a text means a tree of such nodes;
* `shaped_of_parseFormulaWithin` : so does every formula that is accepted.
-/

namespace TexFormula

/-! ## Shapes -/

/-- Only a row of two or more entries is kept as a list. -/
def Row.Shaped : Row → Prop
  | .element _ => True
  | .elements entries => 2 ≤ entries.length

def Expr.Shaped : Expr → Prop
  | .number text => Numeral text.toList
  | .symbol name => isName name = true
  | .unary operator _ => operator = "unary_minus"
  | .binary operator _ right implicit => operator ∈ ["add", "subtract", "multiply", "divide", "pow"] ∧
      (implicit = true → operator = "multiply") ∧ (operator = "pow" → right ≠ .symbol "T")
  | .comparison operator _ _ =>
      operator ∈ ["equal", "unequal", "smaller", "smaller_eq", "larger", "larger_eq"]
  | .call name arguments => isName name = true ∧ arguments ≠ []
  | .matrix rows => rows ≠ [] ∧ ∀ row ∈ rows, row.Shaped
  | .accessor _ index => index ≠ []
  | .assignment target _ => isName target = true
  | .transpose _ | .boolean _ | .undefined => True

def Expr.WellFormed (e : Expr) : Prop := ∀ node, e.Node node → node.Shaped

theorem Expr.WellFormed.shaped {e : Expr} (h : e.WellFormed) : e.Shaped := h e .root

theorem Expr.wellFormed_of_children {e : Expr} (h : e.Shaped) (hc : ∀ child ∈ e.children, child.WellFormed) :
    e.WellFormed := by
  intro node hn
  cases hn with
  | root => exact h
  | inside hmem hn => exact hc _ hmem node hn

/-- The trees of a part of the grammar are well formed, and its lists have members. -/
def Reading.WellFormed : Reading → Prop
  | .part _ e => e.WellFormed
  | .list _ es | .group _ es | .argument es | .index es | .row es => es ≠ [] ∧ ∀ e ∈ es, e.WellFormed
  | .rows rs => rs ≠ [] ∧ ∀ row ∈ rs, row.Shaped ∧ ∀ e ∈ row.entries, e.WellFormed

/-! ## Each sort of node -/

section
variable {l r e : Expr} {es : List Expr} {name : String}

theorem forall_mem_pair (hl : l.WellFormed) (hr : r.WellFormed) : ∀ child ∈ [l, r], child.WellFormed :=
  List.forall_mem_cons.2 ⟨hl, List.forall_mem_singleton.2 hr⟩

theorem wellFormed_number {text : String} (h : Numeral text.toList) : (Expr.number text).WellFormed :=
  Expr.wellFormed_of_children h (List.forall_mem_nil _)

theorem wellFormed_symbol (h : isName name = true) : (Expr.symbol name).WellFormed :=
  Expr.wellFormed_of_children h (List.forall_mem_nil _)

theorem wellFormed_negate (h : e.WellFormed) : e.negate.WellFormed :=
  Expr.wellFormed_of_children rfl (List.forall_mem_singleton.2 h)

theorem wellFormed_binary {kind : Kind} (hl : l.WellFormed) (hr : r.WellFormed)
    (hk : kind ∈ [Kind.plus, .dash, .star, .cdot, .times, .slash, .frac]) (ho : kind.operation? = some name) :
    (Expr.binary name l r false).WellFormed := by
  have hname : name ∈ ["add", "subtract", "multiply", "divide", "pow"] ∧ name ≠ "pow" := by
    revert hk
    cases kind <;> cases ho <;> decide
  refine Expr.wellFormed_of_children ⟨hname.1, by simp, ?_⟩ (forall_mem_pair hl hr)
  intro hpow
  exact absurd hpow hname.2

theorem wellFormed_power {kind : Kind} (hl : l.WellFormed) (hr : r.WellFormed) (hk : kind = .caret)
    (ho : kind.operation? = some name) (hne : r ≠ .symbol "T") : (Expr.binary name l r false).WellFormed := by
  subst hk
  cases ho
  exact Expr.wellFormed_of_children ⟨by decide, by simp, fun _ => hne⟩ (forall_mem_pair hl hr)

theorem wellFormed_product (hl : l.WellFormed) (hr : r.WellFormed) : (Expr.product l r).WellFormed := by
  refine Expr.wellFormed_of_children ⟨by decide, fun _ => rfl, ?_⟩ (forall_mem_pair hl hr)
  intro hpow
  exact absurd hpow (by decide)

theorem wellFormed_comparison {kind : Kind} (hl : l.WellFormed) (hr : r.WellFormed) (hk : kind.isComparison = true)
    (ho : kind.operation? = some name) : (Expr.comparison name l r).WellFormed := by
  have hname : name ∈ ["equal", "unequal", "smaller", "smaller_eq", "larger", "larger_eq"] := by
    cases kind <;> cases hk <;> cases ho <;> decide
  exact Expr.wellFormed_of_children hname (forall_mem_pair hl hr)

theorem wellFormed_call (hname : isName name = true) (hne : es ≠ []) (h : ∀ e ∈ es, e.WellFormed) :
    (Expr.call name es).WellFormed :=
  Expr.wellFormed_of_children ⟨hname, hne⟩ h

theorem wellFormed_accessor (hl : l.WellFormed) (hne : es ≠ []) (h : ∀ e ∈ es, e.WellFormed) :
    (Expr.accessor l es).WellFormed :=
  Expr.wellFormed_of_children hne (List.forall_mem_cons.2 ⟨hl, h⟩)

theorem wellFormed_assignment (hname : isName name = true) (h : e.WellFormed) : (Expr.assignment name e).WellFormed :=
  Expr.wellFormed_of_children hname (List.forall_mem_singleton.2 h)

theorem wellFormed_matrix {rows : List Row} (hne : rows ≠ [])
    (h : ∀ row ∈ rows, row.Shaped ∧ ∀ e ∈ row.entries, e.WellFormed) : (Expr.matrix rows).WellFormed := by
  refine Expr.wellFormed_of_children ⟨hne, fun row hrow => (h row hrow).1⟩ fun child hchild => ?_
  obtain ⟨row, hrow, hentry⟩ := List.mem_flatMap.1 hchild
  exact (h row hrow).2 child hentry

theorem isName_of_isFunction {kind : Kind} (hk : kind.isFunction = true) (ho : kind.operation? = some name) :
    isName name = true := by
  cases kind <;> cases hk <;> cases ho <;> decide

theorem wellFormed_row (hne : es ≠ []) (h : ∀ e ∈ es, e.WellFormed) :
    (Row.ofEntries es).Shaped ∧ ∀ e ∈ (Row.ofEntries es).entries, e.WellFormed := by
  refine ⟨?_, by rw [Row.entries_ofEntries]; exact h⟩
  match es, hne with
  | [_], _ => exact trivial
  | _ :: _ :: _, _ => simp [Row.ofEntries, Row.Shaped]

theorem wellFormed_uprightMeaning (h : isName name = true) : (uprightMeaning name).WellFormed := by
  unfold uprightMeaning
  split
  · exact Expr.wellFormed_of_children trivial (List.forall_mem_nil _)
  · split
    · exact Expr.wellFormed_of_children trivial (List.forall_mem_nil _)
    · exact wellFormed_symbol h

theorem wellFormed_enclosed (opening : Kind) (hne : es ≠ []) (h : ∀ e ∈ es, e.WellFormed) :
    enclosed opening es ≠ [] ∧ ∀ e ∈ enclosed opening es, e.WellFormed := by
  unfold enclosed
  split
  · exact ⟨List.cons_ne_nil _ _, List.forall_mem_singleton.2 (wellFormed_call (by decide) hne h)⟩
  · exact ⟨hne, h⟩

end

/-! ## Every part of the grammar -/

/-- What tokens from a text mean is well formed. -/
theorem Derives.wellFormed {n : Nat} {b : Bool} {r : Reading} {w : List Token} (h : Derives n b r w)
    (hw : ∀ token ∈ w, token.Lexed) : r.WellFormed := by
  induction h with
  | comparison _ ih | expression _ ih | term _ ih | factor _ ih | power _ ih | subscript _ ih | primary _ _ ih
  | index _ _ ih | parenthesized _ _ ih => exact ih hw
  | relation _ hc ho _ ihv ihw =>
    simp only [List.forall_mem_append, List.forall_mem_cons] at hw
    exact wellFormed_comparison (ihv hw.1) (ihw hw.2.2) hc ho
  | assignment _ _ _ _ ihv ihw =>
    simp only [List.forall_mem_append, List.forall_mem_cons] at hw
    exact wellFormed_assignment (ihv hw.1).shaped (ihw hw.2.2)
  | sum _ hk ho _ ihv ihw | times _ hk ho _ ihv ihw =>
    simp only [List.forall_mem_append, List.forall_mem_cons] at hw
    refine wellFormed_binary (ihv hw.1) (ihw hw.2.2) ?_ ho
    revert hk
    cases Token.kind _ <;> decide
  | neighbours _ _ _ _ ihv ihw =>
    simp only [List.forall_mem_append] at hw
    exact wellFormed_product (ihv hw.1) (ihw hw.2)
  | minus _ _ ih => exact wellFormed_negate (ih (List.forall_mem_cons.1 hw).2)
  | raised _ hk ho _ hne ihv ihw =>
    simp only [List.forall_mem_append, List.forall_mem_cons] at hw
    exact wellFormed_power (ihv hw.1) (ihw hw.2.2) hk ho hne
  | transposed _ _ _ ihv _ =>
    simp only [List.forall_mem_append] at hw
    exact Expr.wellFormed_of_children trivial (List.forall_mem_singleton.2 (ihv hw.1))
  | indexed _ _ _ ihv ihw =>
    simp only [List.forall_mem_append, List.forall_mem_cons] at hw
    obtain ⟨hne, hes⟩ := ihw hw.2.2
    exact wellFormed_accessor (ihv hw.1) hne hes
  | indexName _ hn => exact ⟨List.cons_ne_nil _ _, List.forall_mem_singleton.2 (wellFormed_symbol (hn.isName hw))⟩
  | argument _ _ ih | value _ ih | entry _ ih => exact ⟨List.cons_ne_nil _ _, List.forall_mem_singleton.2 (ih hw)⟩
  | number _ hd => exact wellFormed_number (isDecimal_iff.1 hd)
  | letter hk =>
    refine wellFormed_symbol ((hw _ List.mem_cons_self).isName_text ?_)
    revert hk
    cases Token.kind _ <;> decide
  | named _ hn => exact wellFormed_symbol (isName_of_symbolName? hn)
  | mathrm _ hn => exact wellFormed_uprightMeaning (hn.isName (List.forall_mem_cons.1 hw).2)
  | mathbf _ => exact Expr.wellFormed_of_children trivial (List.forall_mem_nil _)
  | grouping _ ih => exact (ih hw).2 _ List.mem_cons_self
  | bare _ _ ih =>
    simp only [List.forall_mem_append, List.forall_mem_cons] at hw
    obtain ⟨hne, hes⟩ := ih hw.2.1
    exact wellFormed_enclosed _ hne hes
  | wrapped _ _ _ _ ih =>
    simp only [List.forall_mem_append, List.forall_mem_cons] at hw
    obtain ⟨hne, hes⟩ := ih hw.2.2.1
    exact wellFormed_enclosed _ hne hes
  | values _ _ _ ihv ihw | entries _ _ _ ihv ihw =>
    simp only [List.forall_mem_append, List.forall_mem_cons] at hw
    exact ⟨List.cons_ne_nil _ _, List.forall_mem_cons.2 ⟨ihv hw.1, (ihw hw.2.2).2⟩⟩
  | matrix _ _ _ _ _ ih =>
    simp only [List.forall_mem_append, List.forall_mem_cons] at hw
    obtain ⟨hne, hrows⟩ := ih hw.2.2.1
    exact wellFormed_matrix hne hrows
  | lastRow _ ih =>
    obtain ⟨hne, hes⟩ := ih hw
    exact ⟨List.cons_ne_nil _ _, List.forall_mem_singleton.2 (wellFormed_row hne hes)⟩
  | brokenRow _ _ ih =>
    simp only [List.forall_mem_append] at hw
    obtain ⟨hne, hes⟩ := ih hw.1
    exact ⟨List.cons_ne_nil _ _, List.forall_mem_singleton.2 (wellFormed_row hne hes)⟩
  | nextRow _ _ _ ihv ihw =>
    simp only [List.forall_mem_append, List.forall_mem_cons] at hw
    obtain ⟨hne, hes⟩ := ihv hw.1
    exact ⟨List.cons_ne_nil _ _, List.forall_mem_cons.2 ⟨wellFormed_row hne hes, (ihw hw.2.2).2⟩⟩
  | fraction hk ho _ _ _ _ ihv ihw =>
    simp only [List.forall_mem_append, List.forall_mem_cons] at hw
    have hl := (ihv hw.2.1).2 _ List.mem_cons_self
    have hr := (ihw hw.2.2).2 _ List.mem_cons_self
    exact wellFormed_binary hl hr (by rw [hk]; decide) ho
  | shortFraction hk ho _ _ _ _ ihv ihw =>
    simp only [List.forall_mem_append, List.forall_mem_cons] at hw
    have hl := (ihv hw.2.1).2 _ List.mem_cons_self
    exact wellFormed_binary hl (ihw hw.2.2) (by rw [hk]; decide) ho
  | function hk ho _ ih =>
    obtain ⟨hne, hes⟩ := ih (List.forall_mem_cons.1 hw).2
    exact wellFormed_call (isName_of_isFunction hk ho) hne hes
  | logarithm hk ho _ _ _ ihv ihw =>
    simp only [List.forall_mem_append, List.forall_mem_cons] at hw
    obtain ⟨hne, hes⟩ := ihw hw.2.2.2
    refine wellFormed_call (isName_of_isFunction (by rw [hk]; rfl) ho) (by simp) ?_
    exact List.forall_mem_append.2 ⟨hes, List.forall_mem_singleton.2 (ihv hw.2.2.1)⟩
  | operatorname _ hn _ ih =>
    simp only [List.forall_mem_append, List.forall_mem_cons] at hw
    obtain ⟨hne, hes⟩ := ih hw.2.2
    exact wellFormed_call (hn.isName hw.2.1) hne hes

/-! ## Formulas -/

theorem exists_tokens_of_parseFormulaWithin {limit : Nat} {source : String} {e : Expr}
    (h : parseFormulaWithin limit source = .ok e) :
    ∃ tokens, tokenize source = .ok tokens ∧ parseTokens limit tokens = .ok e := by
  unfold parseFormulaWithin at h
  split at h
  · cases h
  · next tokens ht =>
    cases hp : parseTokens limit tokens with
    | error error =>
      rw [hp] at h
      cases h
    | ok e' =>
      rw [hp] at h
      cases h
      exact ⟨tokens, ht, hp⟩

/-- Every node of the tree of a formula is shaped. -/
theorem shaped_of_parseFormulaWithin {limit : Nat} {source : String} {e : Expr}
    (h : parseFormulaWithin limit source = .ok e) : ∀ node, e.Node node → node.Shaped := by
  obtain ⟨tokens, htokens, hparse⟩ := exists_tokens_of_parseFormulaWithin h
  obtain ⟨u, hu⟩ := settled_eq_ok_iff.1 hparse
  have hd := derives_of_wholeInput hu
  refine hd.wellFormed fun token ht => ?_
  have hmem : token ∈ tokens := List.takeWhile_subset _ ht
  exact (lexed_of_tokenize htokens hmem).resolve_left (hd.kind_ne_eof token ht)

/-- A name in braces as an index, next to a power. -/
theorem shaped_of_parseFormulaWithin_index :
    let e := Expr.product (.accessor (.symbol "v") [.symbol "max2"]) (.binary "pow" (.symbol "x") (.number "0.5") false)
    parseFormulaWithin 8 "v_\x7bmax2\x7d x^0.5" = .ok e ∧ ∀ node, e.Node node → node.Shaped := by
  intro e
  have h : parseFormulaWithin 8 "v_\x7bmax2\x7d x^0.5" = .ok e := eq_ok_of_toOption (by decide +kernel)
  exact ⟨h, shaped_of_parseFormulaWithin h⟩

end TexFormula

import TexFormula.Parser.Termination
import TexFormula.Proofs.Grammar.Basic

/-!
# Words of the grammar are well nested

* `delimiters w` : the delimiters of a word, all other tokens erased;
* `Nested n ks` : the delimiters `ks` open and close in pairs, at most `n` of them inside each other;
* `Derives.nested` : the delimiters of a word of the grammar are nested, at most as deep as the word
  may nest; a grouping on its own counts one level more than what it holds;
* `Derives.eq_braces` : a name in braces at the beginning of an argument is all of it.
-/

namespace TexFormula

def Kind.isDelimiter : Kind → Bool
  | .openParen | .closeParen | .openCurly | .closeCurly | .bar | .left | .right | .beginEnv | .endEnv => true
  | _ => false

def delimiters (w : List Token) : List Kind := (w.map Token.kind).filter Kind.isDelimiter

/-- Delimiters that open and close in pairs, at most `n` of them inside each other. -/
inductive Nested : Nat → List Kind → Prop
  | nil {n : Nat} : Nested n []
  | append {n : Nat} {v w : List Kind} : Nested n v → Nested n w → Nested n (v ++ w)
  | bare {n : Nat} {opening closing : Kind} {w : List Kind} :
    opening.closing? = some closing → Nested n w → Nested (n + 1) (opening :: (w ++ [closing]))
  | wrapped {n : Nat} {opening closing : Kind} {w : List Kind} :
    opening.closing? = some closing → Nested n w →
    Nested (n + 1) (.left :: opening :: (w ++ [.right, closing]))
  | matrix {n : Nat} {w : List Kind} : Nested n w →
    Nested (n + 1) (.beginEnv :: .openCurly :: .closeCurly :: (w ++ [.endEnv, .openCurly, .closeCurly]))

theorem Nested.mono {n m : Nat} {ks : List Kind} (h : Nested n ks) (hm : n ≤ m) : Nested m ks := by
  induction h generalizing m with
  | nil => exact .nil
  | append _ _ ihv ihw => exact .append (ihv hm) (ihw hm)
  | bare ho _ ih =>
    obtain ⟨k, rfl⟩ : ∃ k, m = k + 1 := ⟨m - 1, by omega⟩
    exact .bare ho (ih (by omega))
  | wrapped ho _ ih =>
    obtain ⟨k, rfl⟩ : ∃ k, m = k + 1 := ⟨m - 1, by omega⟩
    exact .wrapped ho (ih (by omega))
  | matrix _ ih =>
    obtain ⟨k, rfl⟩ : ∃ k, m = k + 1 := ⟨m - 1, by omega⟩
    exact .matrix (ih (by omega))

theorem Nested.head?_ne {n : Nat} {ks : List Kind} (h : Nested n ks) {kind : Kind}
    (hk : kind ∈ [Kind.closeCurly, .endEnv]) : ks.head? ≠ some kind := by
  induction h with
  | nil => simp
  | append _ _ ihv ihw =>
    rw [List.head?_append]
    intro he
    rcases Option.or_eq_some_iff.1 he with he | ⟨-, he⟩
    · exact ihv he
    · exact ihw he
  | bare ho _ _ =>
    rw [List.head?_cons]
    rintro ⟨⟩
    simp only [List.mem_cons, List.not_mem_nil, or_false] at hk
    rcases hk with rfl | rfl
    · cases ho
    · cases ho
  | wrapped _ _ _ | matrix _ _ =>
    rintro ⟨⟩
    simp at hk

/-! ## The delimiters of a word -/

@[simp] theorem delimiters_nil : delimiters [] = [] := rfl

@[simp] theorem delimiters_append (v w : List Token) : delimiters (v ++ w) = delimiters v ++ delimiters w := by
  simp [delimiters]

theorem delimiters_cons (token : Token) (w : List Token) : delimiters (token :: w) =
    if token.kind.isDelimiter = true then token.kind :: delimiters w else delimiters w := by
  simp [delimiters, List.filter_cons]

theorem delimiters_cons_of_eq {token : Token} {kind : Kind} (hk : token.kind = kind)
    (hd : kind.isDelimiter = true) (w : List Token) : delimiters (token :: w) = kind :: delimiters w := by
  rw [delimiters_cons, hk, if_pos hd]

theorem delimiters_cons_of_not {token : Token} (hk : token.kind.isDelimiter = false) (w : List Token) :
    delimiters (token :: w) = delimiters w := by
  rw [delimiters_cons, if_neg (by rw [hk]; exact Bool.false_ne_true)]

theorem isDelimiter_of_closing? {opening closing : Kind} (h : opening.closing? = some closing) :
    opening.isDelimiter = true ∧ closing.isDelimiter = true := by
  cases opening <;> cases h <;> decide

theorem isDelimiter_of_isComparison {kind : Kind} (h : kind.isComparison = true) : kind.isDelimiter = false := by
  revert h
  cases kind <;> decide

theorem isDelimiter_of_isFunction {kind : Kind} (h : kind.isFunction = true) : kind.isDelimiter = false := by
  revert h
  cases kind <;> decide

theorem Spells.delimiters_eq {run : List Token} {name : String} (h : Spells run name) : delimiters run = [] := by
  refine List.filter_eq_nil_iff.2 fun kind hk => ?_
  obtain ⟨token, ht, rfl⟩ := List.mem_map.1 hk
  have hs := h.isSome ht
  unfold Token.fragment? at hs
  split at hs <;> simp_all [Kind.isDelimiter]

theorem delimiters_braces {opening closing : Token} {run : List Token} {name : String}
    (ho : opening.kind = .openCurly) (hc : closing.kind = .closeCurly) (hs : Spells run name) :
    delimiters (opening :: (run ++ [closing])) = [.openCurly, .closeCurly] := by
  rw [delimiters_cons_of_eq ho rfl, delimiters_append, hs.delimiters_eq, delimiters_cons_of_eq hc rfl]
  rfl

theorem BracedName.delimiters_eq {name : String} {w : List Token} (h : BracedName name w) :
    delimiters w = [.openCurly, .closeCurly] := by
  obtain ⟨opening, run, closing, rfl, ho, hc, hs, -, -⟩ := h
  exact delimiters_braces ho hc hs

theorem nested_braces {n : Nat} : Nested (n + 1) [.openCurly, .closeCurly] :=
  Nested.bare (w := []) rfl .nil

theorem delimiters_of_map {w : List Token} {kinds : List Kind} (h : w.map Token.kind = kinds) :
    delimiters w = kinds.filter Kind.isDelimiter := by
  rw [delimiters, h]

/-! ## Derivations -/

/-- How deep the delimiters of a word may nest that is read in `n` levels. -/
def Reading.depth (n : Nat) : Reading → Nat
  | .part p _ => if p.rank = 1 then n + 1 else n
  | .group _ _ => n + 1
  | .index _ => max n 1
  | _ => n

theorem rank_of_mem_primaries {p : Production} (h : p ∈ Production.primaries) : p.rank = 1 := by
  revert h
  cases p <;> decide

theorem Derives.levels_pos {n : Nat} {b : Bool} {p : Production} {e : Expr} {w : List Token}
    (h : Derives n b (.part p e) w) (hp : p.rank ≠ 1) : 0 < n := by
  generalize hr : Reading.part p e = r at h
  induction h generalizing p e with
  | comparison _ ih | expression _ ih | term _ ih | factor _ ih | power _ ih | subscript _ ih
  | relation _ _ _ _ ih _ | sum _ _ _ _ ih _ | times _ _ _ _ ih _ | neighbours _ _ _ _ ih _
  | minus _ _ ih | raised _ _ _ _ _ ih _ | transposed _ _ _ ih _ | indexed _ _ _ ih _ =>
    exact ih (by decide) rfl
  | assignment _ _ _ _ _ _ | primary _ _ _ => exact Nat.succ_pos _
  | _ => cases hr <;> exact absurd rfl hp

/-- The delimiters of a word of the grammar are nested, as deep as the word may be. -/
theorem Derives.nested {n : Nat} {b : Bool} {r : Reading} {w : List Token} (h : Derives n b r w) :
    Nested (r.depth n) (delimiters w) := by
  induction h with
  | comparison _ ih | expression _ ih | term _ ih | factor _ ih | power _ ih | subscript _ ih
  | argument _ _ ih | parenthesized _ _ ih | grouping _ ih | value _ ih | entry _ ih | lastRow _ ih => exact ih
  | relation _ hc _ _ ihv ihw =>
    rw [delimiters_append, delimiters_cons_of_not (isDelimiter_of_isComparison hc)]
    exact .append ihv ihw
  | assignment _ _ hk _ ihv ihw =>
    rw [delimiters_append, delimiters_cons_of_not (by rw [hk]; rfl)]
    exact .append ihv (ihw.mono (Nat.le_succ _))
  | sum _ hk _ _ ihv ihw | times _ hk _ _ ihv ihw =>
    rw [delimiters_append, delimiters_cons_of_not (by revert hk; cases Token.kind _ <;> decide)]
    exact .append ihv ihw
  | neighbours _ _ _ _ ihv ihw =>
    rw [delimiters_append]
    exact .append ihv ihw
  | minus hk _ ih =>
    rw [delimiters_cons_of_not (by rw [hk]; rfl)]
    exact ih
  | raised _ hk _ _ _ ihv ihw | transposed _ hk _ ihv ihw | values _ hk _ ihv ihw | entries _ hk _ ihv ihw
  | nextRow _ hk _ ihv ihw =>
    rw [delimiters_append, delimiters_cons_of_not (by rw [hk]; rfl)]
    exact .append ihv ihw
  | indexed hv hk _ ihv ihw =>
    have hpos := hv.levels_pos (by decide)
    rw [delimiters_append, delimiters_cons_of_not (by rw [hk]; rfl)]
    exact .append ihv (ihw.mono (Nat.max_le.2 ⟨Nat.le_refl _, hpos⟩))
  | indexName _ hn =>
    rw [hn.delimiters_eq]
    exact nested_braces.mono (Nat.le_max_right _ _)
  | index _ _ ih => exact ih.mono (Nat.le_max_left _ _)
  | primary hp _ ih => rwa [Reading.depth, if_pos (rank_of_mem_primaries hp)] at ih
  | number hk _ | named hk _ =>
    rw [delimiters_cons_of_not (by rw [hk]; rfl)]
    exact .nil
  | letter hk =>
    rw [delimiters_cons_of_not (by revert hk; cases Token.kind _ <;> decide)]
    exact .nil
  | mathrm hk hn =>
    rw [delimiters_cons_of_not (by rw [hk]; rfl), hn.delimiters_eq]
    exact nested_braces
  | mathbf hw =>
    rw [delimiters_of_map hw]
    exact nested_braces
  | bare ho _ ih =>
    have hd := isDelimiter_of_closing? ho
    rw [delimiters_cons_of_eq rfl hd.1, delimiters_append, delimiters_cons_of_eq rfl hd.2]
    exact .bare ho ih
  | wrapped hl ho hr _ ih =>
    have hd := isDelimiter_of_closing? ho
    rw [delimiters_cons_of_eq hl rfl, delimiters_cons_of_eq rfl hd.1, delimiters_append,
      delimiters_cons_of_eq hr rfl, delimiters_cons_of_eq rfl hd.2]
    exact .wrapped ho ih
  | matrix ho hu _ hc hw ih =>
    rw [delimiters_cons_of_eq ho rfl, delimiters_append, delimiters_of_map hu, delimiters_append,
      delimiters_cons_of_eq hc rfl, delimiters_of_map hw]
    exact .matrix ih
  | brokenRow _ hk ih =>
    rw [delimiters_append, delimiters_cons_of_not (by rw [hk]; rfl), delimiters_nil, List.append_nil]
    exact ih
  | fraction hk _ _ _ _ _ ihv ihw =>
    rw [delimiters_cons_of_not (by rw [hk]; rfl), delimiters_append]
    exact .append ihv ihw
  | shortFraction hk _ _ _ _ _ ihv ihw =>
    rw [delimiters_cons_of_not (by rw [hk]; rfl), delimiters_append]
    exact .append ihv (ihw.mono (Nat.le_succ _))
  | function hk _ _ ih =>
    rw [delimiters_cons_of_not (isDelimiter_of_isFunction hk)]
    exact ih.mono (Nat.le_succ _)
  | logarithm hk _ hs _ _ ihv ihw =>
    rw [delimiters_cons_of_not (by rw [hk]; rfl), delimiters_cons_of_not (by rw [hs]; rfl), delimiters_append]
    exact (ihv.append ihw).mono (Nat.le_succ _)
  | operatorname hk hn _ ih =>
    rw [delimiters_cons_of_not (by rw [hk]; rfl), delimiters_append, hn.delimiters_eq]
    exact .append nested_braces (ih.mono (Nat.le_succ _))

theorem Derives.headKind?_ne_endEnv {n : Nat} {b : Bool} {r : Reading} {w : List Token} (h : Derives n b r w) :
    headKind? w ≠ some .endEnv := by
  intro he
  obtain ⟨token, w, rfl⟩ := List.exists_cons_of_ne_nil h.ne_nil
  have hd : (delimiters (token :: w)).head? = some .endEnv := by
    rw [delimiters_cons_of_eq (Option.some.inj he) rfl]
    rfl
  exact h.nested.head?_ne (by decide) hd

theorem Derives.in_braces {n : Nat} {b : Bool} {e : Expr} {w : List Token} {opening : Token}
    (h : Derives n b (.part .primary e) (opening :: w)) (ho : opening.kind = .openCurly) :
    ∃ m es v closing, w = v ++ [closing] ∧ closing.kind = .closeCurly ∧ Derives m false (.list false es) v := by
  cases h with
  | primary hp h =>
    have hb := h.bind_headKind? hp
    rw [headKind?_cons, ho] at hb
    cases hb
    cases h with
    | grouping h =>
      generalize [e] = es at h
      cases h with
      | bare hc h =>
        rw [ho] at hc h
        exact ⟨_, _, _, _, rfl, (Option.some.inj hc).symm, h⟩
      | wrapped hl _ _ _ =>
        rw [ho] at hl
        cases hl

/--
Where a name in braces stands at the beginning of an argument and of what follows it, the argument is
that name: it starts with a brace, and the first brace that closes is its own.
-/
theorem Derives.eq_braces {n : Nat} {b : Bool} {es : List Expr} {w run rest rest' : List Token} {name : String}
    {opening closing : Token} (h : Derives n b (.argument es) w) (ho : opening.kind = .openCurly)
    (hc : closing.kind = .closeCurly) (hs : Spells run name)
    (heq : w ++ rest = opening :: (run ++ closing :: rest')) : w = opening :: (run ++ [closing]) := by
  obtain ⟨first, w', rfl⟩ := List.exists_cons_of_ne_nil h.ne_nil
  rw [List.cons_append, List.cons.injEq] at heq
  obtain ⟨rfl, heq⟩ := heq
  cases h with
  | parenthesized hp _ => simp [OpensParenthesis, ho] at hp
  | argument _ h =>
    obtain ⟨m, es, v, closing', rfl, hc', hv⟩ := h.in_braces ho
    rw [List.append_assoc, List.singleton_append] at heq
    rcases List.append_eq_append_iff.1 heq with ⟨a, rfl, ha⟩ | ⟨a, rfl, ha⟩
    · cases a with
      | nil => rw [(List.cons.inj ha).1, List.append_nil]
      | cons token a =>
        obtain ⟨rfl, -⟩ := List.cons.inj ha
        exact absurd hc' (kind_ne_of_isSome (hs.isSome (by simp)) (by decide))
    · cases a with
      | nil => rw [(List.cons.inj ha).1, List.append_nil]
      | cons token a =>
        obtain ⟨rfl, -⟩ := List.cons.inj ha
        refine absurd ?_ (hv.nested.head?_ne (List.mem_cons_self ..))
        rw [delimiters_append, hs.delimiters_eq, delimiters_cons_of_eq hc rfl]
        rfl

end TexFormula

import TexFormula.Proofs.Grammar.Nesting
import TexFormula.Proofs.Parser.Soundness
import TexFormula.Proofs.Parser.Steps

/-!
# What is in the grammar is accepted

* `Yields m s a t` : given enough steps, the run `m` returns `a` and comes from `s` to `t`;
* `Kind.continues` : the kinds of the tokens that a production would still read where they stand
  after one of its words;
* `Complete limit n b r w` : wherever the tokens `w` are ahead, with room for `n` levels, and nothing
  follows that would be read too, the parser reads `w` with the meaning of `r`;
* `Derives.complete` : this holds of every word of the grammar;
* `parseTokens_of_derives` : so every comparison is accepted with its meaning, and has only one.

Sums, products, powers and subscripts are left recursive in the grammar and loops in the parser. For
them `Complete` says that whatever the loop makes of the meaning of `w`, after `w`, the production
makes of the tokens from the beginning of `w` on. One more operand is then one more turn of the loop.
-/

namespace TexFormula

open ParseM

/-! ## Runs that succeed given enough steps -/

section
variable {α β : Type} {s t u : ParserState}

/-- With enough steps for the productions it reads and for its loop, the run succeeds. -/
def Yields (m : Nat → Nat → ParseM α) (s : ParserState) (a : α) (t : ParserState) : Prop :=
  ∃ bound, ∀ n k, bound ≤ n → bound ≤ k → m n k s = .ok a t

theorem yields_of_eq {m : ParseM α} {a : α} (h : m s = .ok a t) : Yields (fun _ _ => m) s a t :=
  ⟨0, fun _ _ _ _ => h⟩

theorem yields_pure (a : α) : Yields (fun _ _ => pure a) s a s := yields_of_eq rfl

theorem Yields.of_pure {a a' : α} (h : Yields (fun _ _ => pure a) s a' t) : a' = a ∧ t = s := by
  obtain ⟨bound, h⟩ := h
  cases h bound bound (Nat.le_refl _) (Nat.le_refl _)
  exact ⟨rfl, rfl⟩

theorem Yields.bind {m : Nat → Nat → ParseM α} {f : Nat → Nat → α → ParseM β} {a : α} {b : β}
    (hm : Yields m s a t) (hf : Yields (fun n k => f n k a) t b u) :
    Yields (fun n k => m n k >>= f n k) s b u := by
  obtain ⟨x, hx⟩ := hm
  obtain ⟨y, hy⟩ := hf
  refine ⟨max x y, fun n k hn hk => bind_eq_ok_iff.2 ⟨a, t, hx n k ?_ ?_, hy n k ?_ ?_⟩⟩ <;> omega

theorem Yields.turn {m : Nat → Nat → ParseM α} {a : α} (h : Yields (fun n k => m n (k + 1)) s a t) :
    Yields m s a t := by
  obtain ⟨bound, h⟩ := h
  refine ⟨bound + 1, fun n k hn hk => ?_⟩
  obtain ⟨j, rfl⟩ : ∃ j, k = j + 1 := ⟨k - 1, by omega⟩
  exact h n j (by omega) (by omega)

theorem Yields.read {rules : Rules} {p : Production} {e : Expr}
    (h : Yields (fun n k => Read.body rules (Production.read rules n) k p) s e t) :
    Yields (fun n _ => Production.read rules n p) s e t := by
  obtain ⟨bound, h⟩ := h
  refine ⟨bound + 1, fun n _ hn _ => ?_⟩
  obtain ⟨j, rfl⟩ : ∃ j, n = j + 1 := ⟨n - 1, by omega⟩
  exact h j j (by omega) (by omega)

theorem yields_state {f : Nat → Nat → ParserState → ParseM β} {b : β} (h : Yields (fun n k => f n k s) s b t) :
    Yields (fun n k => state >>= f n k) s b t := h

theorem yields_current {f : Nat → Nat → Token → ParseM β} {b : β}
    (h : Yields (fun n k => f n k s.cursor.current) s b t) : Yields (fun n k => current >>= f n k) s b t := h

theorem yields_currentKind {f : Nat → Nat → Kind → ParseM β} {b : β}
    (h : Yields (fun n k => f n k s.cursor.current.kind) s b t) : Yields (fun n k => currentKind >>= f n k) s b t := h

theorem yields_ite_pos {c : Prop} [Decidable c] {m m' : Nat → Nat → ParseM α} {a : α} (hc : c)
    (h : Yields m s a t) : Yields (fun n k => if c then m n k else m' n k) s a t := by
  simpa only [if_pos hc] using h

theorem yields_ite_neg {c : Prop} [Decidable c] {m m' : Nat → Nat → ParseM α} {a : α} (hc : ¬ c)
    (h : Yields m' s a t) : Yields (fun n k => if c then m n k else m' n k) s a t := by
  simpa only [if_neg hc] using h

theorem yields_operationOf {token : Token} {name : String} (h : token.kind.operation? = some name) :
    Yields (fun _ _ => operationOf token) s name s := by
  refine yields_of_eq ?_
  unfold operationOf
  rw [h]
  rfl

theorem yields_expectOr {kind : Kind} {fault : Token → SyntaxFault} {token : Token}
    (hk : s.cursor.current.kind = kind) (h : advance s = .ok token t) :
    Yields (fun _ _ => expectOr kind fault) s token t := by
  refine yields_of_eq (bind_eq_ok_iff.2 ⟨(), s, ?_, h⟩)
  rw [demandOr_eq, if_pos hk]

theorem yields_nested {limit : Nat} {m : Nat → Nat → ParseM α} {a : α} (hd : s.depth < limit)
    (ht : t.depth = s.depth)
    (h : Yields m { s with depth := s.depth + 1 } a { t with depth := s.depth + 1 }) :
    Yields (fun n k => nested limit (m n k)) s a t := by
  refine Yields.bind (t := { s with depth := s.depth + 1 }) (a := ()) (yields_of_eq ?_) (h.bind (yields_of_eq ?_))
  · show (if limit ≤ s.depth then _ else _ : ParseM Unit) s = _
    rw [if_neg (by omega)]
    rfl
  · show EStateM.Result.ok a { t with depth := s.depth } = _
    rw [← ht]

theorem yields_withBars {bars : Nat → Nat} {m : Nat → Nat → ParseM α} {a : α} (ht : t.openBars = s.openBars)
    (h : Yields m { s with openBars := bars s.openBars } a { t with openBars := bars s.openBars }) :
    Yields (fun n k => withBars bars (m n k)) s a t := by
  refine yields_state (Yields.bind (t := { s with openBars := bars s.openBars }) (a := ()) (yields_of_eq rfl)
    (h.bind (yields_of_eq ?_)))
  show EStateM.Result.ok a { t with openBars := s.openBars } = _
  rw [← ht]

end

/-! ## What may follow -/

/-- Whether a production, at the end of one of its words, would read on at a token of this kind. -/
def Kind.continues (b : Bool) (kind : Kind) : Production → Bool
  | .subscript => kind == .underscore
  | .power | .factor => kind == .underscore || kind == .caret
  | .term => kind == .underscore || kind == .caret || [Kind.star, .cdot, .times, .slash].contains kind ||
      kind.startsOperand b
  | .expression => kind == .underscore || kind == .caret || [Kind.star, .cdot, .times, .slash].contains kind ||
      kind.startsOperand b || [Kind.plus, .dash].contains kind
  | .comparison => kind == .underscore || kind == .caret || [Kind.star, .cdot, .times, .slash].contains kind ||
      kind.startsOperand b || [Kind.plus, .dash].contains kind || kind.isComparison || kind == .assign
  | _ => false

/-- What the loop of a production reads in every turn; for one without a loop, the production itself. -/
def Production.operand : Production → Production
  | .expression => .term
  | .term => .factor
  | .power => .subscript
  | .subscript => .primary
  | p => p

/-- The loop of a production, from the tree that it has read so far. -/
def Production.tail (rules : Rules) (p : Production) (left : Expr) (n k : Nat) : ParseM Expr :=
  match p with
  | .expression => Read.sumTail rules (Production.read rules n) k left
  | .term => Read.productTail rules (Production.read rules n) k left
  | .power => Read.powerTail rules (Production.read rules n) k left
  | .subscript => Read.subscriptTail rules (Production.read rules n) k left
  | _ => pure left

section
variable {b : Bool} {kind : Kind}

theorem continues_operand {p : Production} (h : kind.continues b p = false) :
    kind.continues b p.operand = false := by
  cases p <;> simp_all [Kind.continues, Production.operand]

theorem continues_expression (h : kind.continues b .comparison = false) :
    kind.continues b .expression = false ∧ kind.isComparison = false ∧ kind ≠ .assign := by
  simp_all [Kind.continues]

theorem continues_of_rank {p : Production} (h : p.rank = 1) : kind.continues b p = false := by
  cases p <;> simp_all [Production.rank, Kind.continues]

theorem continues_of_closer (h : kind ∈ [Kind.eof, .closeParen, .closeCurly, .comma, .right]) :
    kind.continues b .comparison = false := by
  revert h
  cases b <;> cases kind <;> decide

theorem continues_of_closing? {opening : Kind} (h : opening.closing? = some kind) :
    kind.continues (opening == .bar) .comparison = false ∧ kind ≠ .comma := by
  cases opening <;> cases h <;> decide

theorem continues_of_separator (h : kind ∈ [Kind.ampersand, .rowBreak, .endEnv, .assign]) :
    kind.continues b .expression = false := by
  revert h
  cases b <;> cases kind <;> decide

theorem continues_of_isComparison (h : kind.isComparison = true) : kind.continues b .expression = false := by
  revert h
  cases b <;> cases kind <;> decide

theorem continues_of_additive (h : kind ∈ [Kind.plus, .dash]) : kind.continues b .term = false := by
  revert h
  cases b <;> cases kind <;> decide

theorem continues_of_multiplicative (h : kind ∈ [Kind.star, .cdot, .times, .slash]) :
    kind.continues b .factor = false := by
  revert h
  cases b <;> cases kind <;> decide

theorem continues_of_production? (h : kind.production?.isSome = true) : kind.continues b .factor = false := by
  revert h
  cases b <;> cases kind <;> decide

end

/-- Nothing more is read where nothing carries on, so the loop stops with what it has. -/
theorem yields_tail {limit : Nat} {p : Production} {s : ParserState} (e : Expr)
    (h : s.cursor.current.kind.continues (decide (0 < s.openBars)) p = false) :
    Yields (p.tail (.standard limit) e) s e s := by
  cases p with
  | expression =>
    refine Yields.turn (yields_state (yields_ite_neg (fun hl => ?_) (yields_pure e)))
    have hk := standardLevel_additive.1 hl
    simp_all [Kind.continues]
  | term =>
    refine Yields.turn (yields_state (yields_ite_neg (fun hl => ?_)
      (yields_state (yields_ite_neg (fun ho => ?_) (yields_pure e)))))
    · have hk := standardLevel_multiplicative.1 hl
      simp_all [Kind.continues]
    · rw [atImplicitOperand_standard] at ho
      simp_all [Kind.continues]
  | power =>
    refine Yields.turn (yields_state (yields_ite_neg (fun hl => ?_) (yields_pure e)))
    have hk := standardLevel_power.1 hl
    simp_all [Kind.continues]
  | subscript =>
    refine Yields.turn (yields_state (yields_ite_neg (fun hl => ?_) (yields_pure e)))
    have hk := standardLevel_subscript.1 hl
    simp_all [Kind.continues]
  | _ => exact yields_pure e

/-! ## Reading a word of the grammar -/

/-- Wherever a word is ahead and nothing follows that would be read too, the parser reads the word. -/
def Complete (limit n : Nat) (b : Bool) (r : Reading) (w : List Token) : Prop :=
  ∀ m s t, n ≤ m → Within limit m b s → Moves s w t →
    match r with
    | .part p e => t.cursor.current.kind.continues b p.operand = false → ∀ e' u,
        Yields (p.tail (.standard limit) e) t e' u →
        Yields (fun n k => Read.body (.standard limit) (Production.read (.standard limit) n) k p) s e' u
    | .list allowed es => t.cursor.current.kind.continues b .comparison = false →
        t.cursor.current.kind ≠ .comma →
        Yields (fun n k => Read.listed (Production.read (.standard limit) n) allowed k) s es t
    | .group allowList es => Yields (fun n k => Read.grouping (Production.read (.standard limit) n) allowList k) s es t
    | .argument es =>
        Yields (fun n k => Read.argument (.standard limit) (Production.read (.standard limit) n) k) s es t
    | .index es => Yields (fun n k => Read.index (.standard limit) (Production.read (.standard limit) n) k) s es t
    | .row es => t.cursor.current.kind.continues b .expression = false → t.cursor.current.kind ≠ .ampersand →
        Yields (fun n k => do
          let entry ← Production.read (.standard limit) n .expression
          return entry :: (← Read.rowTail (Production.read (.standard limit) n) k)) s es t
    | .rows rows => t.cursor.current.kind = .endEnv → ∀ opening,
        Yields (fun n k => Read.rows (Production.read (.standard limit) n) opening k) s rows t

namespace Complete

variable {limit n m : Nat} {b : Bool} {s t : ParserState} {v w : List Token} {e l r : Expr} {sign : Token}
  {name : String}

/-- A production whose loop would not go on reads exactly its word. -/
theorem yields_read {p : Production} (h : Complete limit n b (.part p e) w) (hn : n ≤ m) (hs : Within limit m b s)
    (hm : Moves s w t) (hk : t.cursor.current.kind.continues b p = false) :
    Yields (fun n _ => Production.read (.standard limit) n p) s e t := by
  refine Yields.read (h m s t hn hs hm (continues_operand hk) e t (yields_tail e ?_))
  rw [(hs.moves hm).bars]
  exact hk

/-! ### Operators -/

theorem comparison (h : Complete limit n b (.part .expression e) w) : Complete limit n b (.part .comparison e) w := by
  intro m s t hn hs hm hk e' u ht
  obtain ⟨rfl, rfl⟩ := ht.of_pure
  obtain ⟨hke, hrel, has⟩ := continues_expression hk
  refine yields_current ((h.yields_read hn hs hm hke).bind ?_)
  refine yields_currentKind (yields_ite_neg has (yields_state (yields_ite_neg (fun hl => ?_) (yields_pure _))))
  rw [standardLevel_relational.1 hl] at hrel
  cases hrel

theorem relation (hv : Complete limit n b (.part .expression l) v) (hc : sign.kind.isComparison = true)
    (ho : sign.kind.operation? = some name) (hw : Complete limit n b (.part .expression r) w) :
    Complete limit n b (.part .comparison (.comparison name l r)) (v ++ sign :: w) := by
  intro m s t hn hs hm hk e' u ht
  obtain ⟨rfl, rfl⟩ := ht.of_pure
  obtain ⟨x, hsx, hxt⟩ := hm.split
  have hx := hxt.current
  obtain ⟨y, hadv, hxy, hyt⟩ := advance_of_moves hxt (by intro he; rw [he] at hc; cases hc)
  have hxw := hs.moves hsx
  refine yields_current ((hv.yields_read hn hs hsx (by rw [hx]; exact continues_of_isComparison hc)).bind ?_)
  refine yields_currentKind (yields_ite_neg ?_ (yields_state (yields_ite_pos ?_ ?_)))
  · intro he
    rw [hx] at he
    rw [he] at hc
    cases hc
  · rw [ParserState.level, hx]
    exact standardLevel_relational.2 hc
  · refine (yields_of_eq hadv).bind ((hw.yields_read hn (hxw.moves hxy) hyt (continues_expression hk).1).bind ?_)
    exact (yields_operationOf ho).bind (yields_pure _)

/--
A sign and what comes after it are one more turn of the loop of a production, if that is what the
loop makes of them.
-/
theorem turn {p : Production} (hv : Complete limit n b (.part p l) v) (hne : sign.kind ≠ .eof)
    (hk : sign.kind.continues b p.operand = false)
    (hturn : ∀ {m x y t e' u}, n ≤ m → x.cursor.current = sign → advance x = .ok sign y → Within limit m b y →
      Moves y w t → t.cursor.current.kind.continues b p.operand = false →
      Yields (p.tail (.standard limit) e) t e' u → Yields (p.tail (.standard limit) l) x e' u) :
    Complete limit n b (.part p e) (v ++ sign :: w) := by
  intro m s t hn hs hm hkt e' u ht
  obtain ⟨x, hsx, hxt⟩ := hm.split
  obtain ⟨y, hadv, hxy, hyt⟩ := advance_of_moves hxt hne
  refine hv m s x hn hs hsx (by rw [hxt.current]; exact hk) e' u ?_
  exact hturn hn hxt.current hadv ((hs.moves hsx).moves hxy) hyt hkt ht

theorem sum (hv : Complete limit n b (.part .expression l) v) (hsign : sign.kind ∈ [Kind.plus, .dash])
    (ho : sign.kind.operation? = some name) (hw : Complete limit n b (.part .term r) w) :
    Complete limit n b (.part .expression (.binary name l r false)) (v ++ sign :: w) := by
  refine hv.turn (by intro he; rw [he] at hsign; simp at hsign) (continues_of_additive hsign) ?_
  intro m x y t e' u hn hx hadv hy hyt hk ht
  refine Yields.turn (yields_state (yields_ite_pos ?_ ?_))
  · rw [ParserState.level, hx]
    exact standardLevel_additive.2 hsign
  · refine (yields_of_eq hadv).bind ((hw.yields_read hn hy hyt hk).bind ?_)
    exact (yields_operationOf ho).bind ht

theorem expression (h : Complete limit n b (.part .term e) w) : Complete limit n b (.part .expression e) w :=
  fun _ _ _ hn hs hm hk _ _ ht => (h.yields_read hn hs hm hk).bind ht

theorem times (hv : Complete limit n b (.part .term l) v) (hsign : sign.kind ∈ [Kind.star, .cdot, .times, .slash])
    (ho : sign.kind.operation? = some name) (hw : Complete limit n b (.part .factor r) w) :
    Complete limit n b (.part .term (.binary name l r false)) (v ++ sign :: w) := by
  refine hv.turn (by intro he; rw [he] at hsign; simp at hsign) (continues_of_multiplicative hsign) ?_
  intro m x y t e' u hn hx hadv hy hyt hk ht
  refine Yields.turn (yields_state (yields_ite_pos ?_ ?_))
  · rw [ParserState.level, hx]
    exact standardLevel_multiplicative.2 hsign
  · refine (yields_of_eq hadv).bind ((hw.yields_read hn hy hyt hk).bind ?_)
    exact (yields_operationOf ho).bind ht

theorem neighbours (hv : Complete limit n b (.part .term l) v) (hne : v ≠ [])
    (hw : Complete limit n b (.part .power r) w) {kind : Kind} (hkind : headKind? w = some kind)
    (hstart : kind.startsOperand b = true)
    (hnum : ¬ (lastKind? v = some .number ∧ headKind? w = some .number)) :
    Complete limit n b (.part .term (.product l r)) (v ++ w) := by
  intro m s t hn hs hm hk e' u ht
  obtain ⟨x, hsx, hxt⟩ := hm.split
  have hx := hxt.current_kind hkind
  have hxw := hs.moves hsx
  have hprod : kind.production?.isSome = true := (Bool.and_eq_true_iff.1 hstart).1
  refine hv m s x hn hs hsx (by rw [hx]; exact continues_of_production? hprod) e' u ?_
  refine Yields.turn (yields_state (yields_ite_neg ?_ (yields_state (yields_ite_pos ?_ ?_))))
  · rw [ParserState.level, hx]
    intro hl
    have hl' : Rules.standardLevel kind = .primary := if_pos hprod
    rw [show Rules.standardLevel kind = .multiplicative from hl] at hl'
    cases hl'
  · rw [atImplicitOperand_standard, hx, hxw.bars]
    exact hstart
  · have hbefore : Read.numberBefore? x.cursor = none := by
      rw [numberBefore?_eq_none_iff, hsx.previous? hne, hx]
      rw [hkind, Option.some.injEq] at hnum
      exact hnum
    exact Yields.bind (yields_of_eq (refuseSecondNumber_eq hbefore)) ((hw.yields_read hn hxw hxt hk).bind ht)

theorem term (h : Complete limit n b (.part .factor e) w) : Complete limit n b (.part .term e) w :=
  fun _ _ _ hn hs hm hk _ _ ht => (h.yields_read hn hs hm hk).bind ht

theorem factor (h : Complete limit n b (.part .power e) w) {kind : Kind} (hkind : headKind? w = some kind)
    (hstart : kind.production?.isSome = true) : Complete limit n b (.part .factor e) w := by
  intro m s t hn hs hm hk e' u ht
  obtain ⟨rfl, rfl⟩ := ht.of_pure
  refine yields_currentKind (yields_ite_neg ?_ (h.yields_read hn hs hm hk))
  rw [hm.current_kind hkind]
  rintro rfl
  cases hstart

theorem minus (hsign : sign.kind = .dash) (h : Complete limit n b (.part .power e) w) :
    Complete limit n b (.part .factor (.negate e)) (sign :: w) := by
  intro m s t hn hs hm hk e' u ht
  obtain ⟨rfl, rfl⟩ := ht.of_pure
  obtain ⟨x, hadv, hsx, hxt⟩ := advance_of_moves hm (by rw [hsign]; decide)
  refine yields_currentKind (yields_ite_pos (by rw [hm.current, hsign]) ?_)
  exact (yields_of_eq hadv).bind ((h.yields_read hn (hs.moves hsx) hxt hk).bind (yields_pure _))

theorem power (h : Complete limit n b (.part .subscript e) w) : Complete limit n b (.part .power e) w :=
  fun _ _ _ hn hs hm hk _ _ ht => (h.yields_read hn hs hm hk).bind ht

theorem raise (hv : Complete limit n b (.part .power l) v) (hsign : sign.kind = .caret)
    (hw : Complete limit n b (.part .primary r) w) (he : ∀ s, (Read.raise sign l r : ParseM Expr) s = .ok e s) :
    Complete limit n b (.part .power e) (v ++ sign :: w) := by
  refine hv.turn (by rw [hsign]; decide) (by rw [hsign]; rfl) ?_
  intro m x y t e' u hn hx hadv hy hyt hk ht
  refine Yields.turn (yields_state (yields_ite_pos ?_ ?_))
  · rw [ParserState.level, hx]
    exact standardLevel_power.2 hsign
  · exact (yields_of_eq hadv).bind ((hw.yields_read hn hy hyt rfl).bind ((yields_of_eq (he t)).bind ht))

theorem subscript (h : Complete limit n b (.part .primary e) w) : Complete limit n b (.part .subscript e) w :=
  fun _ _ _ hn hs hm hk _ _ ht => (h.yields_read hn hs hm hk).bind ht

theorem indexed {es : List Expr} (hv : Complete limit n b (.part .subscript l) v) (hsign : sign.kind = .underscore)
    (hw : Complete limit n b (.index es) w) :
    Complete limit n b (.part .subscript (.accessor l es)) (v ++ sign :: w) := by
  refine hv.turn (by rw [hsign]; decide) rfl ?_
  intro m x y t e' u hn hx hadv hy hyt _ ht
  refine Yields.turn (yields_state (yields_ite_pos ?_ ?_))
  · rw [ParserState.level, hx]
    exact standardLevel_subscript.2 hsign
  · exact (yields_of_eq hadv).bind ((hw m y t hn hy hyt).bind ht)

theorem assignment (hv : Complete limit (n + 1) b (.part .primary (.symbol name)) v) {kind : Kind}
    (hkind : headKind? v = some kind) (hbare : kind.isBareSymbol = true) (hsign : sign.kind = .assign)
    (hw : Complete limit n b (.part .comparison e) w) :
    Complete limit (n + 1) b (.part .comparison (.assignment name e)) (v ++ sign :: w) := by
  intro m s t hn hs hm hk e' u ht
  obtain ⟨rfl, rfl⟩ := ht.of_pure
  obtain ⟨x, hsx, hxt⟩ := hm.split
  have hx := hxt.current
  obtain ⟨y, hadv, hxy, hyt⟩ := advance_of_moves hxt (by rw [hsign]; decide)
  have hyw := (hs.moves hsx).moves hxy
  have hprod : kind.production?.isSome = true := by
    revert hbare
    cases kind <;> decide
  have hleft := (((hv.subscript).power.factor hkind hprod).term).expression
  refine yields_current ((hleft.yields_read hn hs hsx ?_).bind ?_)
  · rw [hx, hsign]
    exact continues_of_separator (by decide)
  refine yields_currentKind (yields_ite_pos (by rw [hx, hsign]) ?_)
  refine Yields.bind (t := x) (a := name) (yields_of_eq ?_) ((yields_of_eq hadv).bind (Yields.bind ?_ (yields_pure _)))
  · unfold Read.assignmentTarget
    rw [hsx.current_kind hkind, hbare]
    rfl
  · have hroom : y.depth < limit := hyw.depth_lt (by omega)
    obtain ⟨j, rfl, hj⟩ := hyw.deeper hroom
    refine yields_nested hroom hyt.depth ?_
    exact hw.yields_read (by omega) hj (hyt.withDepth _) hk

/-! ### Groupings -/

theorem value {allowed : Bool} (h : Complete limit n b (.part .comparison e) w) :
    Complete limit n b (.list allowed [e]) w := by
  intro m s t hn hs hm hk hc
  refine (h.yields_read hn hs hm hk).bind (Yields.bind ?_ (yields_pure _))
  exact Yields.turn (yields_current (yields_ite_neg hc (yields_pure _)))

theorem values {es : List Expr} (hv : Complete limit n b (.part .comparison e) v) (hsign : sign.kind = .comma)
    (hw : Complete limit n b (.list true es) w) : Complete limit n b (.list true (e :: es)) (v ++ sign :: w) := by
  intro m s t hn hs hm hk hc
  obtain ⟨x, hsx, hxt⟩ := hm.split
  have hx := hxt.current
  obtain ⟨y, hadv, hxy, hyt⟩ := advance_of_moves hxt (by rw [hsign]; decide)
  have hrest := hw m y t hn ((hs.moves hsx).moves hxy) hyt hk hc
  refine (hv.yields_read hn hs hsx ?_).bind (Yields.bind ?_ (yields_pure _))
  · rw [hx, hsign]
    exact continues_of_closer (by decide)
  · refine Yields.turn (yields_current (yields_ite_pos (by rw [hx, hsign]) ?_))
    refine Yields.bind (t := x) (a := ()) (yields_of_eq rfl) ((yields_of_eq hadv).bind hrest)

theorem yields_enclose (opening : Token) (es : List Expr) :
    Yields (fun _ _ => Read.enclose opening es) s (enclosed opening.kind es) s := by
  unfold Read.enclose enclosed
  by_cases hk : opening.kind = .bar
  · rw [if_pos hk, if_pos hk]
    exact (yields_operationOf (by rw [hk]; rfl)).bind (yields_pure _)
  · rw [if_neg hk, if_neg hk]
    exact yields_pure _

theorem bare {allowList : Bool} {es : List Expr} {opening closing : Token}
    (hc : opening.kind.closing? = some closing.kind)
    (h : Complete limit n (opening.kind == .bar) (.list (opening.kind == .openParen && allowList) es) w) :
    Complete limit n b (.group allowList (enclosed opening.kind es)) (opening :: (w ++ [closing])) := by
  intro m s t hn hs hm
  have hne := closing?_ne_eof hc
  obtain ⟨x, hadv, hsx, hxt⟩ := advance_of_moves hm hne.1
  obtain ⟨y, hxy, hyt⟩ := hxt.split
  obtain ⟨z, hadv', hyz, hzt⟩ := advance_of_moves hyt hne.2
  obtain rfl := hzt.unique (Moves.refl z)
  have hin := (hs.moves hsx).inside opening none
  rw [Option.isNone_none, Bool.and_true] at hin
  have hfollow := continues_of_closing? hc
  refine Yields.bind (t := s) (a := none) (yields_of_eq ?_) (yields_current ?_)
  · show (if s.cursor.current.kind = .left then _ else _ : ParseM (Option Token)) s = _
    rw [if_neg]
    · rfl
    · rw [hm.current]
      intro hl
      rw [hl] at hc
      cases hc
  · simp only [hm.current, hc]
    refine (yields_of_eq hadv).bind (Yields.bind (t := y) (a := es) (yields_withBars hxy.openBars ?_) ?_)
    · refine h m _ _ hn hin (hxy.withBars _) ?_ ?_
      · show y.cursor.current.kind.continues _ _ = false
        rw [hyt.current]
        exact hfollow.1
      · show y.cursor.current.kind ≠ _
        rw [hyt.current]
        exact hfollow.2
    · refine Yields.bind (t := y) (a := ()) (yields_of_eq rfl) ?_
      exact (yields_expectOr (by rw [hyt.current]) hadv').bind (yields_enclose opening es)

theorem wrapped {allowList : Bool} {es : List Expr} {left opening right closing : Token} (hl : left.kind = .left)
    (hc : opening.kind.closing? = some closing.kind) (hr : right.kind = .right)
    (h : Complete limit n false (.list (opening.kind == .openParen && allowList) es) w) :
    Complete limit n b (.group allowList (enclosed opening.kind es))
      (left :: opening :: (w ++ [right, closing])) := by
  intro m s t hn hs hm
  have hne := closing?_ne_eof hc
  obtain ⟨x₀, hadv₀, hsx₀, hx₀t⟩ := advance_of_moves hm (by rw [hl]; decide)
  obtain ⟨x, hadv, hx₀x, hxt⟩ := advance_of_moves hx₀t hne.1
  obtain ⟨y, hxy, hyt⟩ := hxt.split
  obtain ⟨z, hadv', hyz, hzt⟩ := advance_of_moves hyt (by rw [hr]; decide)
  obtain ⟨z', hadv'', hzz', hz't⟩ := advance_of_moves hzt hne.2
  obtain rfl := hz't.unique (Moves.refl z')
  have hin := ((hs.moves hsx₀).moves hx₀x).inside opening (some left)
  rw [Option.isNone_some, Bool.and_false] at hin
  refine Yields.bind (t := x₀) (a := some left) ?_ (yields_current ?_)
  · show Yields (fun _ _ => Read.takeLeft) s _ _
    refine yields_currentKind (yields_ite_pos (by rw [hm.current, hl]) ?_)
    exact (yields_of_eq hadv₀).bind (yields_pure _)
  · simp only [hx₀t.current, hc]
    refine (yields_of_eq hadv).bind (Yields.bind (t := y) (a := es) (yields_withBars hxy.openBars ?_) ?_)
    · refine h m _ _ hn hin (hxy.withBars _) ?_ ?_
      · show y.cursor.current.kind.continues _ _ = false
        rw [hyt.current, hr]
        exact continues_of_closer (by decide)
      · show y.cursor.current.kind ≠ _
        rw [hyt.current, hr]
        decide
    · refine Yields.bind (t := z) (a := ()) ?_ ?_
      · exact (yields_expectOr (by rw [hyt.current, hr]) hadv').bind (yields_pure _)
      · exact (yields_expectOr (by rw [hzt.current]) hadv'').bind (yields_enclose opening es)

theorem yields_groupingValue (h : Complete limit n b (.group false [e]) w) (hn : n ≤ m) (hs : Within limit m b s)
    (hm : Moves s w t) :
    Yields (fun n k => Read.groupingValue (Production.read (.standard limit) n) k) s e t :=
  (h m s t hn hs hm).bind (yields_pure e)

theorem grouping (h : Complete limit n b (.group false [e]) w) : Complete limit n b (.part .grouping e) w := by
  intro m s t hn hs hm _ e' u ht
  obtain ⟨rfl, rfl⟩ := ht.of_pure
  exact h.yields_groupingValue hn hs hm

theorem parenthesized {es : List Expr} (ho : OpensParenthesis w) (hlen : 2 ≤ w.length)
    (h : Complete limit n b (.group true es) w) : Complete limit (n + 1) b (.argument es) w := by
  intro m s t hn hs hm
  have hw : w ≠ [] := by
    rintro rfl
    simp at hlen
  obtain ⟨found, hf, hiff⟩ := atParenthesis_eq hm hw fun _ => hlen
  refine (yields_of_eq hf).bind (yields_ite_pos (hiff.2 ho) ?_)
  have hroom : s.depth < limit := hs.depth_lt (by omega)
  obtain ⟨j, rfl, hj⟩ := hs.deeper hroom
  exact yields_nested hroom hm.depth (h j _ _ (by omega) hj (hm.withDepth _))

theorem argument (ho : ¬ OpensParenthesis w) (hw : w ≠ []) (hlen : headKind? w = some .left → 2 ≤ w.length)
    (h : Complete limit n b (.part .primary e) w) : Complete limit n b (.argument [e]) w := by
  intro m s t hn hs hm
  obtain ⟨found, hf, hiff⟩ := atParenthesis_eq hm hw hlen
  refine (yields_of_eq hf).bind (yields_ite_neg (fun hfound => ho (hiff.1 hfound)) ?_)
  exact (h.yields_read hn hs hm rfl).bind (yields_pure _)

/-! ### Subscripts -/

theorem indexName (hr : BracedRun w) (hname : BracedName name w) :
    Complete limit n b (.index [.symbol name]) w := by
  intro m s t _ _ hm
  refine yields_state (yields_ite_pos (atBracedName_of_bracedRun hm hr) ?_)
  exact (yields_of_eq (bracedName_of_moves hm hname)).bind (yields_pure _)

/-- An index is read as an argument where the parser sees no name in braces ahead. -/
theorem index {es : List Expr} (hr : ¬ BracedRun w) (hd : Derives n b (.argument es) w)
    (h : Complete limit n b (.argument es) w) : Complete limit n b (.index es) w := by
  intro m s t hn hs hm
  refine yields_state (yields_ite_neg (fun hb => hr ?_) (h m s t hn hs hm))
  obtain ⟨v, rest, ha, hv⟩ := bracedRun_of_atBracedName hb
  have ⟨opening, run, closing, heq, ho, hc, ⟨name, hspell⟩, _⟩ := hv
  rw [hm.ahead, heq, List.cons_append, List.append_assoc] at ha
  rw [hd.eq_braces ho hc hspell ha, ← heq]
  exact hv

/-! ### Primaries -/

theorem primary {p : Production} (hp : (headKind? w).bind Kind.production? = some p)
    (h : Complete limit n b (.part p e) w) : Complete limit (n + 1) b (.part .primary e) w := by
  intro m s t hn hs hm _ e' u ht
  obtain ⟨rfl, rfl⟩ := ht.of_pure
  obtain ⟨kind, hkind, hprod⟩ := Option.bind_eq_some_iff.1 hp
  have hroom : s.depth < limit := hs.depth_lt (by omega)
  obtain ⟨j, rfl, hj⟩ := hs.deeper hroom
  refine yields_currentKind ?_
  simp only [hm.current_kind hkind, Rules.standard, hprod]
  refine yields_nested hroom hm.depth (h.yields_read (by omega) hj (hm.withDepth _) ?_)
  exact continues_of_rank (rank_of_production? hprod)

theorem number {token : Token} (hk : token.kind = .number) (hd : isDecimal token.text = true) :
    Complete limit n b (.part .number (.number token.text)) [token] := by
  intro m s t hn hs hm _ e' u ht
  obtain ⟨rfl, rfl⟩ := ht.of_pure
  obtain ⟨x, hadv, -, hxt⟩ := advance_of_moves hm (by rw [hk]; decide)
  obtain rfl := hxt.unique (Moves.refl x)
  exact (yields_of_eq hadv).bind (yields_ite_pos hd (yields_pure _))

theorem letter {token : Token} (hk : token.kind ∈ [Kind.identifier, .transpose]) :
    Complete limit n b (.part .symbol (.symbol token.text)) [token] := by
  intro m s t hn hs hm _ e' u ht
  obtain ⟨rfl, rfl⟩ := ht.of_pure
  obtain ⟨x, hadv, -, hxt⟩ := advance_of_moves hm (by intro he; rw [he] at hk; simp at hk)
  obtain rfl := hxt.unique (Moves.refl x)
  refine (yields_of_eq hadv).bind (yields_ite_neg (fun hs => ?_) (yields_pure _))
  rw [hs] at hk
  simp at hk

theorem named {token : Token} (hk : token.kind = .symbol) (hname : symbolName? token.text = some name) :
    Complete limit n b (.part .symbol (.symbol name)) [token] := by
  intro m s t hn hs hm _ e' u ht
  obtain ⟨rfl, rfl⟩ := ht.of_pure
  obtain ⟨x, hadv, -, hxt⟩ := advance_of_moves hm (by rw [hk]; decide)
  obtain rfl := hxt.unique (Moves.refl x)
  refine (yields_of_eq hadv).bind (yields_ite_pos hk ?_)
  simp only [hname]
  exact yields_pure _

theorem mathrm {token : Token} (hk : token.kind = .mathrm) (hname : BracedName name w) :
    Complete limit n b (.part .mathrm (uprightMeaning name)) (token :: w) := by
  intro m s t hn hs hm _ e' u ht
  obtain ⟨rfl, rfl⟩ := ht.of_pure
  obtain ⟨x, hadv, -, hxt⟩ := advance_of_moves hm (by rw [hk]; decide)
  show Yields (fun _ _ => Read.mathrm) s _ _
  refine (yields_of_eq hadv).bind ((yields_of_eq (bracedName_of_moves hxt hname)).bind (yields_of_eq ?_))
  unfold uprightMeaning
  split
  · rfl
  · rfl
  · next htrue hfalse =>
    rw [if_neg htrue, if_neg hfalse]
    rfl

theorem mathbf (hw : w.map Token.kind = [.mathbf, .openCurly, .question, .closeCurly]) :
    Complete limit n b (.part .mathbf .undefined) w := by
  intro m s t hn hs hm _ e' u ht
  obtain ⟨rfl, rfl⟩ := ht.of_pure
  obtain ⟨token, w, rfl, hk, hw⟩ := List.map_eq_cons_iff.1 hw
  obtain ⟨opening, w, rfl, ho, hw⟩ := List.map_eq_cons_iff.1 hw
  obtain ⟨question, w, rfl, hq, hw⟩ := List.map_eq_cons_iff.1 hw
  obtain ⟨closing, w, rfl, hc, hw⟩ := List.map_eq_cons_iff.1 hw
  obtain rfl := List.map_eq_nil_iff.1 hw
  obtain ⟨x, hadv, -, hxt⟩ := advance_of_moves hm (by rw [hk]; decide)
  obtain ⟨y, hopen, -, hyt⟩ := advance_of_moves hxt (by rw [ho]; decide)
  obtain ⟨z, hquest, -, hzt⟩ := advance_of_moves hyt (by rw [hq]; decide)
  obtain ⟨z', hclose, -, hz't⟩ := advance_of_moves hzt (by rw [hc]; decide)
  obtain rfl := hz't.unique (Moves.refl z')
  show Yields (fun _ _ => Read.mathbf) s _ _
  refine (yields_of_eq hadv).bind ((yields_expectOr (by rw [hxt.current, ho]) hopen).bind ?_)
  refine (yields_expectOr (by rw [hyt.current, hq]) hquest).bind ?_
  exact (yields_expectOr (by rw [hzt.current, hc]) hclose).bind (yields_pure _)

theorem entry (h : Complete limit n b (.part .expression e) w) : Complete limit n b (.row [e]) w := by
  intro m s t hn hs hm hk ha
  refine (h.yields_read hn hs hm hk).bind (Yields.bind ?_ (yields_pure _))
  exact Yields.turn (yields_currentKind (yields_ite_neg ha (yields_pure _)))

theorem entries {es : List Expr} (hv : Complete limit n b (.part .expression e) v) (hsign : sign.kind = .ampersand)
    (hw : Complete limit n b (.row es) w) : Complete limit n b (.row (e :: es)) (v ++ sign :: w) := by
  intro m s t hn hs hm hk ha
  obtain ⟨x, hsx, hxt⟩ := hm.split
  have hx := hxt.current
  obtain ⟨y, hadv, hxy, hyt⟩ := advance_of_moves hxt (by rw [hsign]; decide)
  have hrest := hw m y t hn ((hs.moves hsx).moves hxy) hyt hk ha
  refine (hv.yields_read hn hs hsx ?_).bind (Yields.bind ?_ (yields_pure _))
  · rw [hx, hsign]
    exact continues_of_separator (by decide)
  · refine Yields.turn (yields_currentKind (yields_ite_pos (by rw [hx, hsign]) ?_))
    exact (yields_of_eq hadv).bind hrest

theorem yields_row {es : List Expr} (h : Complete limit n b (.row es) w) (hn : n ≤ m) (hs : Within limit m b s)
    (hm : Moves s w t) (hk : t.cursor.current.kind ∈ [Kind.rowBreak, .endEnv]) :
    Yields (fun n k => Read.row (Production.read (.standard limit) n) k) s (.ofEntries es) t := by
  unfold Read.row
  have hrow := Yields.bind (h m s t hn hs hm ?_ ?_) (f := fun _ _ es => pure (Row.ofEntries es)) (yields_pure _)
  · simpa only [bind_assoc, pure_bind] using hrow
  · refine continues_of_separator ?_
    revert hk
    cases Token.kind _ <;> decide
  · intro ha
    rw [ha] at hk
    simp at hk

theorem lastRow {es : List Expr} (h : Complete limit n b (.row es) w) :
    Complete limit n b (.rows [.ofEntries es]) w := by
  intro m s t hn hs hm hk opening
  refine Yields.turn ((h.yields_row hn hs hm (by rw [hk]; decide)).bind (yields_currentKind ?_))
  simp only [hk]
  exact yields_pure _

theorem yields_rowBreak {es : List Expr} {rows : List Row} {x : ParserState} {opening : Token}
    (h : Complete limit n b (.row es) w) (hn : n ≤ m) (hs : Within limit m b s) (hm : Moves s w x)
    (hsign : x.cursor.current.kind = .rowBreak)
    (hrest : Yields (fun n k => do
      let _ ← advance
      if (← currentKind) = .endEnv then return [Row.ofEntries es]
      else return .ofEntries es :: (← Read.rows (Production.read (.standard limit) n) opening k)) x rows t) :
    Yields (fun n k => Read.rows (Production.read (.standard limit) n) opening k) s rows t := by
  refine Yields.turn ((h.yields_row hn hs hm (by rw [hsign]; decide)).bind (yields_currentKind ?_))
  simp only [hsign]
  exact hrest

theorem brokenRow {es : List Expr} (h : Complete limit n b (.row es) w) (hsign : sign.kind = .rowBreak) :
    Complete limit n b (.rows [.ofEntries es]) (w ++ [sign]) := by
  intro m s t hn hs hm hk opening
  obtain ⟨x, hsx, hxt⟩ := hm.split
  obtain ⟨y, hadv, -, hyt⟩ := advance_of_moves hxt (by rw [hsign]; decide)
  obtain rfl := hyt.unique (Moves.refl y)
  refine h.yields_rowBreak hn hs hsx (by rw [hxt.current, hsign]) ?_
  exact (yields_of_eq hadv).bind (yields_currentKind (yields_ite_pos hk (yields_pure _)))

theorem nextRow {es : List Expr} {rows : List Row} (hv : Complete limit n b (.row es) v)
    (hsign : sign.kind = .rowBreak) (hd : Derives n b (.rows rows) w) (hw : Complete limit n b (.rows rows) w) :
    Complete limit n b (.rows (.ofEntries es :: rows)) (v ++ sign :: w) := by
  intro m s t hn hs hm hk opening
  obtain ⟨x, hsx, hxt⟩ := hm.split
  obtain ⟨y, hadv, hxy, hyt⟩ := advance_of_moves hxt (by rw [hsign]; decide)
  have hrest := hw m y t hn ((hs.moves hsx).moves hxy) hyt hk opening
  refine hv.yields_rowBreak hn hs hsx (by rw [hxt.current, hsign]) ?_
  refine (yields_of_eq hadv).bind (yields_currentKind (yields_ite_neg (fun he => ?_) (hrest.bind (yields_pure _))))
  exact hd.headKind?_ne_endEnv (by rw [hyt.headKind? hd.ne_nil, he])

theorem matrix {rows : List Row} {u : List Token} {opening closing : Token} (ho : opening.kind = .beginEnv)
    (hu : EnvironmentName u) (h : Complete limit n false (.rows rows) v) (hc : closing.kind = .endEnv)
    (hw : EnvironmentName w) :
    Complete limit n b (.part .matrix (.matrix rows)) (opening :: (u ++ (v ++ closing :: w))) := by
  intro m s t hn hs hm _ e' u' ht
  obtain ⟨rfl, rfl⟩ := ht.of_pure
  obtain ⟨x, hadv, hsx, hxt⟩ := advance_of_moves hm (by rw [ho]; decide)
  obtain ⟨y, hxy, hyt⟩ := hxt.split
  obtain ⟨z, hyz, hzt⟩ := hyt.split
  obtain ⟨z', hclose, -, hz't⟩ := advance_of_moves hzt (by rw [hc]; decide)
  refine (yields_of_eq hadv).bind ((yields_of_eq (environmentName_of_moves hxy hu)).bind ?_)
  refine Yields.bind (t := z) (a := rows) (yields_withBars hyz.openBars ?_) ?_
  · have hin : Within limit m false { y with openBars := 0 } := ⟨((hs.moves hsx).moves hxy).levels, rfl⟩
    exact h m _ _ hn hin (hyz.withBars 0) (by rw [hzt.current, hc]) opening
  · refine (yields_expectOr (by rw [hzt.current, hc]) hclose).bind ?_
    exact (yields_of_eq (environmentName_of_moves hz't hw)).bind (yields_pure _)

/-! ### Fractions and functions -/

theorem yields_frac {x y z : ParserState} (hadv : advance s = .ok sign x) (ho : sign.kind.operation? = some name)
    (hv : headKind? v = some .openCurly) (hl : Complete limit n b (.group false [l]) v) (hn : n ≤ m)
    (hx : Within limit m b x) (hxy : Moves x v y)
    (hr : Yields (fun n k => Read.denominator (Production.read (.standard limit) n) k) y r z) :
    Yields (fun n k => Read.frac (Production.read (.standard limit) n) k) s (.binary name l r false) z := by
  refine (yields_of_eq hadv).bind (Yields.bind (t := x) (a := ()) (yields_of_eq ?_) ?_)
  · show demand .openCurly x = _
    rw [demand, demandOr_eq, if_pos (hxy.current_kind hv)]
  · exact (hl.yields_groupingValue hn hx hxy).bind (hr.bind ((yields_operationOf ho).bind (yields_pure _)))

theorem fraction (hk : sign.kind = .frac) (ho : sign.kind.operation? = some name)
    (hv : headKind? v = some .openCurly) (hl : Complete limit n b (.group false [l]) v)
    (hw : headKind? w = some .openCurly) (hr : Complete limit n b (.group false [r]) w) :
    Complete limit n b (.part .frac (.binary name l r false)) (sign :: (v ++ w)) := by
  intro m s t hn hs hm _ e' u ht
  obtain ⟨rfl, rfl⟩ := ht.of_pure
  obtain ⟨x, hadv, hsx, hxt⟩ := advance_of_moves hm (by rw [hk]; decide)
  obtain ⟨y, hxy, hyt⟩ := hxt.split
  have hx := hs.moves hsx
  refine yields_frac hadv ho hv hl hn hx hxy (yields_currentKind (yields_ite_pos (hyt.current_kind hw) ?_))
  exact hr.yields_groupingValue hn (hx.moves hxy) hyt

theorem shortFraction (hk : sign.kind = .frac) (ho : sign.kind.operation? = some name)
    (hv : headKind? v = some .openCurly) (hl : Complete limit n b (.group false [l]) v) (hne : w ≠ [])
    (hw : headKind? w ≠ some .openCurly) (hr : Complete limit n b (.part .primary r) w) :
    Complete limit n b (.part .frac (.binary name l r false)) (sign :: (v ++ w)) := by
  intro m s t hn hs hm _ e' u ht
  obtain ⟨rfl, rfl⟩ := ht.of_pure
  obtain ⟨x, hadv, hsx, hxt⟩ := advance_of_moves hm (by rw [hk]; decide)
  obtain ⟨y, hxy, hyt⟩ := hxt.split
  have hx := hs.moves hsx
  refine yields_frac hadv ho hv hl hn hx hxy (yields_currentKind (yields_ite_neg (fun hc => hw ?_) ?_))
  · rw [hyt.headKind? hne, hc]
  · exact hr.yields_read hn (hx.moves hxy) hyt rfl

theorem function {es : List Expr} {token : Token} (hf : token.kind.isFunction = true)
    (ho : token.kind.operation? = some name) (hd : Derives n b (.argument es) w)
    (h : Complete limit n b (.argument es) w) :
    Complete limit n b (.part .function (.call name es)) (token :: w) := by
  intro m s t hn hs hm _ e' u ht
  obtain ⟨rfl, rfl⟩ := ht.of_pure
  obtain ⟨x, hadv, hsx, hxt⟩ := advance_of_moves hm (by intro he; rw [he] at hf; cases hf)
  refine (yields_of_eq hadv).bind ((yields_operationOf ho).bind ?_)
  refine Yields.bind (t := x) (a := []) (yields_currentKind (yields_ite_neg ?_ (yields_pure _))) ?_
  · rintro ⟨-, hu⟩
    obtain ⟨kind, hkind, hprod⟩ := hd.exists_headKind?_of_argument
    rw [← hxt.current_kind hkind, hu] at hprod
    cases hprod
  · refine (h m x _ hn (hs.moves hsx) hxt).bind ?_
    rw [List.append_nil]
    exact yields_pure _

theorem logarithm {base : Expr} {es : List Expr} {token : Token} (hk : token.kind = .log)
    (ho : token.kind.operation? = some name) (hsign : sign.kind = .underscore)
    (hv : Complete limit n b (.part .primary base) v) (hw : Complete limit n b (.argument es) w) :
    Complete limit n b (.part .function (.call name (es ++ [base]))) (token :: sign :: (v ++ w)) := by
  intro m s t hn hs hm _ e' u ht
  obtain ⟨rfl, rfl⟩ := ht.of_pure
  obtain ⟨x, hadv, hsx, hxt⟩ := advance_of_moves hm (by rw [hk]; decide)
  obtain ⟨y, hadv', hxy, hyt⟩ := advance_of_moves hxt (by rw [hsign]; decide)
  obtain ⟨z, hyz, hzt⟩ := hyt.split
  have hy := (hs.moves hsx).moves hxy
  refine (yields_of_eq hadv).bind ((yields_operationOf ho).bind ?_)
  refine Yields.bind (t := z) (a := [base]) (yields_currentKind (yields_ite_pos ?_ ?_)) ?_
  · exact ⟨hk, by rw [hxt.current, hsign]⟩
  · exact (yields_of_eq hadv').bind ((hv.yields_read hn hy hyz rfl).bind (yields_pure _))
  · exact (hw m z _ hn (hy.moves hyz) hzt).bind (yields_pure _)

theorem operatorname {es : List Expr} {token : Token} (hk : token.kind = .operatorname)
    (hname : BracedName name v) (h : Complete limit n b (.argument es) w) :
    Complete limit n b (.part .operatorname (.call name es)) (token :: (v ++ w)) := by
  intro m s t hn hs hm _ e' u ht
  obtain ⟨rfl, rfl⟩ := ht.of_pure
  obtain ⟨x, hadv, hsx, hxt⟩ := advance_of_moves hm (by rw [hk]; decide)
  obtain ⟨y, hxy, hyt⟩ := hxt.split
  refine (yields_of_eq hadv).bind ((yields_of_eq (bracedName_of_moves hxy hname)).bind ?_)
  exact (h m y _ hn ((hs.moves hsx).moves hxy) hyt).bind (yields_pure _)

end Complete

/-- Every word of the grammar is read with its meaning. -/
theorem Derives.complete {limit n : Nat} {b : Bool} {r : Reading} {w : List Token} (h : Derives n b r w) :
    Complete limit n b r w := by
  induction h with
  | comparison _ ih => exact ih.comparison
  | relation _ hc ho _ ihv ihw => exact ihv.relation hc ho ihw
  | assignment _ hv hk _ ihv ihw =>
    obtain ⟨kind, hkind, hbare⟩ := (Option.any_eq_true _ _).1 hv
    exact ihv.assignment hkind hbare hk ihw
  | expression _ ih => exact ih.expression
  | sum _ hk ho _ ihv ihw => exact ihv.sum hk ho ihw
  | term _ ih => exact ih.term
  | times _ hk ho _ ihv ihw => exact ihv.times hk ho ihw
  | neighbours hv hw hb hnum ihv ihw =>
    obtain ⟨kind, hkind, hprod⟩ := hw.exists_headKind? (.inl rfl)
    refine ihv.neighbours hv.ne_nil ihw hkind ?_ hnum
    rw [Kind.startsOperand, hprod, Bool.true_and, Bool.not_eq_true', ← Bool.not_eq_true, Bool.and_eq_true, beq_iff_eq]
    rintro ⟨rfl, hb'⟩
    exact hb ⟨hb', hkind⟩
  | factor h ih =>
    obtain ⟨kind, hkind, hprod⟩ := h.exists_headKind? (.inl rfl)
    exact ih.factor hkind hprod
  | minus hk _ ih => exact ih.minus hk
  | power _ ih => exact ih.power
  | raised _ hk ho _ hne ihv ihw =>
    refine ihv.raise hk ihw fun s => ?_
    unfold Read.raise
    rw [if_neg (mt Expr.asSymbol?_eq_some_iff.1 hne), operationOf, ho]
    rfl
  | transposed _ hk _ ihv ihw => exact ihv.raise hk ihw fun _ => rfl
  | subscript _ ih => exact ih.subscript
  | indexed _ hk _ ihv ihw => exact ihv.indexed hk ihw
  | indexName hr hn => exact .indexName hr hn
  | index hr h ih => exact ih.index hr h
  | parenthesized ho h ih => exact ih.parenthesized ho h.two_le_length_of_group
  | argument ho h ih => exact ih.argument ho h.ne_nil h.two_le_length_of_left
  | primary hp h ih => exact ih.primary (h.bind_headKind? hp)
  | number hk hd => exact .number hk hd
  | letter hk => exact .letter hk
  | named hk hn => exact .named hk hn
  | mathrm hk hn => exact .mathrm hk hn
  | mathbf hw => exact .mathbf hw
  | grouping _ ih => exact ih.grouping
  | bare ho _ ih => exact ih.bare ho
  | wrapped hl ho hr _ ih => exact ih.wrapped hl ho hr
  | value _ ih => exact ih.value
  | values _ hk _ ihv ihw => exact ihv.values hk ihw
  | matrix ho hu _ hc hw ih => exact ih.matrix ho hu hc hw
  | entry _ ih => exact ih.entry
  | entries _ hk _ ihv ihw => exact ihv.entries hk ihw
  | lastRow _ ih => exact ih.lastRow
  | brokenRow _ hk ih => exact ih.brokenRow hk
  | nextRow _ hk h ihv ihw => exact ihv.nextRow hk h ihw
  | fraction hk ho hv _ hw _ ihv ihw => exact .fraction hk ho hv ihv hw ihw
  | shortFraction hk ho hv _ hw h ihv ihw => exact .shortFraction hk ho hv ihv h.ne_nil hw ihw
  | function hf ho h ih => exact .function hf ho h ih
  | logarithm hk ho hs _ _ ihv ihw => exact .logarithm hk ho hs ihv ihw
  | operatorname hk hn _ ih => exact .operatorname hk hn ih

/-! ## Whole streams -/

/-- The parser can pass everything before the first end, and then stands at an end. -/
theorem exists_moves_beforeEnd (s : ParserState) :
    ∃ t, Moves s (beforeEnd s.cursor.ahead) t ∧ t.cursor.current.kind = .eof := by
  have hsplit := List.takeWhile_append_dropWhile (p := fun token : Token => token.kind != .eof) (l := s.cursor.ahead)
  refine ⟨⟨⟨(beforeEnd s.cursor.ahead).reverse ++ s.cursor.passed,
    s.cursor.ahead.dropWhile fun token => token.kind != .eof, s.cursor.stop⟩, s.depth, s.openBars⟩,
    ⟨rfl, hsplit.symm, rfl, rfl, rfl⟩, ?_⟩
  have hfirst := List.head?_dropWhile_not (fun token : Token => token.kind != .eof) s.cursor.ahead
  unfold Cursor.current Cursor.peek
  rw [← List.head?_eq_getElem?]
  cases hd : (s.cursor.ahead.dropWhile fun token => token.kind != .eof).head? with
  | none => rfl
  | some token => simpa [hd] using hfirst

theorem parseTokens_of_beforeEnd {n limit : Nat} {tokens : List Token} {e : Expr}
    (h : Derives n false (.part .comparison e) (beforeEnd tokens)) (hn : n ≤ limit) :
    parseTokens limit tokens = .ok e := by
  rw [← beforeEnd_ahead] at h
  obtain ⟨t, ht, hk⟩ := exists_moves_beforeEnd (.ofTokens tokens)
  have hs : Within limit limit false (ParserState.ofTokens tokens) := ⟨Nat.zero_add limit, rfl⟩
  obtain ⟨bound, hread⟩ := h.complete.yields_read hn hs ht (by rw [hk]; exact continues_of_closer (by decide))
  have hrun : Production.run (.standard limit) .comparison (.ofTokens tokens) = .ok e t :=
    run_eq_of_read (by intro hp; cases hp) fun steps hsteps => hread steps bound hsteps (Nat.le_refl bound)
  refine settled_eq_ok_iff.2 ⟨t, bind_eq_ok_iff.2 ⟨e, t, hrun, ?_⟩⟩
  show (if t.cursor.current.kind = .eof then pure e else unexpected : ParseM Expr) t = _
  rw [if_pos hk]
  rfl

/--
Every comparison, closed by an end, is accepted with its meaning wherever its levels are allowed; and
it has no other meaning.
-/
theorem parseTokens_of_derives {n limit : Nat} {w : List Token} {e : Expr} {mark : Token}
    (h : Derives n false (.part .comparison e) w) (hn : n ≤ limit) (hmark : mark.kind = .eof) :
    parseTokens limit (w ++ [mark]) = .ok e ∧
      ∀ m e', Derives m false (.part .comparison e') w → e' = e := by
  have hw : beforeEnd (w ++ [mark]) = w := by
    rw [beforeEnd_append h.kind_ne_eof, show beforeEnd [mark] = [] from beforeEnd_append_end hmark [] [],
      List.append_nil]
  rw [← hw] at h
  refine ⟨parseTokens_of_beforeEnd h hn, fun m e' h' => ?_⟩
  rw [← hw] at h'
  -- With a limit that is large enough for both, the parser finds the two meanings in one run.
  have heq := parseTokens_of_beforeEnd h (Nat.le_max_left n m)
  rw [parseTokens_of_beforeEnd h' (Nat.le_max_right n m)] at heq
  exact Except.ok.inj heq

/-- The tokens of `x^T|2|`, which nest two levels. -/
theorem parseTokens_of_derives_bars :
    let w : List Token := [⟨.identifier, "x", .ofBytes 0 1⟩, ⟨.caret, "^", .ofBytes 1 1⟩,
      ⟨.transpose, "T", .ofBytes 2 1⟩, ⟨.bar, "|", .ofBytes 3 1⟩, ⟨.number, "2", .ofBytes 4 1⟩,
      ⟨.bar, "|", .ofBytes 5 1⟩]
    let e := Expr.product (.transpose (.symbol "x")) (.call "abs" [.number "2"])
    Derives 2 false (.part .comparison e) w ∧ parseTokens 5 (w ++ [.endOfInput (.ofOffset 6)]) = .ok e ∧
      ∀ m e', Derives m false (.part .comparison e') w → e' = e := by
  intro w e
  have hx : Derives 2 false (.part .primary (.symbol "x")) [⟨.identifier, "x", .ofBytes 0 1⟩] :=
    .primary (by decide) (@Derives.letter _ _ ⟨.identifier, "x", _⟩ (by decide))
  have ht : Derives 2 false (.part .primary (.symbol "T")) [⟨.transpose, "T", .ofBytes 2 1⟩] :=
    .primary (by decide) (@Derives.letter _ _ ⟨.transpose, "T", _⟩ (by decide))
  have htwo : Derives 1 true (.part .primary (.number "2")) [⟨.number, "2", .ofBytes 4 1⟩] :=
    .primary (by decide) (@Derives.number _ _ ⟨.number, "2", _⟩ rfl rfl)
  have hpower : Derives 2 false (.part .power (.transpose (.symbol "x"))) (w.take 3) :=
    .transposed (.power (.subscript hx)) rfl ht
  have hbars : Derives 1 false (.group false [.call "abs" [.number "2"]]) (w.drop 3) :=
    @Derives.bare _ _ _ [.number "2"] [_] ⟨.bar, "|", _⟩ ⟨.bar, "|", _⟩ rfl
      (.value (.comparison (.expression (.term (.factor (.power (.subscript htwo)))))))
  have h : Derives 2 false (.part .comparison e) w := by
    refine .comparison (.expression (.neighbours (.term (.factor hpower))
      (.power (.subscript (.primary (by decide) (.grouping hbars)))) ?_ ?_))
    · decide
    · decide
  exact ⟨h, parseTokens_of_derives h (by decide) rfl⟩

end TexFormula

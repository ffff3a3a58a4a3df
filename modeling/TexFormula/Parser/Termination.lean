import TexFormula.Parser.Run

/-!
# Readings come to an end

Under the rules of the grammar no reading is exhausted, however many levels it may nest: between two
moments at which a token is passed, only so many productions can be entered. All that this takes of the
rules is that nothing starts at the end of the input, and that a primary is read by one of the nine
productions for it.

* `Settles` : a run is not exhausted, and what holds if it succeeds;
* `Uses k m s` : the run `m` settles from `s` on, and passes at least `k` tokens if it succeeds;
* `Rules.Grounded` : what is asked of the rules;
* `Reaches n again` : every production settles and passes a token, if the tokens ahead are few enough
  for `n` steps; `reaches_read` is this for `Production.read`;
* `settles_wholeInput` : reading a whole stream settles.
-/

namespace TexFormula

open ParseM

/-! ## Runs that settle -/

/-- The run is not exhausted, and if it succeeds, `Q` holds of its result and of what it leaves. -/
def Settles {α : Type} (result : EStateM.Result Halt ParserState α) (Q : α → ParserState → Prop) : Prop :=
  match result with
  | .ok value state => Q value state
  | .error (.rejected _) _ => True
  | .error .exhausted _ => False

section
variable {α β : Type} {s : ParserState}

theorem Settles.mono {r : EStateM.Result Halt ParserState α} {Q Q' : α → ParserState → Prop}
    (h : Settles r Q) (hq : ∀ a t, Q a t → Q' a t) : Settles r Q' := by
  match r, h with
  | .ok a t, h => exact hq a t h
  | .error (.rejected _) _, _ => exact trivial
  | .error .exhausted _, h => exact h

theorem Settles.bind {m : ParseM α} {f : α → ParseM β} {Q : α → ParserState → Prop}
    {Q' : β → ParserState → Prop} (hm : Settles (m s) Q) (hf : ∀ a t, Q a t → Settles (f a t) Q') :
    Settles ((m >>= f) s) Q' := by
  show Settles (EStateM.bind m f s) Q'
  unfold EStateM.bind
  generalize m s = r at hm
  match r, hm with
  | .ok a t, hm => exact hf a t hm
  | .error (.rejected _) _, _ => exact trivial
  | .error .exhausted _, hm => exact hm

/-! ## Runs that use up tokens -/

def ParserState.remaining (state : ParserState) : Nat := state.cursor.ahead.length

/-- The run settles, and if it succeeds, at least `least` tokens fewer are ahead. -/
def Uses (least : Nat) (m : ParseM α) (s : ParserState) : Prop :=
  Settles (m s) fun _ t => t.remaining + least ≤ s.remaining

theorem Uses.bind {a b c : Nat} {m : ParseM α} {f : α → ParseM β} (hm : Uses a m s)
    (hf : ∀ x t, t.remaining + a ≤ s.remaining → Uses b (f x) t) (hc : c ≤ a + b) : Uses c (m >>= f) s :=
  Settles.bind hm fun x t ht => (hf x t ht).mono fun _ u hu => by omega

theorem Uses.mono {a b : Nat} {m : ParseM α} (h : Uses a m s) (hb : b ≤ a) : Uses b m s :=
  Settles.mono h fun _ _ ht => by omega

theorem uses_pure (a : α) : Uses 0 (pure a : ParseM α) s := Nat.le_refl _

theorem uses_reject (k : Nat) (fault : SyntaxFault) (token : Token) :
    Uses k (reject fault token : ParseM α) s := trivial

theorem uses_unexpected (k : Nat) : Uses k (unexpected : ParseM α) s := trivial

theorem uses_get {k : Nat} {f : ParserState → ParseM β} (h : Uses k (f s) s) : Uses k (get >>= f) s := h

theorem uses_current {k : Nat} {f : Token → ParseM β} (h : Uses k (f s.cursor.current) s) :
    Uses k (current >>= f) s := h

theorem uses_currentKind {k : Nat} {f : Kind → ParseM β} (h : Uses k (f s.cursor.current.kind) s) :
    Uses k (currentKind >>= f) s := h

theorem uses_advance : Uses 0 advance s := s.cursor.length_ahead_advance_le

theorem uses_advance_of_ne (h : s.cursor.current.kind ≠ .eof) : Uses 1 advance s :=
  Cursor.length_ahead_advance_lt h

theorem uses_refuseIf (refused : Bool) (fault : SyntaxFault) (token : Token) :
    Uses 0 (refuseIf refused fault token) s := by
  cases refused
  · exact uses_pure ()
  · exact uses_reject 0 fault token

theorem settles_demandOr (kind : Kind) (fault : Token → SyntaxFault) :
    Settles (demandOr kind fault s) fun _ t => t = s ∧ s.cursor.current.kind = kind := by
  rw [demandOr_eq]
  split
  · next hk => exact ⟨rfl, hk⟩
  · exact trivial

theorem uses_demand (kind : Kind) : Uses 0 (demand kind) s :=
  (settles_demandOr kind _).mono fun _ _ h => Nat.le_of_eq (by rw [h.1]; rfl)

theorem uses_expectOr {kind : Kind} (hk : kind ≠ .eof) (fault : Token → SyntaxFault) :
    Uses 1 (expectOr kind fault) s := by
  refine (settles_demandOr kind fault).bind ?_
  rintro _ _ ⟨rfl, h⟩
  exact uses_advance_of_ne (h ▸ hk)

theorem uses_expect {kind : Kind} (hk : kind ≠ .eof) : Uses 1 (expect kind) s := uses_expectOr hk _

theorem uses_close {kind : Kind} (hk : kind ≠ .eof) (opened : Token) : Uses 1 (close opened kind) s :=
  uses_expectOr hk _

theorem uses_operationOf (token : Token) : Uses 0 (operationOf token) s := by
  unfold operationOf
  split
  · exact uses_pure _
  · exact uses_reject _ _ _

theorem uses_nested {k limit : Nat} {m : ParseM α} (h : ∀ d, Uses k m { s with depth := d }) :
    Uses k (nested limit m) s := by
  refine Settles.bind (Q := fun _ t => t = { s with depth := s.depth + 1 }) ?_ ?_
  · rw [enter_eq]
    split
    · exact trivial
    · exact rfl
  · rintro _ _ rfl
    exact Settles.bind (h _) fun a t ht => ht

theorem uses_withBars {k : Nat} {bars : Nat → Nat} {m : ParseM α}
    (h : ∀ b, Uses k m { s with openBars := b }) : Uses k (withBars bars m) s :=
  Settles.bind (m := m) (s := { s with openBars := bars s.openBars }) (h _) fun _ _ ht => ht

/-! ## Names -/

theorem Cursor.length_ahead_advanceBy_le (n : Nat) (cursor : Cursor) :
    (cursor.advanceBy n).ahead.length ≤ cursor.ahead.length := by
  induction n generalizing cursor with
  | zero => exact Nat.le_refl _
  | succ n ih => exact Nat.le_trans (ih _) cursor.length_ahead_advance_le

theorem uses_takeName : Uses 0 takeName s := s.cursor.length_ahead_advanceBy_le _

theorem uses_refuseName (refused : Bool) : Uses 0 (refuseName refused) s :=
  uses_current (uses_refuseIf _ _ _)

theorem uses_bracedName : Uses 2 bracedName s := by
  refine (uses_expect (by decide)).bind (b := 1) (fun _ _ _ => uses_currentKind ?_) (by decide)
  refine (uses_refuseName _).bind (b := 1) (fun _ _ _ => ?_) (by decide)
  refine uses_takeName.bind (b := 1) (fun _ _ _ => ?_) (by decide)
  refine (uses_refuseName _).bind (b := 1) (fun _ _ _ => ?_) (by decide)
  exact (uses_expect (by decide)).bind (fun _ _ _ => uses_pure _) (by decide)

theorem uses_environmentName : Uses 3 environmentName s := by
  refine (uses_expect (by decide)).bind (b := 2) (fun _ _ _ => uses_get ?_) (by decide)
  refine (uses_expectOr (by decide) _).bind (b := 1) (fun _ _ _ => ?_) (by decide)
  exact (uses_expect (by decide)).bind (fun _ _ _ => uses_pure _) (by decide)

end

/-! ## Productions -/

/-- How many productions can be entered, one from the other, before a token is passed. -/
def Production.rank : Production → Nat
  | .comparison => 8
  | .expression => 7
  | .term => 6
  | .factor => 5
  | .power => 4
  | .subscript => 3
  | .primary => 2
  | _ => 1

/-- The end of the input is no operator and starts nothing, and primaries are read by productions of rank 1. -/
structure Rules.Grounded (rules : Rules) : Prop where
  level_eof : rules.level .eof = .default
  primary?_eof : rules.primary? .eof = none
  rank_of_primary? {kind : Kind} {p : Production} : rules.primary? kind = some p → p.rank = 1

theorem Rules.grounded_bare (limit : Nat) : (bare limit).Grounded := ⟨rfl, rfl, nofun⟩

theorem rank_of_production? {kind : Kind} {p : Production} (h : kind.production? = some p) : p.rank = 1 := by
  cases kind <;> cases h <;> rfl

theorem Rules.grounded_standard (limit : Nat) : (standard limit).Grounded := ⟨rfl, rfl, rank_of_production?⟩

section
variable {rules : Rules} {s : ParserState}

theorem Rules.Grounded.ne_eof_of_level (hr : rules.Grounded) {level : Level} (h : s.level rules = level)
    (hl : level ≠ .default) : s.cursor.current.kind ≠ .eof := by
  intro he
  rw [ParserState.level, he, hr.level_eof] at h
  exact hl h.symm

theorem Rules.Grounded.ne_eof_of_primary? (hr : rules.Grounded) {p : Production}
    (h : rules.primary? s.cursor.current.kind = some p) : s.cursor.current.kind ≠ .eof := by
  intro he
  rw [he, hr.primary?_eof] at h
  cases h

end

/--
Every production settles and passes a token, if the tokens ahead are few enough for `n` steps. The
productions of rank 1 read a primary, and are asked only where there is a token to pass.
-/
def Reaches (n : Nat) (again : Production → ParseM Expr) : Prop :=
  ∀ p s, (p.rank = 1 → s.cursor.current.kind ≠ .eof) → 8 * s.remaining + p.rank ≤ n → Uses 1 (again p) s

namespace Reaches

variable {n : Nat} {again : Production → ParseM Expr} {s : ParserState} {rules : Rules}

theorem uses_again (h : Reaches n again) {p : Production} (hp : p.rank ≠ 1) (hn : 8 * s.remaining + p.rank ≤ n) :
    Uses 1 (again p) s := h p s (fun h1 => absurd h1 hp) hn

theorem uses_comparison (h : Reaches n again) (hn : 8 * s.remaining + 7 ≤ n) :
    Uses 1 (Read.comparison rules again) s := by
  refine uses_current ((h.uses_again (p := .expression) (by decide) hn).bind (b := 0) (fun left t ht => ?_) (by decide))
  refine uses_currentKind ?_
  split
  · next hk =>
    unfold Read.assignment
    refine Uses.bind (a := 0) (b := 0) ?_ (fun _ u hu => ?_) (by decide)
    · unfold Read.assignmentTarget
      split
      · exact uses_pure _
      · exact uses_reject _ _ _
    · refine uses_advance.bind (b := 0) (fun _ v hv => ?_) (by decide)
      refine (uses_nested (k := 0) fun d => ?_).bind (fun _ _ _ => uses_pure _) (by decide)
      refine (h.uses_again (p := .comparison) (by decide) ?_).mono (by decide)
      show 8 * v.remaining + 8 ≤ n
      omega
  · refine uses_get ?_
    split
    · refine uses_advance.bind (b := 0) (fun _ v hv => ?_) (by decide)
      refine (h.uses_again (p := .expression) (by decide) ?_).bind (b := 0) (fun _ _ _ => ?_) (by decide)
      · show 8 * v.remaining + 7 ≤ n
        omega
      · exact (uses_operationOf _).bind (fun _ _ _ => uses_pure _) (by decide)
    · exact uses_pure _

theorem uses_sumTail (h : Reaches n again) (hr : rules.Grounded) (steps : Nat) (left : Expr)
    (hs : s.remaining < steps) (hn : 8 * s.remaining ≤ n + 2) : Uses 0 (Read.sumTail rules again steps left) s := by
  induction steps generalizing left s with
  | zero => omega
  | succ steps ih =>
    refine uses_get ?_
    split
    · next hl =>
      refine (uses_advance_of_ne (hr.ne_eof_of_level hl (by decide))).bind (b := 0) (fun _ t ht => ?_) (by decide)
      refine (h.uses_again (p := .term) (by decide) ?_).bind (b := 0) (fun _ u hu => ?_) (by decide)
      · show 8 * t.remaining + 6 ≤ n
        omega
      · exact (uses_operationOf _).bind (b := 0) (fun _ v hv => ih _ (by omega) (by omega)) (by decide)
    · exact uses_pure _

theorem uses_expression (h : Reaches n again) (hr : rules.Grounded) (hn : 8 * s.remaining + 6 ≤ n) :
    Uses 1 (Read.expression rules again n) s :=
  (h.uses_again (p := .term) (by decide) hn).bind (fun _ _ _ => h.uses_sumTail hr _ _ (by omega) (by omega)) (by decide)

theorem uses_refuseSecondNumber : Uses 0 Read.refuseSecondNumber s := by
  refine uses_get ?_
  dsimp only
  split
  · exact uses_reject _ _ _
  · exact uses_pure _

theorem uses_productTail (h : Reaches n again) (hr : rules.Grounded) (steps : Nat) (left : Expr)
    (hs : s.remaining < steps) (hn : 8 * s.remaining + 4 ≤ n) : Uses 0 (Read.productTail rules again steps left) s := by
  induction steps generalizing left s with
  | zero => omega
  | succ steps ih =>
    refine uses_get ?_
    split
    · next hl =>
      refine (uses_advance_of_ne (hr.ne_eof_of_level hl (by decide))).bind (b := 0) (fun _ t ht => ?_) (by decide)
      refine (h.uses_again (p := .factor) (by decide) ?_).bind (b := 0) (fun _ u hu => ?_) (by decide)
      · show 8 * t.remaining + 5 ≤ n
        omega
      · exact (uses_operationOf _).bind (b := 0) (fun _ v hv => ih _ (by omega) (by omega)) (by decide)
    · refine uses_get ?_
      split
      · refine uses_refuseSecondNumber.bind (b := 0) (fun _ t ht => ?_) (by decide)
        refine (h.uses_again (p := .power) (by decide) ?_).bind (b := 0) (fun _ u hu => ?_) (by decide)
        · show 8 * t.remaining + 4 ≤ n
          omega
        · exact ih _ (by omega) (by omega)
      · exact uses_pure _

theorem uses_term (h : Reaches n again) (hr : rules.Grounded) (hn : 8 * s.remaining + 5 ≤ n) :
    Uses 1 (Read.term rules again n) s :=
  (h.uses_again (p := .factor) (by decide) hn).bind (fun _ _ _ => h.uses_productTail hr _ _ (by omega) (by omega)) (by decide)

theorem uses_factor (h : Reaches n again) (hn : 8 * s.remaining + 4 ≤ n) : Uses 1 (Read.factor again) s := by
  refine uses_currentKind ?_
  split
  · refine uses_advance.bind (b := 1) (fun _ t ht => ?_) (by decide)
    refine (h.uses_again (p := .power) (by decide) ?_).bind (fun _ _ _ => uses_pure _) (by decide)
    show 8 * t.remaining + 4 ≤ n
    omega
  · exact h.uses_again (by decide) hn

theorem uses_raise (operator : Token) (base exponent : Expr) : Uses 0 (Read.raise operator base exponent) s := by
  unfold Read.raise
  split
  · exact uses_pure _
  · exact (uses_operationOf _).bind (fun _ _ _ => uses_pure _) (by decide)

theorem uses_powerTail (h : Reaches n again) (hr : rules.Grounded) (steps : Nat) (left : Expr)
    (hs : s.remaining < steps) (hn : 8 * s.remaining ≤ n + 6) : Uses 0 (Read.powerTail rules again steps left) s := by
  induction steps generalizing left s with
  | zero => omega
  | succ steps ih =>
    refine uses_get ?_
    split
    · next hl =>
      refine (uses_advance_of_ne (hr.ne_eof_of_level hl (by decide))).bind (b := 0) (fun _ t ht => ?_) (by decide)
      refine (h.uses_again (p := .primary) (by decide) ?_).bind (b := 0) (fun _ u hu => ?_) (by decide)
      · show 8 * t.remaining + 2 ≤ n
        omega
      · exact (uses_raise _ _ _).bind (b := 0) (fun _ v hv => ih _ (by omega) (by omega)) (by decide)
    · exact uses_pure _

theorem uses_power (h : Reaches n again) (hr : rules.Grounded) (hn : 8 * s.remaining + 3 ≤ n) :
    Uses 1 (Read.power rules again n) s :=
  (h.uses_again (p := .subscript) (by decide) hn).bind (fun _ _ _ => h.uses_powerTail hr _ _ (by omega) (by omega)) (by decide)

/-! ### Groupings -/

theorem uses_listTail (h : Reaches n again) (allowed : Bool) (steps : Nat) (hs : s.remaining < steps)
    (hn : 8 * s.remaining ≤ n) : Uses 0 (Read.listTail again allowed steps) s := by
  induction steps generalizing s with
  | zero => omega
  | succ steps ih =>
    refine uses_current ?_
    split
    · next hk =>
      refine Settles.bind (Q := fun _ t => t = s) ?_ ?_
      · cases allowed
        · exact trivial
        · exact rfl
      rintro _ _ rfl
      refine (uses_advance_of_ne (by rw [hk]; decide)).bind (b := 0) (fun _ u hu => ?_) (by decide)
      refine (h.uses_again (p := .comparison) (by decide) ?_).bind (b := 0) (fun _ v hv => ?_) (by decide)
      · show 8 * u.remaining + 8 ≤ n
        omega
      · exact (ih (by omega) (by omega)).bind (fun _ _ _ => uses_pure _) (by decide)
    · exact uses_pure _

theorem uses_listed (h : Reaches n again) (allowed : Bool) {steps : Nat} (hs : s.remaining ≤ steps)
    (hn : 8 * s.remaining + 8 ≤ n) : Uses 1 (Read.listed again allowed steps) s := by
  refine (h.uses_again (p := .comparison) (by decide) hn).bind (b := 0) (fun _ t ht => ?_) (by decide)
  exact (h.uses_listTail allowed steps (by omega) (by omega)).bind (fun _ _ _ => uses_pure _) (by decide)

theorem uses_takeLeft : Uses 0 Read.takeLeft s := by
  refine uses_currentKind ?_
  split
  · exact uses_advance.bind (fun _ _ _ => uses_pure _) (by decide)
  · exact uses_pure _

theorem uses_closeLeft (left? : Option Token) : Uses 0 (Read.closeLeft left?) s := by
  cases left? with
  | none => exact uses_pure _
  | some left => exact (uses_close (by decide) left).bind (fun _ _ _ => uses_pure _) (by decide)

theorem closing_ne_eof {kind closing : Kind} (h : kind.closing? = some closing) : closing ≠ .eof := by
  rintro rfl
  cases kind <;> simp [Kind.closing?] at h

theorem uses_enclose (opening : Token) (values : List Expr) : Uses 0 (Read.enclose opening values) s := by
  unfold Read.enclose
  split
  · exact (uses_operationOf _).bind (fun _ _ _ => uses_pure _) (by decide)
  · exact uses_pure _

theorem uses_grouping (h : Reaches n again) (allowList : Bool) {steps : Nat} (hs : s.remaining ≤ steps)
    (hn : 8 * s.remaining ≤ n) : Uses 3 (Read.grouping again allowList steps) s := by
  refine uses_takeLeft.bind (b := 3) (fun left? t ht => uses_current ?_) (by decide)
  split
  · exact uses_reject _ _ _
  · next closing hc =>
    have ho : t.cursor.current.kind ≠ .eof := fun he => by rw [he] at hc; cases hc
    refine (uses_advance_of_ne ho).bind (b := 2) (fun _ u hu => ?_) (by decide)
    refine (uses_withBars (k := 1) fun b => h.uses_listed _ ?_ ?_).bind (b := 1) (fun _ v hv => ?_) (by decide)
    · show u.remaining ≤ steps
      omega
    · show 8 * u.remaining + 8 ≤ n
      omega
    · refine (uses_closeLeft left?).bind (b := 1) (fun _ w hw => ?_) (by decide)
      exact (uses_close (closing_ne_eof hc) _).bind (fun _ _ _ => uses_enclose _ _) (by decide)

theorem uses_groupingValue (h : Reaches n again) {steps : Nat} (hs : s.remaining ≤ steps) (hn : 8 * s.remaining ≤ n) :
    Uses 3 (Read.groupingValue again steps) s := by
  refine (h.uses_grouping false hs hn).bind (b := 0) (fun values t ht => ?_) (by decide)
  split
  · exact uses_pure _
  · exact uses_unexpected _

theorem uses_argument (h : Reaches n again) {steps : Nat} (hs : s.remaining ≤ steps) (hn : 8 * s.remaining + 2 ≤ n) :
    Uses 1 (Read.argument rules again steps) s := by
  refine Settles.bind (Q := fun _ t => t = s) rfl fun found t ht => ?_
  subst ht
  split
  · refine uses_nested fun d => ?_
    exact (h.uses_grouping (s := { t with depth := d }) true hs (Nat.le_trans (Nat.le_add_right _ 2) hn)).mono (by decide)
  · exact (h.uses_again (p := .primary) (by decide) hn).bind (fun _ _ _ => uses_pure _) (by decide)

/-! ### Subscripts and primaries -/

theorem uses_index (h : Reaches n again) {steps : Nat} (hs : s.remaining ≤ steps) (hn : 8 * s.remaining + 2 ≤ n) :
    Uses 1 (Read.index rules again steps) s := by
  refine uses_get ?_
  split
  · exact uses_bracedName.bind (fun _ _ _ => uses_pure _) (by decide)
  · exact h.uses_argument hs hn

theorem uses_subscriptTail (h : Reaches n again) (hr : rules.Grounded) (steps : Nat) (left : Expr)
    (hs : s.remaining < steps) (hn : 8 * s.remaining ≤ n + 6) : Uses 0 (Read.subscriptTail rules again steps left) s := by
  induction steps generalizing left s with
  | zero => omega
  | succ steps ih =>
    refine uses_get ?_
    split
    · next hl =>
      refine (uses_advance_of_ne (hr.ne_eof_of_level hl (by decide))).bind (b := 0) (fun _ t ht => ?_) (by decide)
      exact (h.uses_index (by omega) (by omega)).bind (b := 0) (fun _ u hu => ih _ (by omega) (by omega)) (by decide)
    · exact uses_pure _

theorem uses_subscript (h : Reaches n again) (hr : rules.Grounded) (hn : 8 * s.remaining + 2 ≤ n) :
    Uses 1 (Read.subscript rules again n) s :=
  (h.uses_again (p := .primary) (by decide) hn).bind (fun _ _ _ => h.uses_subscriptTail hr _ _ (by omega) (by omega)) (by decide)

theorem uses_primary (h : Reaches n again) (hr : rules.Grounded) (hn : 8 * s.remaining + 1 ≤ n) :
    Uses 1 (Read.primary rules again) s := by
  refine uses_currentKind ?_
  split
  · next p hp =>
    exact uses_nested fun d => h p _ (fun _ => hr.ne_eof_of_primary? hp) (by rw [hr.rank_of_primary? hp]; exact hn)
  · exact uses_unexpected _

theorem uses_number (hk : s.cursor.current.kind ≠ .eof) : Uses 1 Read.number s := by
  refine (uses_advance_of_ne hk).bind (b := 0) (fun _ _ _ => ?_) (by decide)
  split
  · exact uses_pure _
  · exact uses_reject _ _ _

theorem uses_symbol (hk : s.cursor.current.kind ≠ .eof) : Uses 1 Read.symbol s := by
  refine (uses_advance_of_ne hk).bind (b := 0) (fun _ _ _ => ?_) (by decide)
  split
  · split
    · exact uses_pure _
    · exact uses_reject _ _ _
  · exact uses_pure _

theorem uses_mathrm : Uses 1 Read.mathrm s := by
  refine uses_advance.bind (b := 1) (fun _ _ _ => ?_) (by decide)
  refine uses_bracedName.bind (b := 0) (fun _ _ _ => ?_) (by decide)
  split <;> exact uses_pure _

theorem uses_mathbf : Uses 1 Read.mathbf s := by
  refine uses_advance.bind (b := 1) (fun _ _ _ => ?_) (by decide)
  refine (uses_expect (by decide)).bind (b := 0) (fun _ _ _ => ?_) (by decide)
  refine (uses_expect (by decide)).bind (b := 0) (fun _ _ _ => ?_) (by decide)
  exact (uses_expect (by decide)).bind (fun _ _ _ => uses_pure _) (by decide)

theorem uses_rowTail (h : Reaches n again) (steps : Nat) (hs : s.remaining < steps) (hn : 8 * s.remaining ≤ n) :
    Uses 0 (Read.rowTail again steps) s := by
  induction steps generalizing s with
  | zero => omega
  | succ steps ih =>
    refine uses_currentKind ?_
    split
    · next hk =>
      refine (uses_advance_of_ne (by rw [hk]; decide)).bind (b := 0) (fun _ t ht => ?_) (by decide)
      refine (h.uses_again (p := .expression) (by decide) ?_).bind (b := 0) (fun _ u hu => ?_) (by decide)
      · show 8 * t.remaining + 7 ≤ n
        omega
      · exact (ih (by omega) (by omega)).bind (fun _ _ _ => uses_pure _) (by decide)
    · exact uses_pure _

theorem uses_row (h : Reaches n again) {steps : Nat} (hs : s.remaining ≤ steps) (hn : 8 * s.remaining + 7 ≤ n) :
    Uses 1 (Read.row again steps) s := by
  refine (h.uses_again (p := .expression) (by decide) hn).bind (b := 0) (fun _ t ht => ?_) (by decide)
  exact (h.uses_rowTail steps (by omega) (by omega)).bind (fun _ _ _ => uses_pure _) (by decide)

theorem uses_rows (h : Reaches n again) (opening : Token) (steps : Nat) (hs : s.remaining < steps)
    (hn : 8 * s.remaining + 7 ≤ n) : Uses 1 (Read.rows again opening steps) s := by
  induction steps generalizing s with
  | zero => omega
  | succ steps ih =>
    refine (h.uses_row (by omega) hn).bind (b := 0) (fun _ t ht => uses_currentKind ?_) (by decide)
    split
    · exact uses_pure _
    · refine uses_advance.bind (b := 0) (fun _ u hu => uses_currentKind ?_) (by decide)
      split
      · exact uses_pure _
      · exact ((ih (by omega) (by omega)).bind (fun _ _ _ => uses_pure _) (by decide))
    · exact trivial

theorem uses_matrix (h : Reaches n again) (hn : 8 * s.remaining ≤ n) : Uses 1 (Read.matrix again n) s := by
  refine uses_advance.bind (b := 1) (fun opening t ht => ?_) (by decide)
  refine uses_environmentName.bind (b := 0) (fun _ u hu => ?_) (by decide)
  refine (uses_withBars (k := 1) fun b => h.uses_rows opening n ?_ ?_).bind (b := 0) (fun _ v hv => ?_) (by decide)
  · show u.remaining < n
    omega
  · show 8 * u.remaining + 7 ≤ n
    omega
  · refine (uses_expect (by decide)).bind (b := 0) (fun _ w hw => ?_) (by decide)
    exact uses_environmentName.bind (fun _ _ _ => uses_pure _) (by decide)

theorem uses_denominator (h : Reaches n again) {steps : Nat} (hs : s.remaining ≤ steps) (hn : 8 * s.remaining + 2 ≤ n) :
    Uses 1 (Read.denominator again steps) s := by
  refine uses_currentKind ?_
  split
  · exact (h.uses_groupingValue hs (by omega)).mono (by decide)
  · exact h.uses_again (by decide) hn

theorem uses_frac (h : Reaches n again) (hn : 8 * s.remaining ≤ n) : Uses 1 (Read.frac again n) s := by
  refine uses_advance.bind (b := 1) (fun _ t ht => ?_) (by decide)
  refine (uses_demand _).bind (b := 1) (fun _ u hu => ?_) (by decide)
  refine (h.uses_groupingValue (by omega) (by omega)).bind (b := 0) (fun _ v hv => ?_) (by decide)
  refine (h.uses_denominator (by omega) (by omega)).bind (b := 0) (fun _ w hw => ?_) (by decide)
  exact (uses_operationOf _).bind (fun _ _ _ => uses_pure _) (by decide)

theorem uses_base (h : Reaches n again) (token : Token) (hn : 8 * s.remaining + 2 ≤ n) :
    Uses 0 (Read.base again token) s := by
  refine uses_currentKind ?_
  split
  · refine uses_advance.bind (b := 0) (fun _ t ht => ?_) (by decide)
    refine (h.uses_again (p := .primary) (by decide) ?_).bind (fun _ _ _ => uses_pure _) (by decide)
    show 8 * t.remaining + 2 ≤ n
    omega
  · exact uses_pure _

theorem uses_function (h : Reaches n again) (hk : s.cursor.current.kind ≠ .eof) (hn : 8 * s.remaining ≤ n) :
    Uses 1 (Read.function rules again n) s := by
  refine (uses_advance_of_ne hk).bind (b := 0) (fun token t ht => ?_) (by decide)
  refine (uses_operationOf _).bind (b := 0) (fun _ u hu => ?_) (by decide)
  refine (h.uses_base token (by omega)).bind (b := 0) (fun _ v hv => ?_) (by decide)
  exact (h.uses_argument (by omega) (by omega)).bind (fun _ _ _ => uses_pure _) (by decide)

theorem uses_operatorname (h : Reaches n again) (hn : 8 * s.remaining ≤ n) :
    Uses 1 (Read.operatorname rules again n) s := by
  refine uses_advance.bind (b := 1) (fun _ t ht => ?_) (by decide)
  refine uses_bracedName.bind (b := 0) (fun _ u hu => ?_) (by decide)
  exact (h.uses_argument (by omega) (by omega)).bind (fun _ _ _ => uses_pure _) (by decide)

theorem reaches_body (h : Reaches n again) (hr : rules.Grounded) : Reaches (n + 1) (Read.body rules again n) := by
  intro p s hp hn
  cases p with
  | comparison => exact h.uses_comparison (by change _ + 8 ≤ _ at hn; omega)
  | expression => exact h.uses_expression hr (by change _ + 7 ≤ _ at hn; omega)
  | term => exact h.uses_term hr (by change _ + 6 ≤ _ at hn; omega)
  | factor => exact h.uses_factor (by change _ + 5 ≤ _ at hn; omega)
  | power => exact h.uses_power hr (by change _ + 4 ≤ _ at hn; omega)
  | subscript => exact h.uses_subscript hr (by change _ + 3 ≤ _ at hn; omega)
  | primary => exact h.uses_primary hr (by change _ + 2 ≤ _ at hn; omega)
  | number => exact uses_number (hp rfl)
  | symbol => exact uses_symbol (hp rfl)
  | mathrm => exact uses_mathrm
  | mathbf => exact uses_mathbf
  | grouping =>
    have hn : 8 * s.remaining ≤ n := Nat.le_of_succ_le_succ hn
    exact (h.uses_groupingValue (by omega) hn).mono (by decide)
  | matrix => exact h.uses_matrix (Nat.le_of_succ_le_succ hn)
  | frac => exact h.uses_frac (Nat.le_of_succ_le_succ hn)
  | function => exact h.uses_function (hp rfl) (Nat.le_of_succ_le_succ hn)
  | operatorname => exact h.uses_operatorname (Nat.le_of_succ_le_succ hn)

end Reaches

/-- Reading in `n` steps settles wherever the tokens ahead are few enough. -/
theorem reaches_read {rules : Rules} (hr : rules.Grounded) (n : Nat) : Reaches n (Production.read rules n) := by
  induction n with
  | zero =>
    intro p s _ hn
    cases p <;> exact absurd hn (Nat.not_succ_le_zero _)
  | succ n ih => exact ih.reaches_body hr

theorem rank_le (p : Production) : p.rank ≤ 8 := by cases p <;> decide

theorem uses_run {rules : Rules} (hr : rules.Grounded) {p : Production} {s : ParserState}
    (hp : p.rank = 1 → s.cursor.current.kind ≠ .eof) : Uses 1 (p.run rules) s := by
  refine uses_get (reaches_read hr _ p s hp ?_)
  have hrank := rank_le p
  unfold Production.enough
  show 8 * s.cursor.ahead.length + p.rank ≤ _
  omega

theorem settles_wholeInput (limit : Nat) (s : ParserState) :
    Settles (wholeInput (.standard limit) s) fun _ _ => True := by
  refine Settles.bind (uses_run (Rules.grounded_standard limit) (p := .comparison) fun h => by cases h) fun e t _ => ?_
  show Settles ((if t.cursor.current.kind = .eof then pure e else unexpected : ParseM Expr) t) _
  split
  · exact trivial
  · exact trivial

end TexFormula

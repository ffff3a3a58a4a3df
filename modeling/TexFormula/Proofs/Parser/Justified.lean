import TexFormula.Proofs.Parser.Errors

/-!
# Every error has its reason

* `Coincides S m m' s Q` : the run `m` upholds the setting, and the run `m'` with the fallback does the same, so none
  of the checks fails;
* `Justifies S again again'` : so does every production; `justifies_production` is this for `Read.production`;
* `coincides_wholeInput` : so does reading a whole stream;
* `truthful_of_wholeInput`, `parseTokens_ne_nestingTooDeep` : what follows for its errors.

A comparison, an expression or a term goes on as long as the current token can start a factor. At the top no bar is
open, so what is left after a comparison there starts no primary at all.
-/

namespace TexFormula

open ParseM Interpretation

/-! ## Runs with the fallback -/

/-- The run `m` upholds the setting, and the run `m'` with the fallback does the same. -/
def Coincides {α : Type} (S : Setting) (m : ParseM α) (m' : Lenient S.fallback α) (s : ParserState)
    (Q : α → ParserState → Prop) : Prop := m' s = m s ∧ Upholds S m s Q

section
variable {α β : Type} {S : Setting} {s : ParserState} {P Q : α → ParserState → Prop} {Q' : β → ParserState → Prop}

theorem Coincides.bind {m : ParseM α} {m' : Lenient S.fallback α} {f : α → ParseM β} {f' : α → Lenient S.fallback β}
    (hm : Coincides S m m' s Q) (hf : ∀ a t, Onward s t → Q a t → Coincides S (f a) (f' a) t Q') :
    Coincides S (m >>= f) (m' >>= f') s Q' := by
  refine ⟨?_, hm.2.bind fun a t ht ha => (hf a t ht ha).2⟩
  show EStateM.bind m' f' s = EStateM.bind m f s
  unfold EStateM.bind
  rw [hm.1]
  cases hr : m s with
  | error halt t => rfl
  | ok a t =>
    obtain ⟨ht, ha⟩ := hm.2.of_ok hr
    exact (hf a t ht ha).1

theorem Coincides.mono {m : ParseM α} {m' : Lenient S.fallback α} (h : Coincides S m m' s P)
    (hQ : ∀ a t, P a t → Q a t) : Coincides S m m' s Q := ⟨h.1, h.2.mono hQ⟩

theorem Coincides.congr {m n : ParseM α} {m' n' : Lenient S.fallback α} (h : Coincides S m m' s Q) (hn : n s = m s)
    (hn' : n' s = m' s) : Coincides S n n' s Q := by
  unfold Coincides Upholds at *
  rw [hn, hn']
  exact h

theorem coincides_pure {a : α} (h : Q a s) : Coincides S (pure a) (pure a) s Q := ⟨rfl, upholds_pure h⟩

theorem Upholds.coincides {x : ParseM α} (h : Upholds S x s Q) : Coincides S (liftM x) (liftM x) s Q := ⟨rfl, h⟩

/-- What takes no fallback is the same in both. -/
theorem Upholds.then {x : ParseM α} {f : α → ParseM β} {f' : α → Lenient S.fallback β} (hx : Upholds S x s Q)
    (hf : ∀ a t, Onward s t → Q a t → Coincides S (f a) (f' a) t Q') :
    Coincides S (liftM x >>= f) (liftM x >>= f') s Q' := hx.coincides.bind hf

theorem coincides_exhausted : Coincides S (liftM (exhausted : ParseM α)) (liftM (exhausted : ParseM α)) s Q :=
  ⟨rfl, trivial⟩

theorem coincides_state {f : ParserState → ParseM β} {f' : ParserState → Lenient S.fallback β}
    (h : Coincides S (f s) (f' s) s Q') : Coincides S (liftM state >>= f) (liftM state >>= f') s Q' := h

theorem coincides_current {f : Token → ParseM β} {f' : Token → Lenient S.fallback β}
    (h : Coincides S (f s.cursor.current) (f' s.cursor.current) s Q') :
    Coincides S (liftM current >>= f) (liftM current >>= f') s Q' := h

theorem coincides_currentKind {f : Kind → ParseM β} {f' : Kind → Lenient S.fallback β}
    (h : Coincides S (f s.cursor.current.kind) (f' s.cursor.current.kind) s Q') :
    Coincides S (liftM currentKind >>= f) (liftM currentKind >>= f') s Q' := h

theorem coincides_advance {f : Token → ParseM β} {f' : Token → Lenient S.fallback β}
    (h : Coincides S (f s.cursor.current) (f' s.cursor.current) { s with cursor := s.cursor.advance } Q') :
    Coincides S (liftM advance >>= f) (liftM advance >>= f') s Q' := by
  refine upholds_advance.then ?_
  rintro _ _ - ⟨rfl, rfl⟩
  exact h

/-- A level can be entered if it is not the last one, and is left again. -/
theorem coincides_deeper {m : ParseM α} {m' : Lenient S.fallback α} (hs : s.cursor.Stands S.stream)
    (hd : s.depth < S.room) (h : Coincides S m m' { s with depth := s.depth + 1 } Q)
    (hQ : ∀ a t d, Q a t → Q a { t with depth := d }) :
    Coincides S (deeper S.limit m) (deeper S.limit m') s Q := by
  refine ⟨nested_congr h.1, ?_⟩
  have hm := h.2
  show Upholds S (nested S.limit m) s Q
  unfold Upholds at hm ⊢
  rw [nested_eq]
  by_cases hlimit : S.limit ≤ s.depth
  · rw [if_pos hlimit]
    exact ⟨hs.truthful rfl, fun _ => Nat.lt_of_le_of_lt hlimit hd, nofun⟩
  · rw [if_neg hlimit]
    match hr : m { s with depth := s.depth + 1 } with
    | .error (.rejected error) t =>
      rw [hr] at hm
      exact hm
    | .error .exhausted t => exact trivial
    | .ok a t =>
      rw [hr] at hm
      refine ⟨⟨hm.1.leads, ?_, hm.1.openBars⟩, hQ a t _ hm.2⟩
      show t.depth - 1 = s.depth
      rw [hm.1.depth]
      rfl

theorem coincides_barred {bars : Nat → Nat} {m : ParseM α} {m' : Lenient S.fallback α} {P : α → Prop}
    (h : Coincides S m m' { s with openBars := bars s.openBars } fun a _ => P a) :
    Coincides S (barred bars m) (barred bars m') s fun a _ => P a := by
  refine ⟨withBars_congr h.1, ?_⟩
  have hm := h.2
  show Upholds S (withBars bars m) s _
  unfold Upholds at hm ⊢
  rw [withBars_eq]
  match hr : m { s with openBars := bars s.openBars } with
  | .error (.rejected error) t =>
    rw [hr] at hm
    exact hm
  | .error .exhausted t => exact trivial
  | .ok a t =>
    rw [hr] at hm
    exact ⟨⟨hm.1.leads, hm.1.depth, rfl⟩, hm.2⟩

/-! ### The four checks -/

theorem isSome_operation?_of_level {limit : Nat} {level : Level} (h : s.level (.standard limit) = level)
    (hl : level ∈ [Level.relational, .additive, .multiplicative, .power]) :
    s.cursor.current.kind.operation?.isSome = true := by
  have hkind : ∀ kind ∈ Kind.all, Rules.standardLevel kind ∈ [Level.relational, .additive, .multiplicative, .power] →
      kind.operation?.isSome = true := by decide
  subst h
  exact hkind _ (Kind.mem_all _) hl

theorem isSome_operation?_of_production? {kind : Kind} {p : Production} (h : kind.production? = some p)
    (hp : p ∈ [Production.frac, .function]) : kind.operation?.isSome = true := by
  cases kind <;> cases h <;> revert hp <;> decide

theorem coincides_operationOf {token : Token} {f : String → ParseM β} {f' : String → Lenient S.fallback β}
    (h : token.kind.operation?.isSome = true) (hf : ∀ name, Coincides S (f name) (f' name) s Q') :
    Coincides S (operationOf token >>= f) (operationOf token >>= f') s Q' := by
  obtain ⟨name, hname⟩ := Option.isSome_iff_exists.1 h
  unfold operationOf
  rw [hname]
  exact hf name

theorem coincides_enclose (opening : Token) {values : List Expr} (hne : values ≠ []) :
    Coincides S (Read.enclose opening values) (Read.enclose opening values) s fun values _ => values ≠ [] := by
  unfold Read.enclose
  split
  · next hk =>
    refine coincides_operationOf (by rw [hk]; rfl) fun name => coincides_pure ?_
    simp
  · exact coincides_pure hne

theorem opens_of_closing? {kind closing : Kind} (h : kind.closing? = some closing) : kind.opens = true := by
  cases kind <;> cases h <;> rfl

theorem coincides_number (hs : S.Placed 1 s) (hp : s.cursor.current.kind.production? = some .number) :
    Coincides S Read.number Read.number s fun _ _ => True := by
  have hk : s.cursor.current.kind = .number := production?_eq_some_iff.1 hp
  refine coincides_advance ?_
  split
  · exact coincides_pure trivial
  · next hd =>
    have hm : s.cursor.current.Malformed := .inl ⟨hk, Bool.eq_false_iff.2 hd⟩
    have hne : s.cursor.current.kind ≠ .eof := by
      rw [hk]
      decide
    exact ⟨congrFun (S.refuses _ hs.stands.current_mem hm).1 _, upholds_reject (hs.stands.explains_unexpected hne (.inr hm))⟩

theorem coincides_symbol (hs : S.Placed 1 s) : Coincides S Read.symbol Read.symbol s fun _ _ => True := by
  refine coincides_advance ?_
  split
  · next hk =>
    have hne : s.cursor.current.kind ≠ .eof := by
      rw [hk]
      decide
    split
    · exact coincides_pure trivial
    · next hname =>
      have hm : s.cursor.current.Malformed := .inr ⟨hk, hname⟩
      exact ⟨congrFun (S.refuses _ hs.stands.current_mem hm).2 _,
        upholds_reject (hs.stands.explains_unexpected hne (.inr hm))⟩
  · exact coincides_pure trivial

end

/-! ## Productions -/

/--
Every production coincides with its counterpart. The ways to read a primary are asked where their first token
stands, in the level that was entered for them.
-/
structure Justifies (S : Setting) (again : Production → ParseM Expr) (again' : Production → Lenient S.fallback Expr) :
    Prop where
  layer {p : Production} {s : ParserState} : p.rank ≠ 1 → S.Placed 0 s →
    Coincides S (again p) (again' p) s fun _ t => p.Ended S.limit t
  way {p : Production} {s : ParserState} : s.cursor.current.kind.production? = some p → S.Placed 1 s →
    Coincides S (again p) (again' p) s fun _ _ => True

namespace Justifies

variable {S : Setting} {again : Production → ParseM Expr} {again' : Production → Lenient S.fallback Expr}
  {s : ParserState}

/-- The value of an assignment is read one level deeper, for which the sign makes up. -/
theorem coincides_comparison (h : Justifies S again again') (hs : S.Placed 0 s) :
    Coincides S (Read.comparison (.standard S.limit) again) (Read.comparison (.standard S.limit) again') s
      fun _ t => t.atImplicitOperand (.standard S.limit) = false := by
  refine coincides_current ((h.layer (p := .expression) (by decide) hs).bind fun left t ht hend => ?_)
  have hts := hs.onward ht
  refine coincides_currentKind ?_
  split
  · next hk =>
    have hne : t.cursor.current.kind ≠ .eof := by
      rw [hk]
      decide
    refine (upholds_assignmentTarget left (hs.stands.explains trivial rfl)).then ?_
    rintro target _ - rfl
    refine coincides_advance ?_
    refine Coincides.bind (Q := fun _ u => u.atImplicitOperand (.standard S.limit) = false) ?_ fun value u _ hend =>
      coincides_pure hend
    refine coincides_deeper hts.advance.stands (hts.depth_lt hne) ?_ fun _ _ _ hend => hend
    exact (h.layer (p := .comparison) (by decide) (hts.deeper.pass hne)).mono fun _ _ hend => hend (by decide)
  · refine coincides_state ?_
    split
    · next hl =>
      have hop := isSome_operation?_of_level hl (by decide)
      refine coincides_advance ((h.layer (p := .expression) (by decide) hts.advance).bind fun right u _ hend => ?_)
      exact coincides_operationOf hop fun _ => coincides_pure (hend (by decide))
    · exact coincides_pure (hend (by decide))

theorem coincides_sumTail (h : Justifies S again again') (steps : Nat) (left : Expr) (hs : S.Placed 0 s)
    (hend : s.atImplicitOperand (.standard S.limit) = false) :
    Coincides S (Read.sumTail (.standard S.limit) again steps left) (Read.sumTail (.standard S.limit) again' steps left)
      s fun _ t => t.atImplicitOperand (.standard S.limit) = false := by
  induction steps generalizing left s with
  | zero => exact coincides_exhausted
  | succ steps ih =>
    refine coincides_state ?_
    split
    · next hl =>
      have hop := isSome_operation?_of_level hl (by decide)
      refine coincides_advance ((h.layer (p := .term) (by decide) hs.advance).bind fun right t ht hend => ?_)
      exact coincides_operationOf hop fun _ => ih _ (hs.advance.onward ht) (hend (by decide))
    · exact coincides_pure hend

/-- A product ends only where no factor starts. -/
theorem coincides_productTail (h : Justifies S again again') (steps : Nat) (left : Expr) (hs : S.Placed 0 s) :
    Coincides S (Read.productTail (.standard S.limit) again steps left)
      (Read.productTail (.standard S.limit) again' steps left) s
      fun _ t => t.atImplicitOperand (.standard S.limit) = false := by
  induction steps generalizing left s with
  | zero => exact coincides_exhausted
  | succ steps ih =>
    refine coincides_state ?_
    split
    · next hl =>
      have hop := isSome_operation?_of_level hl (by decide)
      refine coincides_advance ((h.layer (p := .factor) (by decide) hs.advance).bind fun right t ht _ => ?_)
      exact coincides_operationOf hop fun _ => ih _ (hs.advance.onward ht)
    · refine coincides_state ?_
      split
      · refine (upholds_refuseSecondNumber hs.stands).then ?_
        rintro _ _ - rfl
        exact (h.layer (p := .power) (by decide) hs).bind fun right t ht _ => ih _ (hs.onward ht)
      · next hend => exact coincides_pure (Bool.eq_false_iff.2 hend)

theorem coincides_factor (h : Justifies S again again') (hs : S.Placed 0 s) :
    Coincides S (Read.factor again) (Read.factor again') s fun _ _ => True := by
  refine coincides_currentKind ?_
  split
  · refine coincides_advance ((h.layer (p := .power) (by decide) hs.advance).bind fun e t _ _ => ?_)
    exact coincides_pure trivial
  · exact (h.layer (p := .power) (by decide) hs).mono fun _ _ _ => trivial

theorem coincides_powerTail (h : Justifies S again again') (steps : Nat) (left : Expr) (hs : S.Placed 0 s) :
    Coincides S (Read.powerTail (.standard S.limit) again steps left)
      (Read.powerTail (.standard S.limit) again' steps left) s fun _ _ => True := by
  induction steps generalizing left s with
  | zero => exact coincides_exhausted
  | succ steps ih =>
    refine coincides_state ?_
    split
    · next hl =>
      have hop := isSome_operation?_of_level hl (by decide)
      refine coincides_advance ((h.layer (p := .primary) (by decide) hs.advance).bind fun exponent t ht _ => ?_)
      have hraise : Coincides S (Read.raise s.cursor.current left exponent) (Read.raise s.cursor.current left exponent) t
          fun _ u => u = t := by
        unfold Read.raise
        split
        · exact coincides_pure rfl
        · exact coincides_operationOf hop fun _ => coincides_pure rfl
      refine hraise.bind ?_
      rintro e _ - rfl
      exact ih _ (hs.advance.onward ht)
    · exact coincides_pure trivial

/-! ### Groupings -/

theorem coincides_listTail (h : Justifies S again again') (allowed : Bool) (steps : Nat) (hs : S.Placed 0 s) :
    Coincides S (Read.listTail again allowed steps) (Read.listTail again' allowed steps) s fun _ _ => True := by
  induction steps generalizing s with
  | zero => exact coincides_exhausted
  | succ steps ih =>
    refine coincides_current ?_
    split
    · have hlist : S.Explains ⟨.unexpectedList s.cursor.current.text, s.cursor.current⟩ :=
        hs.stands.explains trivial rfl
      refine (upholds_refuseIf fun _ => hlist).then ?_
      rintro _ _ - rfl
      refine coincides_advance ((h.layer (p := .comparison) (by decide) hs.advance).bind fun value t ht _ => ?_)
      exact (ih (hs.advance.onward ht)).bind fun values u _ _ => coincides_pure trivial
    · exact coincides_pure trivial

theorem coincides_listed (h : Justifies S again again') (allowed : Bool) (steps : Nat) (hs : S.Placed 0 s) :
    Coincides S (Read.listed again allowed steps) (Read.listed again' allowed steps) s fun values _ => values ≠ [] := by
  refine (h.layer (p := .comparison) (by decide) hs).bind fun value t ht _ => ?_
  exact (h.coincides_listTail allowed steps (hs.onward ht)).bind fun values u _ _ => coincides_pure (by simp)

/-- Delimiters make up for the level that was entered for them, and hold a value. -/
theorem coincides_grouping (h : Justifies S again again') (allowList : Bool) (steps : Nat) (hs : S.Placed 1 s) :
    Coincides S (Read.grouping again allowList steps) (Read.grouping again' allowList steps) s
      fun values _ => values ≠ [] := by
  refine upholds_takeLeft.then fun left? t ht hleft => coincides_current ?_
  have hts := hs.onward ht
  split
  · have hfault : S.Explains ⟨.expectedToken Kind.openParen.spelling t.cursor.current.text, t.cursor.current⟩ :=
      hts.stands.explains trivial rfl
    exact (upholds_reject hfault).coincides
  · next closing hc =>
    have hne := (closing?_ne_eof hc).1
    have hopening : t.cursor.current ∈ t.cursor.advance.passed := by simp [t.cursor.passed_advance hne]
    have hus := hts.pass hne
    refine coincides_advance ((coincides_barred (P := (· ≠ [])) (h.coincides_listed _ steps ⟨hus.stands, hus.room_le⟩)).bind
      fun values v hv hvalues => ?_)
    have hvs := hus.onward hv
    refine (upholds_closeLeft hvs.stands fun left hl => ?_).then fun _ x hx _ => ?_
    · obtain ⟨hmem, hopens⟩ := hleft left hl
      exact ⟨hv.leads.mem_passed (t.cursor.leads_advance.mem_passed hmem), hopens⟩
    · have hmem := hx.leads.mem_passed (hv.leads.mem_passed hopening)
      refine (upholds_close (hvs.onward hx).stands hmem (opens_of_closing? hc) closing).then fun _ y _ _ => ?_
      exact coincides_enclose _ hvalues

theorem coincides_groupingValue (h : Justifies S again again') (steps : Nat) (hs : S.Placed 1 s) :
    Coincides S (Read.groupingValue again steps) (Read.groupingValue again' steps) s fun _ _ => True := by
  refine (h.coincides_grouping false steps hs).bind fun values t _ hne => ?_
  rw [List.getLast?_eq_some_getLast hne]
  exact coincides_pure trivial

/-- A parenthesis is not the end, so there is a level left for the list. -/
theorem coincides_argument (h : Justifies S again again') (steps : Nat) (hs : S.Placed 0 s) :
    Coincides S (Read.argument (.standard S.limit) again steps) (Read.argument (.standard S.limit) again' steps) s
      fun _ _ => True := by
  have hat : Upholds S Read.atParenthesis s fun found t => (found = true → s.cursor.current.kind ≠ .eof) ∧ t = s := by
    refine ⟨Onward.refl s, fun hfound he => ?_, rfl⟩
    simp [he] at hfound
  refine hat.then ?_
  rintro found _ - ⟨hfound, rfl⟩
  split
  · next hopen =>
    refine coincides_deeper hs.stands (hs.depth_lt (hfound hopen)) ?_ fun _ _ _ _ => trivial
    exact (h.coincides_grouping true steps hs.deeper).mono fun _ _ _ => trivial
  · exact (h.layer (p := .primary) (by decide) hs).bind fun e t _ _ => coincides_pure trivial

/-! ### Subscripts and primaries -/

theorem coincides_index (h : Justifies S again again') (steps : Nat) (hs : S.Placed 0 s) :
    Coincides S (Read.index (.standard S.limit) again steps) (Read.index (.standard S.limit) again' steps) s
      fun _ _ => True := by
  refine coincides_state ?_
  split
  · exact (upholds_bracedName hs.stands).then fun name t _ _ => coincides_pure trivial
  · exact h.coincides_argument steps hs

theorem coincides_subscriptTail (h : Justifies S again again') (steps : Nat) (left : Expr) (hs : S.Placed 0 s) :
    Coincides S (Read.subscriptTail (.standard S.limit) again steps left)
      (Read.subscriptTail (.standard S.limit) again' steps left) s fun _ _ => True := by
  induction steps generalizing left s with
  | zero => exact coincides_exhausted
  | succ steps ih =>
    refine coincides_state ?_
    split
    · refine coincides_advance ((h.coincides_index steps hs.advance).bind fun index t ht _ => ?_)
      exact ih _ (hs.advance.onward ht)
    · exact coincides_pure trivial

theorem coincides_primary (h : Justifies S again again') (hs : S.Placed 0 s) :
    Coincides S (Read.primary (.standard S.limit) again) (Read.primary (.standard S.limit) again') s
      fun _ _ => True := by
  refine coincides_currentKind ?_
  split
  · next p hp =>
    have hne : s.cursor.current.kind ≠ .eof := (Rules.grounded_standard S.limit).ne_eof_of_primary? hp
    refine coincides_deeper hs.stands (hs.depth_lt hne) ?_ fun _ _ _ _ => trivial
    exact h.way hp hs.deeper
  · next hp => exact (upholds_unexpected hs.stands hp).coincides

theorem coincides_row (h : Justifies S again again') (steps : Nat) (hs : S.Placed 0 s) :
    Coincides S (Read.row again steps) (Read.row again' steps) s fun _ _ => True := by
  have htail (t : ParserState) (ht : S.Placed 0 t) :
      Coincides S (Read.rowTail again steps) (Read.rowTail again' steps) t fun _ _ => True := by
    induction steps generalizing t with
    | zero => exact coincides_exhausted
    | succ steps ih =>
      refine coincides_currentKind ?_
      split
      · refine coincides_advance ((h.layer (p := .expression) (by decide) ht.advance).bind fun entry u hu _ => ?_)
        exact (ih u (ht.advance.onward hu)).bind fun entries v _ _ => coincides_pure trivial
      · exact coincides_pure trivial
  refine (h.layer (p := .expression) (by decide) hs).bind fun entry t ht _ => ?_
  exact (htail t (hs.onward ht)).bind fun entries u _ _ => coincides_pure trivial

theorem coincides_rows (h : Justifies S again again') {opening : Token} (hk : opening.kind = .beginEnv) (steps : Nat)
    (hs : S.Placed 0 s) (hopening : opening ∈ s.cursor.passed) :
    Coincides S (Read.rows again opening steps) (Read.rows again' opening steps) s fun _ _ => True := by
  induction steps generalizing s with
  | zero => exact coincides_exhausted
  | succ steps ih =>
    refine (h.coincides_row steps hs).bind fun first t ht _ => coincides_currentKind ?_
    have hts := hs.onward ht
    have htopening := ht.leads.mem_passed hopening
    split
    · exact coincides_pure trivial
    · refine coincides_advance (coincides_currentKind ?_)
      split
      · exact coincides_pure trivial
      · exact (ih hts.advance (t.cursor.leads_advance.mem_passed htopening)).bind fun rest u _ _ => coincides_pure trivial
    · have hopens : opening.kind.opens = true := by
        rw [hk]
        rfl
      have hclose : S.Explains ⟨.unmatchedDelimiter opening.text Kind.endEnv.spelling t.cursor.current.text,
          t.cursor.current⟩ :=
        hts.stands.explains trivial ⟨rfl, opening, List.mem_reverse.2 htopening, hopens, rfl⟩
      exact coincides_current (upholds_current (upholds_reject hclose)).coincides

/-! ### The ways to read a primary -/

theorem coincides_matrix (h : Justifies S again again') (steps : Nat) (hs : S.Placed 1 s)
    (hk : s.cursor.current.kind = .beginEnv) :
    Coincides S (Read.matrix again steps) (Read.matrix again' steps) s fun _ _ => True := by
  have hpassed := s.cursor.passed_advance (by rw [hk]; decide)
  have hts := hs.pass (by rw [hk]; decide)
  refine coincides_advance ((upholds_environmentName hts.stands hpassed (by rw [hk]; decide)).then fun _ u hu _ => ?_)
  have hus := hts.onward hu
  have hopening : s.cursor.current ∈ u.cursor.passed := hu.leads.mem_passed (by simp [hpassed])
  refine (coincides_barred (P := fun _ => True)
    (h.coincides_rows hk steps ⟨hus.stands, hus.room_le⟩ hopening)).bind fun rows v hv _ => ?_
  have hvs := hus.onward hv
  refine (upholds_expect hvs.stands .endEnv).then ?_
  rintro ending _ - ⟨hend, rfl, rfl⟩
  have hpassed' := v.cursor.passed_advance (by rw [hend]; decide)
  refine (upholds_environmentName hvs.advance.stands hpassed' (by rw [hend]; decide)).then fun _ x _ _ => ?_
  exact coincides_pure trivial

section
variable (h : Justifies S again again') (steps : Nat) (hs : S.Placed 1 s)
include h hs

theorem coincides_frac (hp : s.cursor.current.kind.production? = some .frac) :
    Coincides S (Read.frac again steps) (Read.frac again' steps) s fun _ _ => True := by
  have hts := hs.pass ((Rules.grounded_standard S.limit).ne_eof_of_primary? hp)
  refine coincides_advance ((upholds_demand hts.stands .openCurly).then ?_)
  rintro _ _ - ⟨-, rfl⟩
  refine (h.coincides_groupingValue steps hts.succ).bind fun numerator t ht _ => ?_
  have hus := hts.onward ht
  have hdenominator : Coincides S (Read.denominator again steps) (Read.denominator again' steps) t fun _ _ => True := by
    refine coincides_currentKind ?_
    split
    · exact h.coincides_groupingValue steps hus.succ
    · exact (h.layer (p := .primary) (by decide) hus).mono fun _ _ _ => trivial
  refine hdenominator.bind fun denominator u _ _ => ?_
  have hop := isSome_operation?_of_production? hp (by decide)
  exact coincides_operationOf hop fun _ => coincides_pure trivial

theorem coincides_function (hp : s.cursor.current.kind.production? = some .function) :
    Coincides S (Read.function (.standard S.limit) again steps) (Read.function (.standard S.limit) again' steps) s
      fun _ _ => True := by
  have hts := hs.pass ((Rules.grounded_standard S.limit).ne_eof_of_primary? hp)
  have hop := isSome_operation?_of_production? hp (by decide)
  refine coincides_advance (coincides_operationOf hop fun _ => ?_)
  have hbase : Coincides S (Read.base again s.cursor.current) (Read.base again' s.cursor.current)
      { s with cursor := s.cursor.advance } fun _ _ => True := by
    refine coincides_currentKind ?_
    split
    · refine coincides_advance ((h.layer (p := .primary) (by decide) hts.advance).bind fun e t _ _ => ?_)
      exact coincides_pure trivial
    · exact coincides_pure trivial
  refine hbase.bind fun base t ht _ => ?_
  exact (h.coincides_argument steps (hts.onward ht)).bind fun arguments u _ _ => coincides_pure trivial

theorem coincides_operatorname (hp : s.cursor.current.kind.production? = some .operatorname) :
    Coincides S (Read.operatorname (.standard S.limit) again steps)
      (Read.operatorname (.standard S.limit) again' steps) s fun _ _ => True := by
  have hts := hs.pass ((Rules.grounded_standard S.limit).ne_eof_of_primary? hp)
  refine coincides_advance ((upholds_bracedName hts.stands).then fun name t ht _ => ?_)
  exact (h.coincides_argument steps (hts.onward ht)).bind fun arguments u _ _ => coincides_pure trivial

end

theorem justifies_body (h : Justifies S again again') (steps : Nat) :
    Justifies S (Read.body (.standard S.limit) again steps) (Read.body (.standard S.limit) again' steps) where
  layer {p s} hp hs := by
    have hother {m : ParseM Expr} {m' : Lenient S.fallback Expr}
        (hne : p ∉ [Production.comparison, .expression, .term]) (hm : Coincides S m m' s fun _ _ => True) :
        Coincides S m m' s fun _ t => p.Ended S.limit t := hm.mono fun _ _ _ hmem => absurd hmem hne
    cases p with
    | comparison => exact (h.coincides_comparison hs).mono fun _ _ hend _ => hend
    | expression =>
      refine (h.layer (p := .term) (by decide) hs).bind fun left t ht hend => ?_
      exact (h.coincides_sumTail steps left (hs.onward ht) (hend (by decide))).mono fun _ _ hend _ => hend
    | term =>
      refine (h.layer (p := .factor) (by decide) hs).bind fun left t ht _ => ?_
      exact (h.coincides_productTail steps left (hs.onward ht)).mono fun _ _ hend _ => hend
    | factor => exact hother (by decide) (h.coincides_factor hs)
    | power =>
      refine hother (by decide) ((h.layer (p := .subscript) (by decide) hs).bind fun left t ht _ => ?_)
      exact h.coincides_powerTail steps left (hs.onward ht)
    | subscript =>
      refine hother (by decide) ((h.layer (p := .primary) (by decide) hs).bind fun left t ht _ => ?_)
      exact h.coincides_subscriptTail steps left (hs.onward ht)
    | primary => exact hother (by decide) (h.coincides_primary hs)
    | _ => exact absurd rfl hp
  way {p s} hp hs := by
    cases p with
    | number => exact coincides_number hs hp
    | symbol => exact coincides_symbol hs
    | mathrm => exact (upholds_mathrm hs.stands).coincides
    | mathbf => exact (upholds_mathbf hs.stands).coincides
    | grouping => exact h.coincides_groupingValue steps hs
    | matrix => exact h.coincides_matrix steps hs (production?_eq_some_iff.1 hp)
    | frac => exact h.coincides_frac steps hs hp
    | function => exact h.coincides_function steps hs hp
    | operatorname => exact h.coincides_operatorname steps hs hp
    | _ => exact absurd (rank_of_production? hp) (by decide)

end Justifies

/-- In any number of steps every production coincides with its counterpart. -/
theorem justifies_production (S : Setting) (steps : Nat) :
    Justifies S (Read.production (.standard S.limit) steps) (Read.production (.standard S.limit) steps) := by
  induction steps with
  | zero => exact ⟨fun _ _ => coincides_exhausted, fun _ _ => coincides_exhausted⟩
  | succ steps ih => exact ih.justifies_body steps

theorem justifies_run (S : Setting) :
    Justifies S (Read.run (.standard S.limit)) (Read.run (.standard S.limit)) where
  layer hp hs := coincides_state ((justifies_production S _).layer hp hs)
  way hp hs := coincides_state ((justifies_production S _).way hp hs)

/-! ## Whole streams -/

/-- At the top, where no bar is open, what is left after a comparison starts no primary. -/
theorem coincides_wholeInput {S : Setting} {s : ParserState} (hs : S.Placed 0 s) (hbars : s.openBars = 0) :
    Coincides S (wholeInput (.standard S.limit)) (S.fallback.wholeInput (.standard S.limit)) s fun _ _ => True := by
  refine ((justifies_run S).layer (p := .comparison) (by decide) hs).bind fun e t ht hend => coincides_currentKind ?_
  split
  · exact coincides_pure trivial
  · refine (upholds_unexpected (hs.onward ht).stands ?_).coincides
    have hnone := hend (by decide)
    simpa [ParserState.atImplicitOperand, ht.openBars, hbars, Rules.standard] using hnone

/-- A stream with as much room as it has tokens. -/
def Setting.ofTokens (limit : Nat) (tokens : List Token) (fallback : Fallback)
    (h : fallback.Refuses (Cursor.ofTokens tokens).tokens) : Setting :=
  ⟨limit, (Cursor.ofTokens tokens).tokens, (beforeEnd tokens).length, fallback, h⟩

section
variable {limit : Nat} {tokens : List Token}

theorem coincides_ofTokens {fallback : Fallback} (h : fallback.Refuses (Cursor.ofTokens tokens).tokens) :
    Coincides (.ofTokens limit tokens fallback h) (wholeInput (.standard limit))
      (fallback.wholeInput (.standard limit)) (.ofTokens tokens) fun _ _ => True := by
  refine coincides_wholeInput (S := .ofTokens limit tokens fallback h) ⟨stands_ofTokens tokens, ?_⟩ rfl
  have hahead : 0 + (beforeEnd (Cursor.ofTokens tokens).ahead).length = (beforeEnd tokens).length := by
    rw [beforeEnd_ahead, Nat.zero_add]
  exact Nat.le_of_eq hahead

/-- What is proved of the errors of a whole stream. -/
theorem explains_of_wholeInput {error : SyntaxError} {t : ParserState}
    (h : wholeInput (.standard limit) (.ofTokens tokens) = .error (.rejected error) t) :
    (Setting.ofTokens limit tokens .refusing (refuses_refusing _)).Explains error :=
  (coincides_ofTokens (refuses_refusing _)).2.of_rejected h

theorem truthful_of_wholeInput {error : SyntaxError} {t : ParserState}
    (h : wholeInput (.standard limit) (.ofTokens tokens) = .error (.rejected error) t) :
    error.Truthful limit (Cursor.ofTokens tokens).tokens := (explains_of_wholeInput h).truthful

/-- A limit that is not smaller than the number of tokens before the first end is never hit. -/
theorem parseTokens_ne_nestingTooDeep {limit : Nat} {tokens : List Token} (h : (beforeEnd tokens).length ≤ limit)
    (n : Nat) (token : Token) : parseTokens limit tokens ≠ .error ⟨.nestingTooDeep n, token⟩ := by
  intro herror
  obtain ⟨t, ht⟩ := settled_eq_error_iff.1 herror
  exact Nat.not_lt_of_le h ((explains_of_wholeInput ht).tooDeep rfl)

/--
The tokens of `\sin\sin x`: each of them takes a level, so two levels are not enough. Without the letter the
reading fails for another cause.
-/
theorem parseTokens_ne_nestingTooDeep_chain :
    let sin : Token := ⟨.sin, "\\sin", .ofBytes 0 4⟩
    let x : Token := ⟨.identifier, "x", .ofBytes 8 1⟩
    parseTokens 2 [sin, sin, x] = .error ⟨.nestingTooDeep 2, x⟩ ∧
      (∀ n token, parseTokens 3 [sin, sin, x] ≠ .error ⟨.nestingTooDeep n, token⟩) ∧
      ∀ n token, parseTokens 2 [sin, sin] ≠ .error ⟨.nestingTooDeep n, token⟩ := by
  intro sin x
  refine ⟨errorOf?_eq_some_iff.1 (by decide +kernel), ?_, ?_⟩
  · exact parseTokens_ne_nestingTooDeep (by decide)
  · exact parseTokens_ne_nestingTooDeep (by decide)

end

end TexFormula

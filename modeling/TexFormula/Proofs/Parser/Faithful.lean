import TexFormula.Proofs.Grammar.Rendering
import TexFormula.Proofs.Parser.Moves

/-!
# A transcript can be written out in any way

* `Writes m s P` : if the run `m` succeeds from `s` on, it passes the tokens that it writes down, and `P` holds of its
  result and of the transcript; `Writes.bind` puts two runs together;
* `Faithful limit style again` : what a production reads is, however its transcript is written out, a word of the
  grammar with the meaning that the production returns; `faithful_production` is this for `Read.production`.

What a loop has written down so far is a word of the part that it reads, and every turn makes the word longer.
-/

namespace TexFormula

open ParseM Interpretation

/-! ## Levels and bars -/

/-- The parser has `n` levels left, and `b` tells whether it stands in bare bars. -/
structure Within (limit n : Nat) (b : Bool) (s : ParserState) : Prop where
  levels : s.depth + n = limit
  bars : decide (0 < s.openBars) = b

theorem Within.moves {limit n : Nat} {b : Bool} {s t : ParserState} {w : List Token}
    (h : Within limit n b s) (hm : Moves s w t) : Within limit n b t :=
  ⟨by rw [hm.depth]; exact h.levels, by rw [hm.openBars]; exact h.bars⟩

theorem Within.deeper {limit n : Nat} {b : Bool} {s : ParserState} (h : Within limit n b s)
    (hd : s.depth < limit) : ∃ m, n = m + 1 ∧ Within limit m b { s with depth := s.depth + 1 } := by
  obtain ⟨hl, hb⟩ := h
  refine ⟨n - 1, by omega, ⟨?_, hb⟩⟩
  show s.depth + 1 + (n - 1) = limit
  omega

theorem Within.depth_lt {limit n : Nat} {b : Bool} {s : ParserState} (h : Within limit n b s) (hn : 0 < n) :
    s.depth < limit := by
  have hl := h.levels
  omega

theorem Within.inside {limit n : Nat} {b : Bool} {s : ParserState} (hs : Within limit n b s) (opening : Token)
    (left? : Option Token) : Within limit n (opening.kind == .bar && left?.isNone)
      { s with openBars := Read.barsInside opening left? s.openBars } := by
  refine ⟨hs.levels, ?_⟩
  show decide (0 < Read.barsInside opening left? s.openBars) = _
  unfold Read.barsInside
  by_cases hk : opening.kind = .bar ∧ left?.isNone = true
  · rw [if_pos hk, hk.1, hk.2]
    simp
  · have hf : (opening.kind == .bar && left?.isNone) = false := by
      rw [← Bool.not_eq_true, Bool.and_eq_true, beq_iff_eq]
      exact hk
    rw [if_neg hk, hf]
    rfl

/-! ## Runs that write down what they pass -/

section
variable {α β : Type} {s t : ParserState}

/-- If the run succeeds, it passes what it writes down, and `P` holds of its result and of the transcript. -/
def Writes (m : Scribe α) (s : ParserState) (P : α → List Mark → Prop) : Prop :=
  Takes (m : ParseM (α × List Mark)) s fun result w => w = Mark.word result.2 ∧ P result.1 result.2

theorem Writes.bind {m : Scribe α} {f : α → Scribe β} {P : α → List Mark → Prop} {Q : β → List Mark → Prop}
    (hm : Writes m s P)
    (hf : ∀ a first t, Moves s (Mark.word first) t → P a first → Writes (f a) t fun b rest => Q b (first ++ rest)) :
    Writes (m >>= f) s Q := by
  refine Takes.bind hm ?_
  rintro ⟨a, first⟩ _ t ht ⟨rfl, hP⟩
  refine Takes.bind (hf a first t ht hP) ?_
  rintro ⟨b, rest⟩ _ u _ ⟨rfl, hQ⟩
  exact takes_pure ⟨by simp, hQ⟩

theorem Writes.mono {m : Scribe α} {P Q : α → List Mark → Prop} (h : Writes m s P)
    (hq : ∀ a marks t, Moves s (Mark.word marks) t → P a marks → Q a marks) : Writes m s Q := by
  intro result t ht
  obtain ⟨w, hw, rfl, hP⟩ := h result t ht
  exact ⟨_, hw, rfl, hq _ _ t hw hP⟩

theorem writes_pure {P : α → List Mark → Prop} {a : α} (h : P a []) : Writes (pure a) s P :=
  takes_pure ⟨by simp, h⟩

theorem Writes.bind_nil {m : Scribe α} {f : α → Scribe β} {P : α → Prop} {Q : β → List Mark → Prop}
    (hm : Writes m s fun a marks => P a ∧ marks = []) (hf : ∀ a, P a → Writes (f a) s Q) : Writes (m >>= f) s Q := by
  refine hm.bind ?_
  rintro a _ t ht ⟨hP, rfl⟩
  rw [Mark.word_nil] at ht
  rw [ht.unique (Moves.refl s)]
  exact hf a hP

/-! ### Runs of the parser -/

theorem writes_lift {m : ParseM α} {P : α → List Token → Prop} (hm : Takes m s P) :
    Writes (liftM m) s fun a marks => ∃ w, marks = w.map .token ∧ P a w := by
  rintro ⟨a, marks⟩ t h
  change Scribe.noting m s = _ at h
  unfold Scribe.noting at h
  cases hr : m s with
  | error halt u =>
    rw [hr] at h
    cases h
  | ok a' u =>
    rw [hr] at h
    cases h
    obtain ⟨w, hw, hP⟩ := hm a t hr
    have hpassed : t.cursor.passed.reverse.drop s.cursor.passed.length = w := by
      rw [hw.passed, List.reverse_append, List.reverse_reverse, List.drop_left' List.length_reverse]
    rw [hpassed]
    exact ⟨w, hw, by simp, w, rfl, hP⟩

theorem Takes.writes {m : ParseM α} {f : α → Scribe β} {P : α → List Token → Prop} {Q : β → List Mark → Prop}
    (hm : Takes m s P)
    (hf : ∀ a w t, Moves s w t → P a w → Writes (f a) t fun b marks => Q b (w.map .token ++ marks)) :
    Writes (liftM m >>= f) s Q := by
  refine (writes_lift hm).bind ?_
  rintro a _ t ht ⟨w, rfl, hP⟩
  rw [Mark.word_map_token] at ht
  exact hf a w t ht hP

theorem writes_of_fails {m : ParseM α} {P : α → List Mark → Prop} (h : Takes m s fun _ _ => False) :
    Writes (liftM m) s P :=
  (writes_lift h).mono fun _ _ _ _ ⟨_, _, hfalse⟩ => hfalse.elim

theorem writes_exhausted {P : α → List Mark → Prop} : Writes (liftM (exhausted : ParseM α)) s P :=
  writes_of_fails takes_exhausted

/-- A run that passes nothing leaves the transcript as it is. -/
theorem writes_silent {m : ParseM α} {f : α → Scribe β} {P : α → Prop} {Q : β → List Mark → Prop}
    (hm : Takes m s fun a w => P a ∧ w = []) (hf : ∀ a, P a → Writes (f a) s Q) : Writes (liftM m >>= f) s Q := by
  refine Writes.bind_nil (P := P) ((writes_lift hm).mono ?_) hf
  rintro a _ t - ⟨_, rfl, hP, rfl⟩
  exact ⟨hP, rfl⟩

theorem writes_state {f : ParserState → Scribe β} {P : β → List Mark → Prop} (h : Writes (f s) s P) :
    Writes (liftM state >>= f) s P := by
  refine writes_silent (P := (· = s)) ?_ ?_
  · intro a t ha
    cases ha
    exact ⟨[], Moves.refl s, rfl, rfl⟩
  · rintro _ rfl
    exact h

theorem writes_current {f : Token → Scribe β} {P : β → List Mark → Prop} (h : Writes (f s.cursor.current) s P) :
    Writes (liftM current >>= f) s P := by
  refine writes_silent (P := (· = s.cursor.current)) (takes_current (takes_pure ⟨rfl, rfl⟩)) ?_
  rintro _ rfl
  exact h

theorem writes_currentKind {f : Kind → Scribe β} {P : β → List Mark → Prop}
    (h : Writes (f s.cursor.current.kind) s P) : Writes (liftM currentKind >>= f) s P := by
  refine writes_silent (P := (· = s.cursor.current.kind)) (takes_currentKind (takes_pure ⟨rfl, rfl⟩)) ?_
  rintro _ rfl
  exact h

theorem writes_advance {f : Token → Scribe β} {P : β → List Mark → Prop} (hk : s.cursor.current.kind ≠ .eof)
    (h : ∀ t, Moves s [s.cursor.current] t →
      Writes (f s.cursor.current) t fun b marks => P b (.token s.cursor.current :: marks)) :
    Writes (liftM advance >>= f) s P := by
  have hm : Takes advance s fun token w => token = s.cursor.current ∧ w = [s.cursor.current] := by
    intro token t ht
    cases ht
    exact ⟨_, moves_advance hk, rfl, rfl⟩
  refine hm.writes ?_
  rintro _ _ t ht ⟨rfl, rfl⟩
  exact h t ht

theorem writes_operationOf {token : Token} {f : String → Scribe β} {P : β → List Mark → Prop}
    (h : ∀ name, token.kind.operation? = some name → Writes (f name) s P) : Writes (operationOf token >>= f) s P := by
  refine Writes.bind_nil (P := fun name => token.kind.operation? = some name) ?_ h
  unfold operationOf
  split
  · next name ho => exact writes_pure ⟨ho, rfl⟩
  · exact writes_of_fails (takes_reject _ _)

/-! ### Readings in their own way -/

theorem writes_neighbour {m : Scribe α} {P : α → List Mark → Prop} (h : Writes m s P) :
    Writes (neighbour m) s fun a marks => ∃ rest, marks = .neighbours :: rest ∧ P a rest := by
  have hmark : Writes (Scribe.mark .neighbours) s fun _ marks => marks = [.neighbours] := takes_pure ⟨by simp, rfl⟩
  refine hmark.bind ?_
  rintro _ _ t ht rfl
  have ht : Moves s [] t := by simpa using ht
  rw [ht.unique (Moves.refl s)]
  exact h.mono fun a rest _ _ hP => ⟨rest, rfl, hP⟩

theorem writes_deeper {limit : Nat} {m : Scribe α} {P : α → List Mark → Prop}
    (h : s.depth < limit → Writes m { s with depth := s.depth + 1 } P) : Writes (deeper limit m) s P :=
  takes_nested h

theorem writes_barred {bars : Nat → Nat} {m : Scribe α} {P : α → List Mark → Prop}
    (h : Writes m { s with openBars := bars s.openBars } P) : Writes (barred bars m) s P :=
  takes_withBars h

theorem writes_delimited {m : Scribe α} {P : α → List Mark → Prop}
    (h : Writes m s fun a marks => Mark.word (Mark.gather marks) = Mark.word marks ∧ P a (Mark.gather marks)) :
    Writes (delimited m) s P := by
  rintro ⟨a, marks⟩ t hr
  change Scribe.gathered m s = _ at hr
  unfold Scribe.gathered at hr
  cases hm : m s with
  | error halt u =>
    rw [hm] at hr
    cases hr
  | ok result u =>
    rw [hm] at hr
    cases hr
    obtain ⟨_, hw, rfl, hword, hP⟩ := h result t hm
    exact ⟨_, hw, hword.symm, hP⟩

end

/-! ## Productions that read no others -/

section
variable {n : Nat} {b : Bool} {s : ParserState}

theorem takes_assignmentTarget (start : Token) (left : Expr) :
    Takes (Read.assignmentTarget start left) s fun name w =>
      left = .symbol name ∧ start.kind.isBareSymbol = true ∧ w = [] := by
  unfold Read.assignmentTarget
  split
  · next name ha hb => exact takes_pure ⟨Expr.asSymbol?_eq_some_iff.1 ha, hb, rfl⟩
  · exact takes_reject _ _

theorem takes_refuseSecondNumber :
    Takes Read.refuseSecondNumber s fun _ w => Read.numberBefore? s.cursor = none ∧ w = [] := by
  refine takes_get ?_
  dsimp only
  split
  · exact takes_reject _ _
  · next hn => exact takes_pure ⟨hn, rfl⟩

theorem takes_takeLeft : Takes Read.takeLeft s fun left? w =>
    left? = none ∧ w = [] ∨ ∃ left, left? = some left ∧ left.kind = .left ∧ w = [left] := by
  refine takes_currentKind ?_
  split
  · next hk =>
    exact takes_advance (by rw [hk]; decide) fun t _ => takes_pure (.inr ⟨_, rfl, hk, rfl⟩)
  · exact takes_pure (.inl ⟨rfl, rfl⟩)

theorem takes_closeLeft (left : Token) :
    Takes (Read.closeLeft (some left)) s fun _ w => ∃ right, right.kind = .right ∧ w = [right] := by
  refine (takes_close (by decide) left).bind ?_
  rintro right _ t - ⟨hr, rfl⟩
  exact takes_pure ⟨right, hr, rfl⟩

theorem takes_mathrm (hk : s.cursor.current.kind.production? = some .mathrm) :
    Takes Read.mathrm s fun e w => Derives n b (.part .mathrm e) w := by
  have hk : s.cursor.current.kind = .mathrm := production?_eq_some_iff.1 hk
  refine takes_advance (by rw [hk]; decide) fun t _ => ?_
  refine takes_bracedName.bind fun name w u _ hn => ?_
  have hd : Derives n b (.part .mathrm (uprightMeaning name)) (s.cursor.current :: w) := .mathrm hk hn
  unfold uprightMeaning at hd
  split
  · exact takes_pure (by simpa using hd)
  · exact takes_pure (by simpa using hd)
  · next ht hf =>
    rw [if_neg ht, if_neg hf] at hd
    exact takes_pure (by simpa using hd)

theorem takes_mathbf (hk : s.cursor.current.kind.production? = some .mathbf) :
    Takes Read.mathbf s fun e w => Derives n b (.part .mathbf e) w := by
  have hk : s.cursor.current.kind = .mathbf := production?_eq_some_iff.1 hk
  refine takes_advance (by rw [hk]; decide) fun t _ => ?_
  refine (takes_expect (by decide)).bind ?_
  rintro opening _ u - ⟨ho, rfl⟩
  refine (takes_expect (by decide)).bind ?_
  rintro question _ v - ⟨hq, rfl⟩
  refine (takes_expect (by decide)).bind ?_
  rintro closing _ x - ⟨hc, rfl⟩
  exact takes_pure (.mathbf (by simp [hk, ho, hq, hc]))

end

/-! ## The productions -/

/--
However the transcript of a production is written out, it is a word of the grammar with the meaning that the
production returns, where stars take the flags away.
-/
def Faithful (limit : Nat) (style : Style) (again : Production → Scribe Expr) : Prop :=
  ∀ p s n b, Within limit n b s → (p.rank = 1 → s.cursor.current.kind.production? = some p) →
    Writes (again p) s fun e marks => Rendered style n b (.part p e) marks

namespace Faithful

variable {limit n : Nat} {style : Style} {b : Bool} {again : Production → Scribe Expr} {s : ParserState}

theorem writes_again (h : Faithful limit style again) (hs : Within limit n b s) {p : Production} (hp : p.rank ≠ 1) :
    Writes (again p) s fun e marks => Rendered style n b (.part p e) marks :=
  h p s n b hs fun hr => absurd hr hp

/-! ### Operators -/

theorem writes_comparison (h : Faithful limit style again) (hs : Within limit n b s) :
    Writes (Read.comparison (.standard limit) again) s fun e marks =>
      Rendered style n b (.part .comparison e) marks := by
  refine writes_current ((h.writes_again hs (p := .expression) (by decide)).bind fun left first t hv hl => ?_)
  have ht := hs.moves hv
  refine writes_currentKind ?_
  split
  · next hk =>
    refine writes_silent ((takes_assignmentTarget _ left).mono fun _ _ ha => and_assoc.2 ha) ?_
    rintro name ⟨rfl, hb⟩
    refine writes_advance (by rw [hk]; decide) fun x hx => ?_
    refine (writes_deeper (P := fun e marks => ∃ m, n = m + 1 ∧ Rendered style m b (.part .comparison e) marks)
      fun hd => ?_).bind ?_
    · obtain ⟨m, hn, hm⟩ := (ht.moves hx).deeper hd
      exact (h.writes_again hm (p := .comparison) (by decide)).mono fun e marks _ _ he => ⟨m, hn, he⟩
    · rintro value rest y - ⟨m, rfl, he⟩
      refine writes_pure ?_
      rw [List.append_nil]
      have hhead := hv.headKind? hl.word_ne_nil
      have htarget : Written style (fun v => Derives (m + 1) b (.part .primary (.symbol name)) v ∧
          (headKind? v).any Kind.isBareSymbol = true) first := by
        refine hl.mono fun v hkept hd => ⟨hd.primary_of_symbol, ?_⟩
        rw [hkept.headKind?_eq hhead ⟨?_, ?_⟩]
        · exact hb
        · intro he
          rw [he] at hb
          cases hb
        · intro he
          rw [he] at hb
          cases hb
      exact htarget.infixed (by rw [hk]; decide) he fun v w hv hw => .assignment hv.1 hv.2 hk hw
  · refine writes_state ?_
    split
    · next hr =>
      have hc := standardLevel_relational.1 hr
      have hne : ∀ kind, kind.isComparison = false → t.cursor.current.kind ≠ kind := by
        intro kind hf he
        rw [← he, hc] at hf
        cases hf
      refine writes_advance (hne _ rfl) fun x hx => ?_
      refine (h.writes_again (ht.moves hx) (p := .expression) (by decide)).bind fun right rest y hy he => ?_
      refine writes_operationOf fun name ho => writes_pure ?_
      rw [List.append_nil]
      exact hl.infixed (hne _ rfl) he fun v w hv hw => .relation hv hc ho hw
    · refine writes_pure ?_
      rw [List.append_nil]
      exact hl.mono fun w _ hd => .comparison hd

theorem writes_sumTail (h : Faithful limit style again) (steps : Nat) {left : Expr} {first : List Mark}
    (hs : Within limit n b s) (hl : Rendered style n b (.part .expression left) first) :
    Writes (Read.sumTail (.standard limit) again steps left) s fun e rest =>
      Rendered style n b (.part .expression e) (first ++ rest) := by
  induction steps generalizing left first s with
  | zero => exact writes_exhausted
  | succ steps ih =>
    refine writes_state ?_
    split
    · next hlevel =>
      have hk := standardLevel_additive.1 hlevel
      refine writes_advance (by intro he; rw [he] at hk; simp at hk) fun t ht => ?_
      have htw := hs.moves ht
      refine (h.writes_again htw (p := .term) (by decide)).bind fun right rest u hu hr => ?_
      refine writes_operationOf fun name ho => ?_
      have hsum : Rendered style n b (.part .expression (.binary name left right false))
          (first ++ .token s.cursor.current :: rest) :=
        hl.infixed (by intro he; rw [he] at hk; simp at hk) hr fun v w hv hw => .sum hv hk ho hw
      refine (ih (htw.moves hu) hsum).mono fun e more _ _ he => ?_
      simpa using he
    · refine writes_pure ?_
      rw [List.append_nil]
      exact hl

/-- The loop of a product, where the parser came from `s₀` by passing what is written down. -/
theorem writes_productTail (h : Faithful limit style again) (steps : Nat) {left : Expr} {first : List Mark}
    {s₀ : ParserState} (hm : Moves s₀ (Mark.word first) s) (hs : Within limit n b s)
    (hl : Rendered style n b (.part .term left) first) :
    Writes (Read.productTail (.standard limit) again steps left) s fun e rest =>
      Rendered style n b (.part .term e) (first ++ rest) := by
  induction steps generalizing left first s with
  | zero => exact writes_exhausted
  | succ steps ih =>
    refine writes_state ?_
    split
    · next hlevel =>
      have hk := standardLevel_multiplicative.1 hlevel
      refine writes_advance (by intro he; rw [he] at hk; simp at hk) fun t ht => ?_
      have htw := hs.moves ht
      refine (h.writes_again htw (p := .factor) (by decide)).bind fun right rest u hu hr => ?_
      refine writes_operationOf fun name ho => ?_
      have hproduct : Rendered style n b (.part .term (.binary name left right false))
          (first ++ .token s.cursor.current :: rest) :=
        hl.infixed (by intro he; rw [he] at hk; simp at hk) hr fun v w hv hw => .times hv hk ho hw
      have hpassed : Moves s₀ (Mark.word (first ++ .token s.cursor.current :: rest)) u := by
        simpa using hm.trans (ht.cons hu)
      refine (ih hpassed (htw.moves hu) hproduct).mono fun e more _ _ he => ?_
      simpa using he
    · refine writes_state ?_
      split
      · next hop =>
        refine writes_silent takes_refuseSecondNumber fun _ hn => ?_
        refine (writes_neighbour (h.writes_again hs (p := .power) (by decide))).bind ?_
        rintro right _ u hu ⟨rest, rfl, hr⟩
        have hu : Moves s (Mark.word rest) u := by simpa using hu
        have hbar : ¬ (b = true ∧ headKind? (Mark.word rest) = some .bar) := by
          rintro ⟨rfl, hw⟩
          rw [atImplicitOperand_standard, hs.bars, hu.current_kind hw] at hop
          cases hop
        have hnum : ¬ (lastKind? (Mark.word first) = some .number ∧ headKind? (Mark.word rest) = some .number) := by
          rintro ⟨hlast, hw⟩
          refine numberBefore?_eq_none_iff.1 hn ⟨?_, hu.current_kind hw⟩
          rw [hm.previous? hl.word_ne_nil]
          exact hlast
        have hpassed : Moves s₀ (Mark.word (first ++ .neighbours :: rest)) u := by
          simpa using hm.trans hu
        refine (ih hpassed (hs.moves hu) (rendered_neighbours hl hr hbar hnum)).mono fun e more _ _ he => ?_
        simpa using he
      · refine writes_pure ?_
        rw [List.append_nil]
        exact hl

theorem writes_factor (h : Faithful limit style again) (hs : Within limit n b s) :
    Writes (Read.factor again) s fun e marks => Rendered style n b (.part .factor e) marks := by
  refine writes_currentKind ?_
  split
  · next hk =>
    refine writes_advance (by rw [hk]; decide) fun t ht => ?_
    refine (h.writes_again (hs.moves ht) (p := .power) (by decide)).bind fun e marks u _ he => writes_pure ?_
    rw [List.append_nil]
    exact he.cons (by rw [hk]; decide) fun w hw => .minus hk hw
  · exact (h.writes_again hs (p := .power) (by decide)).mono fun _ _ _ _ he => he.mono fun w _ hd => .factor hd

theorem writes_raise {sign : Token} {base exponent : Expr} {first rest : List Mark} (hk : sign.kind = .caret)
    (hl : Rendered style n b (.part .power base) first) (hr : Rendered style n b (.part .primary exponent) rest) :
    Writes (Read.raise sign base exponent) s fun e marks =>
      Rendered style n b (.part .power e) (first ++ .token sign :: rest) ∧ marks = [] := by
  have hne : sign.kind ≠ .left := by rw [hk]; decide
  unfold Read.raise
  split
  · next ht =>
    obtain rfl := Expr.asSymbol?_eq_some_iff.1 ht
    exact writes_pure ⟨hl.infixed hne hr fun v w hv hw => .transposed hv hk hw, rfl⟩
  · next ht =>
    have hexponent : exponent.withFlags style.keepsFlags ≠ .symbol "T" := fun he =>
      ht (Expr.asSymbol?_eq_some_iff.2 (Expr.withFlags_eq_symbol_iff.1 he))
    refine writes_operationOf fun name ho => writes_pure ⟨?_, rfl⟩
    exact hl.infixed hne hr fun v w hv hw => .raised hv hk ho hw hexponent

theorem writes_powerTail (h : Faithful limit style again) (steps : Nat) {left : Expr} {first : List Mark}
    (hs : Within limit n b s) (hl : Rendered style n b (.part .power left) first) :
    Writes (Read.powerTail (.standard limit) again steps left) s fun e rest =>
      Rendered style n b (.part .power e) (first ++ rest) := by
  induction steps generalizing left first s with
  | zero => exact writes_exhausted
  | succ steps ih =>
    refine writes_state ?_
    split
    · next hlevel =>
      have hk := standardLevel_power.1 hlevel
      refine writes_advance (by rw [hk]; decide) fun t ht => ?_
      have htw := hs.moves ht
      refine (h.writes_again htw (p := .primary) (by decide)).bind fun exponent rest u hu hr => ?_
      refine (writes_raise hk hl hr).bind_nil fun e he => ?_
      refine (ih (htw.moves hu) he).mono fun e more _ _ he => ?_
      simpa using he
    · refine writes_pure ?_
      rw [List.append_nil]
      exact hl

/-! ### Groupings -/

theorem writes_listTail (h : Faithful limit style again) (allowed : Bool) (steps : Nat) (hs : Within limit n b s) :
    Writes (Read.listTail again allowed steps) s fun es marks =>
      es = [] ∧ marks = [] ∨ allowed = true ∧ ∃ comma rest, comma.kind = .comma ∧ marks = .token comma :: rest ∧
        Rendered style n b (.list true es) rest := by
  induction steps generalizing s with
  | zero => exact writes_exhausted
  | succ steps ih =>
    refine writes_current ?_
    split
    · next hk =>
      refine writes_silent (takes_refuseIf _ _ _) fun _ ha => ?_
      refine writes_advance (by rw [hk]; decide) fun u hu => ?_
      have huw := hs.moves hu
      refine (h.writes_again huw (p := .comparison) (by decide)).bind fun e first x hx he => ?_
      refine (ih (huw.moves hx)).bind fun es rest y _ hes => writes_pure (.inr ⟨by simpa using ha, ?_⟩)
      rcases hes with ⟨rfl, rfl⟩ | ⟨-, comma, more, hc, rfl, hes⟩
      · exact ⟨_, first, hk, by simp, he.mono fun w _ hd => .value hd⟩
      · refine ⟨_, first ++ .token comma :: more, hk, by simp, ?_⟩
        exact he.infixed (by rw [hc]; decide) hes fun v w hv hw => .values hv hc hw
    · exact writes_pure (.inl ⟨rfl, rfl⟩)

theorem writes_listed (h : Faithful limit style again) (allowed : Bool) (steps : Nat) (hs : Within limit n b s) :
    Writes (Read.listed again allowed steps) s fun es marks =>
      Rendered style n b (.list allowed es) marks := by
  refine (h.writes_again hs (p := .comparison) (by decide)).bind fun e first t ht he => ?_
  refine (h.writes_listTail allowed steps (hs.moves ht)).bind fun es rest u _ hes => writes_pure ?_
  rw [List.append_nil]
  rcases hes with ⟨rfl, rfl⟩ | ⟨rfl, comma, more, hc, rfl, hes⟩
  · rw [List.append_nil]
    exact he.mono fun w _ hd => .value hd
  · exact he.infixed (by rw [hc]; decide) hes fun v w hv hw => .values hv hc hw

theorem writes_enclose (opening : Token) (values : List Expr) :
    Writes (Read.enclose opening values) s fun es marks => es = enclosed opening.kind values ∧ marks = [] := by
  unfold Read.enclose enclosed
  split
  · next hk =>
    refine writes_operationOf fun name ho => writes_pure ⟨?_, rfl⟩
    rw [hk] at ho
    cases ho
    rfl
  · exact writes_pure ⟨rfl, rfl⟩

theorem writes_grouping (h : Faithful limit style again) (allowList : Bool) (steps : Nat) (hs : Within limit n b s) :
    Writes (Read.grouping again allowList steps) s fun es marks =>
      Rendered style n b (.group allowList es) marks := by
  refine writes_delimited (takes_takeLeft.writes fun left? v t ht hleft => writes_current ?_)
  have htw := hs.moves ht
  split
  · exact writes_of_fails (takes_reject _ _)
  · next closing hc =>
    refine writes_advance (closing?_ne_eof hc).1 fun u hu => ?_
    refine (writes_barred (h.writes_listed _ steps ((htw.moves hu).inside _ left?))).bind
      fun es inside x _ hes => ?_
    rcases hleft with ⟨rfl, rfl⟩ | ⟨left, rfl, hl, rfl⟩
    · refine (takes_pure (P := fun _ w => w = []) rfl).writes ?_
      rintro _ _ y - rfl
      refine (takes_close (closing?_ne_eof hc).2 _).writes ?_
      rintro token _ z - ⟨hk, rfl⟩
      rw [← hk] at hc
      rw [Option.isNone_none, Bool.and_true] at hes
      refine (writes_enclose _ es).mono ?_
      rintro _ _ _ - ⟨rfl, rfl⟩
      simpa using And.intro (Mark.word_gather _ _ _) (rendered_bare (b := b) hc hes)
    · refine (takes_closeLeft left).writes ?_
      rintro _ _ y - ⟨right, hr, rfl⟩
      refine (takes_close (closing?_ne_eof hc).2 _).writes ?_
      rintro token _ z - ⟨hk, rfl⟩
      rw [← hk] at hc
      rw [Option.isNone_some, Bool.and_false] at hes
      have hleft : ¬ (left.kind = .openParen ∨ left.kind = .bar) := by
        rw [hl]
        decide
      refine (writes_enclose _ es).mono ?_
      rintro _ _ _ - ⟨rfl, rfl⟩
      refine ⟨congrArg Mark.word (Mark.gather_of_not hleft _), ?_⟩
      simpa [Mark.gather_of_not hleft] using rendered_wrapped (b := b) hl hc hr hes

theorem writes_groupingValue (h : Faithful limit style again) (steps : Nat) (hs : Within limit n b s) :
    Writes (Read.groupingValue again steps) s fun e marks => Rendered style n b (.group false [e]) marks := by
  refine (h.writes_grouping false steps hs).bind fun es marks t _ hes => ?_
  split
  · next e he =>
    refine writes_pure ?_
    rw [List.append_nil]
    obtain ⟨w, hw⟩ := exists_renders style marks
    obtain ⟨e', hsingle⟩ := (hes w hw).1.eq_singleton
    obtain ⟨e'', rfl, -⟩ := List.map_eq_singleton_iff.1 hsingle
    cases he
    exact hes
  · exact writes_of_fails takes_unexpected

theorem writes_argument (h : Faithful limit style again) (steps : Nat) (hs : Within limit n b s) :
    Writes (Read.argument (.standard limit) again steps) s fun es marks =>
      Rendered style n b (.argument es) marks := by
  have hlook : Takes Read.atParenthesis s fun found w => Read.atParenthesis s = .ok found s ∧ w = [] := by
    intro found t hf
    cases hf
    exact ⟨[], Moves.refl s, rfl, rfl⟩
  refine writes_silent hlook fun found hf => ?_
  cases found with
  | true =>
    refine (writes_deeper (P := fun es marks => ∃ m, n = m + 1 ∧ Rendered style m b (.group true es) marks)
      fun hd => ?_).mono ?_
    · obtain ⟨m, hn, hm⟩ := hs.deeper hd
      exact (h.writes_grouping true steps hm).mono fun _ _ _ _ hg => ⟨m, hn, hg⟩
    · rintro es marks t hw ⟨m, rfl, hg⟩
      obtain ⟨found', hf', hiff⟩ := atParenthesis_eq hw hg.word_ne_nil hg.two_le_length
      rw [hf] at hf'
      cases hf'
      exact hg.mono fun w hk hd => .parenthesized (hk.opensParenthesis_iff.2 (hiff.1 rfl)) hd
  | false =>
    refine (h.writes_again hs (p := .primary) (by decide)).bind fun e marks t hw he => writes_pure ?_
    rw [List.append_nil]
    obtain ⟨found', hf', hiff⟩ := atParenthesis_eq hw he.word_ne_nil he.two_le_length
    rw [hf] at hf'
    cases hf'
    exact he.mono fun w hk hd => .argument (fun ho => Bool.false_ne_true (hiff.2 (hk.opensParenthesis_iff.1 ho))) hd

/-! ### Subscripts -/

theorem writes_index (h : Faithful limit style again) (steps : Nat) (hs : Within limit n b s) :
    Writes (Read.index (.standard limit) again steps) s fun es marks =>
      Rendered style n b (.index es) marks := by
  refine writes_state ?_
  split
  · next hb =>
    refine takes_bracedName.writes fun name w t hw hname => writes_pure ?_
    rw [List.append_nil]
    have hrun := (atBracedName_iff hw hname).1 hb
    have hd : Derives n b (.index [.symbol name]) w := .indexName hrun hname
    refine written_tokens (start_self hd.ne_nil fun hl => ?_) hd
    obtain ⟨opening, _, _, rfl, ho, -⟩ := hname
    rw [headKind?_cons, ho] at hl
    cases hl
  · next hb =>
    refine (h.writes_argument steps hs).mono fun es marks t hw ha => ha.mono fun w hk hd => ?_
    exact .index (fun hr => hb (atBracedName_of_bracedRun hw (hk.bracedRun hr))) hd

theorem writes_subscriptTail (h : Faithful limit style again) (steps : Nat) {left : Expr} {first : List Mark}
    (hs : Within limit n b s) (hl : Rendered style n b (.part .subscript left) first) :
    Writes (Read.subscriptTail (.standard limit) again steps left) s fun e rest =>
      Rendered style n b (.part .subscript e) (first ++ rest) := by
  induction steps generalizing left first s with
  | zero => exact writes_exhausted
  | succ steps ih =>
    refine writes_state ?_
    split
    · next hlevel =>
      have hk := standardLevel_subscript.1 hlevel
      refine writes_advance (by rw [hk]; decide) fun t ht => ?_
      have htw := hs.moves ht
      refine (h.writes_index steps htw).bind fun es rest u hu hes => ?_
      have hindexed : Rendered style n b (.part .subscript (.accessor left es))
          (first ++ .token s.cursor.current :: rest) := by
        rw [Rendered, Reading.withFlags, Expr.withFlags, Expr.withFlagsOfList_eq_map]
        exact hl.infixed (by rw [hk]; decide) hes fun v w hv hw => .indexed hv hk hw
      refine (ih (htw.moves hu) hindexed).mono fun e more _ _ he => ?_
      simpa using he
    · refine writes_pure ?_
      rw [List.append_nil]
      exact hl

/-! ### Primaries -/

theorem writes_primary (h : Faithful limit style again) (hs : Within limit n b s) :
    Writes (Read.primary (.standard limit) again) s fun e marks =>
      Rendered style n b (.part .primary e) marks := by
  refine writes_currentKind ?_
  split
  · next p hp =>
    refine (writes_deeper (P := fun e marks => ∃ m, n = m + 1 ∧ Rendered style m b (.part p e) marks)
      fun hd => ?_).mono ?_
    · obtain ⟨m, hn, hm⟩ := hs.deeper hd
      exact (h p _ m b hm fun _ => hp).mono fun _ _ _ _ he => ⟨m, hn, he⟩
    · rintro e marks t - ⟨m, rfl, he⟩
      exact he.mono fun w _ hd => .primary (mem_primaries_of_production? hp) hd
  · exact writes_of_fails takes_unexpected

theorem writes_leaf {m : Scribe Expr} {p : Production} (hp : p ∈ [Production.number, .symbol, .mathrm, .mathbf])
    (hm : Writes m s fun e marks => ∃ w, marks = w.map .token ∧ Derives n b (.part p e) w) :
    Writes m s fun e marks => Rendered style n b (.part p e) marks := by
  refine hm.mono ?_
  rintro e _ t - ⟨w, rfl, hd⟩
  exact rendered_leaf hp hd

theorem writes_number (hk : s.cursor.current.kind.production? = some .number) :
    Writes Read.number s fun e marks => Rendered style n b (.part .number e) marks := by
  have hk : s.cursor.current.kind = .number := production?_eq_some_iff.1 hk
  refine writes_leaf (by decide) (writes_advance (by rw [hk]; decide) fun t _ => ?_)
  split
  · next hd => exact writes_pure ⟨[_], rfl, .number hk hd⟩
  · exact writes_of_fails (takes_reject _ _)

theorem writes_symbol (hk : s.cursor.current.kind.production? = some .symbol) :
    Writes Read.symbol s fun e marks => Rendered style n b (.part .symbol e) marks := by
  have hk : s.cursor.current.kind ∈ [Kind.identifier, .symbol, .transpose] := production?_eq_some_iff.1 hk
  refine writes_leaf (by decide) (writes_advance (by intro he; rw [he] at hk; simp at hk) fun t _ => ?_)
  split
  · next hs =>
    split
    · next name hn => exact writes_pure ⟨[_], rfl, .named hs hn⟩
    · exact writes_of_fails (takes_reject _ _)
  · next hs => exact writes_pure ⟨[_], rfl, .letter (by simpa [hs] using hk)⟩

theorem writes_rowTail (h : Faithful limit style again) (steps : Nat) (hs : Within limit n b s) :
    Writes (Read.rowTail again steps) s fun es marks =>
      es = [] ∧ marks = [] ∨ ∃ sign rest, sign.kind = .ampersand ∧ marks = .token sign :: rest ∧
        Rendered style n b (.row es) rest := by
  induction steps generalizing s with
  | zero => exact writes_exhausted
  | succ steps ih =>
    refine writes_currentKind ?_
    split
    · next hk =>
      refine writes_advance (by rw [hk]; decide) fun t ht => ?_
      have htw := hs.moves ht
      refine (h.writes_again htw (p := .expression) (by decide)).bind fun e first u hu he => ?_
      refine (ih (htw.moves hu)).bind fun es rest x _ hes => writes_pure (.inr ?_)
      rcases hes with ⟨rfl, rfl⟩ | ⟨sign, more, hc, rfl, hes⟩
      · exact ⟨_, first, hk, by simp, he.mono fun w _ hd => .entry hd⟩
      · refine ⟨_, first ++ .token sign :: more, hk, by simp, ?_⟩
        exact he.infixed (by rw [hc]; decide) hes fun v w hv hw => .entries hv hc hw
    · exact writes_pure (.inl ⟨rfl, rfl⟩)

theorem writes_row (h : Faithful limit style again) (steps : Nat) (hs : Within limit n b s) :
    Writes (Read.row again steps) s fun row marks =>
      ∃ es, row = .ofEntries es ∧ Rendered style n b (.row es) marks := by
  refine (h.writes_again hs (p := .expression) (by decide)).bind fun e first t ht he => ?_
  refine (h.writes_rowTail steps (hs.moves ht)).bind fun es rest u _ hes => writes_pure ⟨e :: es, rfl, ?_⟩
  rw [List.append_nil]
  rcases hes with ⟨rfl, rfl⟩ | ⟨sign, more, hk, rfl, hes⟩
  · rw [List.append_nil]
    exact he.mono fun w _ hd => .entry hd
  · exact he.infixed (by rw [hk]; decide) hes fun v w hv hw => .entries hv hk hw

theorem writes_rows (h : Faithful limit style again) (opening : Token) (steps : Nat) (hs : Within limit n b s) :
    Writes (Read.rows again opening steps) s fun rows marks => Rendered style n b (.rows rows) marks := by
  induction steps generalizing s with
  | zero => exact writes_exhausted
  | succ steps ih =>
    refine (h.writes_row steps hs).bind ?_
    rintro _ first t ht ⟨es, rfl, hes⟩
    have htw := hs.moves ht
    refine writes_currentKind ?_
    split
    · refine writes_pure ?_
      rw [List.append_nil, Rendered, Reading.withFlags, List.map_singleton, Row.withFlags_ofEntries]
      exact hes.mono fun w _ hd => .lastRow hd
    · next hk =>
      have hne : t.cursor.current.kind ≠ .left := by
        rw [hk]
        decide
      refine writes_advance (by rw [hk]; decide) fun u hu => writes_currentKind ?_
      split
      · refine writes_pure ?_
        rw [Rendered, Reading.withFlags, List.map_singleton, Row.withFlags_ofEntries]
        refine hes.append (written_token hne) ?_
        rintro w _ hd rfl
        exact .brokenRow hd hk
      · refine (ih (htw.moves hu)).bind fun rows rest x _ hrows => writes_pure ?_
        rw [List.append_nil, Rendered, Reading.withFlags, List.map_cons, Row.withFlags_ofEntries]
        exact hes.infixed hne hrows fun v w hv hw => .nextRow hv hk hw
    · exact writes_current (writes_of_fails (takes_current (takes_reject _ _)))

theorem writes_matrix (h : Faithful limit style again) (steps : Nat) (hs : Within limit n b s)
    (hk : s.cursor.current.kind.production? = some .matrix) :
    Writes (Read.matrix again steps) s fun e marks => Rendered style n b (.part .matrix e) marks := by
  have hk : s.cursor.current.kind = .beginEnv := production?_eq_some_iff.1 hk
  refine writes_advance (by rw [hk]; decide) fun t ht => ?_
  refine takes_environmentName.writes fun _ u x hx hu => ?_
  have hxw : Within limit n false { x with openBars := 0 } := ⟨((hs.moves ht).moves hx).levels, rfl⟩
  refine (writes_barred (h.writes_rows _ steps hxw)).bind fun rows marks y _ hrows => ?_
  refine (takes_expect (by decide)).writes ?_
  rintro closing _ z - ⟨hc, rfl⟩
  refine takes_environmentName.writes fun _ w _ _ hw => writes_pure ?_
  rw [Rendered, Reading.withFlags, Expr.withFlags, Row.withFlagsOfList_eq_map]
  have hbetween := hrows.between (s.cursor.current :: u) (closing :: w) (.same (by rw [hk]; decide))
    (.same (by rw [hc]; decide)) fun v hv => Derives.matrix (b := b) hk hu hv hc hw
  simpa using hbetween

theorem writes_frac (h : Faithful limit style again) (steps : Nat) (hs : Within limit n b s)
    (hk : s.cursor.current.kind.production? = some .frac) :
    Writes (Read.frac again steps) s fun e marks => Rendered style n b (.part .frac e) marks := by
  have hk : s.cursor.current.kind = .frac := production?_eq_some_iff.1 hk
  have hsign : s.cursor.current.kind ≠ .left := by
    rw [hk]
    decide
  refine writes_advance (by rw [hk]; decide) fun t ht => writes_silent (takes_demand .openCurly) fun _ hopen => ?_
  have htw := hs.moves ht
  refine (h.writes_groupingValue steps htw).bind fun l first u hu hl => ?_
  have hnumerator : Written style (fun v => headKind? v = some .openCurly ∧
      Derives n b (.group false [l.withFlags style.keepsFlags]) v) first := by
    refine hl.mono fun v hkept hd => ⟨hkept.headKind?_eq ?_ (by decide), hd⟩
    rw [hu.headKind? hl.word_ne_nil, hopen]
  refine Writes.bind (P := fun r rest => Written style (fun w =>
    headKind? w = some .openCurly ∧ Derives n b (.group false [r.withFlags style.keepsFlags]) w ∨
      headKind? w ≠ some .openCurly ∧ Derives n b (.part .primary (r.withFlags style.keepsFlags)) w) rest) ?_ ?_
  · refine writes_currentKind ?_
    split
    · next hc =>
      refine (h.writes_groupingValue steps (htw.moves hu)).mono fun r rest x hx hr => ?_
      refine hr.mono fun w hkept hd => .inl ⟨hkept.headKind?_eq ?_ (by decide), hd⟩
      rw [hx.headKind? hr.word_ne_nil, hc]
    · next hc =>
      refine (h.writes_again (htw.moves hu) (p := .primary) (by decide)).mono fun r rest x hx hr => ?_
      refine hr.mono fun w hkept hd => .inr ⟨fun he => hc ?_, hd⟩
      exact hx.current_kind (hkept.headKind?_of_ne_left he (by decide))
  · intro r rest x _ hr
    refine writes_operationOf fun name ho => writes_pure ?_
    rw [List.append_nil]
    refine (hnumerator.joined hr).cons hsign ?_
    rintro _ ⟨v, w, rfl, ⟨hv, hdl⟩, ⟨hw, hdr⟩ | ⟨hw, hdr⟩⟩
    · exact .fraction hk ho hv hdl hw hdr
    · exact .shortFraction hk ho hv hdl hw hdr

theorem writes_base (h : Faithful limit style again) (function : Token) (hs : Within limit n b s) :
    Writes (Read.base again function) s fun es marks => es = [] ∧ marks = [] ∨
      ∃ base sign rest, function.kind = .log ∧ sign.kind = .underscore ∧ es = [base] ∧ marks = .token sign :: rest ∧
        Rendered style n b (.part .primary base) rest := by
  refine writes_currentKind ?_
  split
  · next hk =>
    refine writes_advance (by rw [hk.2]; decide) fun t ht => ?_
    refine (h.writes_again (hs.moves ht) (p := .primary) (by decide)).bind fun base rest u _ hb => ?_
    exact writes_pure (.inr ⟨base, _, rest, hk.1, hk.2, rfl, by simp, hb⟩)
  · exact writes_pure (.inl ⟨rfl, rfl⟩)

theorem writes_function (h : Faithful limit style again) (steps : Nat) (hs : Within limit n b s)
    (hk : s.cursor.current.kind.production? = some .function) :
    Writes (Read.function (.standard limit) again steps) s fun e marks =>
      Rendered style n b (.part .function e) marks := by
  have hk : s.cursor.current.kind.isFunction = true := production?_eq_some_iff.1 hk
  have hne : ∀ kind, kind.isFunction = false → s.cursor.current.kind ≠ kind := by
    intro kind hf he
    rw [← he, hk] at hf
    cases hf
  refine writes_advance (hne _ rfl) fun t ht => writes_operationOf fun name ho => ?_
  have htw := hs.moves ht
  refine (h.writes_base _ htw).bind fun base first u hu hbase => ?_
  refine (h.writes_argument steps (htw.moves hu)).bind fun es rest x _ hes => writes_pure ?_
  rw [List.append_nil, Rendered, Reading.withFlags, Expr.withFlags, Expr.withFlagsOfList_eq_map, List.map_append]
  rcases hbase with ⟨rfl, rfl⟩ | ⟨base, sign, more, hl, hsign, rfl, rfl, hbase⟩
  · rw [List.map_nil, List.append_nil]
    exact hes.cons (hne _ rfl) fun w hw => .function hk ho hw
  · have hsigns : Written style (· = [s.cursor.current, sign]) ([s.cursor.current, sign].map .token) :=
      written_tokens (.same (hne _ rfl)) rfl
    refine hsigns.append (hbase.joined hes) ?_
    rintro _ _ rfl ⟨v, w, rfl, hv, hw⟩
    show Derives n b _ (s.cursor.current :: sign :: (v ++ w))
    exact .logarithm hl ho hsign hv hw

theorem writes_operatorname (h : Faithful limit style again) (steps : Nat) (hs : Within limit n b s)
    (hk : s.cursor.current.kind.production? = some .operatorname) :
    Writes (Read.operatorname (.standard limit) again steps) s fun e marks =>
      Rendered style n b (.part .operatorname e) marks := by
  have hk : s.cursor.current.kind = .operatorname := production?_eq_some_iff.1 hk
  refine writes_advance (by rw [hk]; decide) fun t ht => ?_
  refine takes_bracedName.writes fun name v u hu hn => ?_
  refine (h.writes_argument steps ((hs.moves ht).moves hu)).bind fun es marks x _ hes => writes_pure ?_
  rw [List.append_nil, Rendered, Reading.withFlags, Expr.withFlags, Expr.withFlagsOfList_eq_map]
  have hname : Written style (· = s.cursor.current :: v) ((s.cursor.current :: v).map .token) :=
    written_tokens (.same (by rw [hk]; decide)) rfl
  refine hname.append hes ?_
  rintro _ w rfl hw
  exact .operatorname hk hn hw

theorem faithful_body (h : Faithful limit style again) (steps : Nat) :
    Faithful limit style (Read.body (.standard limit) again steps) := by
  intro p s n b hs hp
  cases p with
  | comparison => exact h.writes_comparison hs
  | expression =>
    exact (h.writes_again hs (p := .term) (by decide)).bind fun _ _ _ hv he =>
      h.writes_sumTail steps (hs.moves hv) (he.mono fun w _ hd => .expression hd)
  | term =>
    exact (h.writes_again hs (p := .factor) (by decide)).bind fun _ _ _ hv he =>
      h.writes_productTail steps hv (hs.moves hv) (he.mono fun w _ hd => .term hd)
  | factor => exact h.writes_factor hs
  | power =>
    exact (h.writes_again hs (p := .subscript) (by decide)).bind fun _ _ _ hv he =>
      h.writes_powerTail steps (hs.moves hv) (he.mono fun w _ hd => .power hd)
  | subscript =>
    exact (h.writes_again hs (p := .primary) (by decide)).bind fun _ _ _ hv he =>
      h.writes_subscriptTail steps (hs.moves hv) (he.mono fun w _ hd => .subscript hd)
  | primary => exact h.writes_primary hs
  | number => exact writes_number (hp rfl)
  | symbol => exact writes_symbol (hp rfl)
  | mathrm => exact writes_leaf (by decide) (writes_lift (takes_mathrm (hp rfl)))
  | mathbf => exact writes_leaf (by decide) (writes_lift (takes_mathbf (hp rfl)))
  | grouping =>
    exact (h.writes_groupingValue steps hs).mono fun _ _ _ _ he => he.mono fun w _ hd => .grouping hd
  | matrix => exact h.writes_matrix steps hs (hp rfl)
  | frac => exact h.writes_frac steps hs (hp rfl)
  | function => exact h.writes_function steps hs (hp rfl)
  | operatorname => exact h.writes_operatorname steps hs (hp rfl)

end Faithful

/-- Whatever is read in any number of steps can be written out in any way. -/
theorem faithful_production (limit : Nat) (style : Style) (steps : Nat) :
    Faithful limit style (Read.production (.standard limit) steps) := by
  induction steps with
  | zero =>
    intro p s n b _ _
    exact writes_exhausted
  | succ steps ih => exact ih.faithful_body steps

end TexFormula

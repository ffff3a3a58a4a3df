import TexFormula.Proofs.Grammar.Basic

/-!
# What a run of the parser takes from the stream

* `Moves s w t` : the parser comes from `s` to `t` by passing the tokens `w`, in the same level and
  with the same bars open; `Moves.split` finds the state between two parts of a word;
* `Takes m s P` : if the run `m` succeeds from `s` on, then it passes some tokens, and `P` holds of
  its result and of these; `Takes.bind` puts two runs together;
* `advance_of_moves`, `expectOr_of_moves`, `bracedName_of_moves` and the like : what a step does where
  the tokens ahead are known.
-/

namespace TexFormula

open ParseM

/-! ## Moving over tokens -/

/-- The parser comes from `s` to `t` by passing the tokens `w`. -/
structure Moves (s : ParserState) (w : List Token) (t : ParserState) : Prop where
  passed : t.cursor.passed = w.reverse ++ s.cursor.passed
  ahead : s.cursor.ahead = w ++ t.cursor.ahead
  stop : t.cursor.stop = s.cursor.stop
  depth : t.depth = s.depth
  openBars : t.openBars = s.openBars

section
variable {s t u : ParserState} {v w : List Token} {token : Token}

theorem Moves.refl (s : ParserState) : Moves s [] s := ⟨rfl, rfl, rfl, rfl, rfl⟩

theorem Moves.trans (h : Moves s v t) (h' : Moves t w u) : Moves s (v ++ w) u where
  passed := by rw [h'.passed, h.passed, List.reverse_append, List.append_assoc]
  ahead := by rw [h.ahead, h'.ahead, List.append_assoc]
  stop := h'.stop.trans h.stop
  depth := h'.depth.trans h.depth
  openBars := h'.openBars.trans h.openBars

theorem Moves.cons (h : Moves s [token] t) (h' : Moves t w u) : Moves s (token :: w) u := h.trans h'

theorem Moves.split (h : Moves s (v ++ w) u) : ∃ t, Moves s v t ∧ Moves t w u := by
  refine ⟨⟨⟨v.reverse ++ s.cursor.passed, w ++ u.cursor.ahead, s.cursor.stop⟩, s.depth, s.openBars⟩, ?_, ?_⟩
  · exact ⟨rfl, by rw [h.ahead, List.append_assoc], rfl, rfl, rfl⟩
  · exact ⟨by rw [h.passed, List.reverse_append, List.append_assoc], rfl, h.stop, h.depth, h.openBars⟩

/-- Where the parser comes to is settled by the tokens it passes. -/
theorem Moves.unique (h : Moves s w t) (h' : Moves s w u) : t = u := by
  obtain ⟨⟨passed, ahead, stop⟩, depth, bars⟩ := t
  obtain ⟨⟨passed', ahead', stop'⟩, depth', bars'⟩ := u
  have hp : passed = passed' := h.passed.trans h'.passed.symm
  have ha : ahead = ahead' := List.append_cancel_left (h.ahead.symm.trans h'.ahead)
  have hs : stop = stop' := h.stop.trans h'.stop.symm
  have hd : depth = depth' := h.depth.trans h'.depth.symm
  have hb : bars = bars' := h.openBars.trans h'.openBars.symm
  rw [hp, ha, hs, hd, hb]

theorem Moves.withDepth (h : Moves s w t) (d : Nat) : Moves { s with depth := d } w { t with depth := d } :=
  ⟨h.passed, h.ahead, h.stop, rfl, h.openBars⟩

theorem Moves.withBars (h : Moves s w t) (bars : Nat) :
    Moves { s with openBars := bars } w { t with openBars := bars } :=
  ⟨h.passed, h.ahead, h.stop, h.depth, rfl⟩

theorem Moves.current (h : Moves s (token :: w) t) : s.cursor.current = token := by
  simp [Cursor.current, Cursor.peek, h.ahead]

theorem Moves.headKind? (h : Moves s w t) (hw : w ≠ []) :
    TexFormula.headKind? w = some s.cursor.current.kind := by
  cases w with
  | nil => exact absurd rfl hw
  | cons token w => rw [h.current, headKind?_cons]

theorem Moves.current_kind (h : Moves s w t) {kind : Kind} (hw : TexFormula.headKind? w = some kind) :
    s.cursor.current.kind = kind := by
  rw [h.headKind? (ne_nil_of_headKind? hw)] at hw
  exact Option.some.inj hw

theorem Moves.previous? (h : Moves s w t) (hw : w ≠ []) : t.cursor.previous? = w.getLast? := by
  rw [Cursor.previous?, h.passed, List.head?_append, List.head?_reverse]
  obtain ⟨token, ht⟩ := Option.isSome_iff_exists.1 (List.getLast?_isSome.2 hw)
  rw [ht]
  rfl

theorem moves_advance (h : s.cursor.current.kind ≠ .eof) :
    Moves s [s.cursor.current] { s with cursor := s.cursor.advance } := by
  unfold Cursor.current Cursor.peek at h ⊢
  cases ha : s.cursor.ahead with
  | nil =>
    rw [ha] at h
    exact absurd rfl h
  | cons token rest =>
    rw [ha] at h
    have hk : token.kind ≠ .eof := h
    simp only [Cursor.advance, ha, if_neg hk]
    exact ⟨rfl, ha, rfl, rfl, rfl⟩

theorem advance_of_moves (h : Moves s (token :: w) t) (hk : token.kind ≠ .eof) :
    ∃ u, advance s = .ok token u ∧ Moves s [token] u ∧ Moves u w t := by
  have hc := h.current
  have ha := moves_advance (s := s) (by rw [hc]; exact hk)
  obtain ⟨u, hsu, hut⟩ := h.split (v := [token])
  rw [hc] at ha
  refine ⟨u, ?_, hsu, hut⟩
  rw [hsu.unique ha, ← hc]
  rfl

end

/-! ## Runs that succeed -/

section
variable {α β : Type} {s t u : ParserState} {v w : List Token}

theorem bind_eq_of_ok {m : ParseM α} {f : α → ParseM β} {a : α} (h : m s = .ok a t) : (m >>= f) s = f a t := by
  show EStateM.bind m f s = _
  rw [EStateM.bind, h]

theorem bind_eq_ok_iff {m : ParseM α} {f : α → ParseM β} {b : β} :
    (m >>= f) s = .ok b u ↔ ∃ a t, m s = .ok a t ∧ f a t = .ok b u := by
  show EStateM.bind m f s = _ ↔ _
  unfold EStateM.bind
  cases m s with
  | error h t => simp
  | ok a t =>
    constructor
    · intro h
      exact ⟨a, t, rfl, h⟩
    · rintro ⟨a', t', h, hf⟩
      cases h
      exact hf

/-- If the run succeeds, it passes some tokens, and `P` holds of its result and of these. -/
def Takes (m : ParseM α) (s : ParserState) (P : α → List Token → Prop) : Prop :=
  ∀ a t, m s = .ok a t → ∃ w, Moves s w t ∧ P a w

theorem Takes.bind {m : ParseM α} {f : α → ParseM β} {P : α → List Token → Prop}
    {Q : β → List Token → Prop} (hm : Takes m s P)
    (hf : ∀ a v t, Moves s v t → P a v → Takes (f a) t fun b w => Q b (v ++ w)) : Takes (m >>= f) s Q := by
  intro b u h
  obtain ⟨a, t, ha, hb⟩ := bind_eq_ok_iff.1 h
  obtain ⟨v, hv, hP⟩ := hm a t ha
  obtain ⟨w, hw, hQ⟩ := hf a v t hv hP b u hb
  exact ⟨v ++ w, hv.trans hw, hQ⟩

theorem Takes.mono {m : ParseM α} {P Q : α → List Token → Prop} (h : Takes m s P)
    (hq : ∀ a w, P a w → Q a w) : Takes m s Q := by
  intro a t ha
  obtain ⟨w, hw, hP⟩ := h a t ha
  exact ⟨w, hw, hq a w hP⟩

theorem takes_pure {P : α → List Token → Prop} {a : α} (h : P a []) : Takes (pure a) s P := by
  intro a' t ha
  cases ha
  exact ⟨[], Moves.refl s, h⟩

theorem takes_reject {P : α → List Token → Prop} (fault : SyntaxFault) (token : Token) :
    Takes (reject fault token) s P := by
  intro a t ha
  cases ha

theorem takes_exhausted {P : α → List Token → Prop} : Takes (throw .exhausted) s P := by
  intro a t ha
  cases ha

theorem takes_unexpected {P : α → List Token → Prop} : Takes unexpected s P := by
  intro a t ha
  cases ha

theorem takes_get {f : ParserState → ParseM β} {P : β → List Token → Prop} (h : Takes (f s) s P) :
    Takes (get >>= f) s P := h

theorem takes_current {f : Token → ParseM β} {P : β → List Token → Prop}
    (h : Takes (f s.cursor.current) s P) : Takes (current >>= f) s P := h

theorem takes_currentKind {f : Kind → ParseM β} {P : β → List Token → Prop}
    (h : Takes (f s.cursor.current.kind) s P) : Takes (currentKind >>= f) s P := h

theorem takes_advance {f : Token → ParseM β} {P : β → List Token → Prop}
    (hk : s.cursor.current.kind ≠ .eof)
    (h : ∀ t, Moves s [s.cursor.current] t →
      Takes (f s.cursor.current) t fun b w => P b (s.cursor.current :: w)) :
    Takes (advance >>= f) s P := by
  intro b u hb
  obtain ⟨a, t, ha, hf⟩ := bind_eq_ok_iff.1 hb
  cases ha
  have hm := moves_advance hk
  obtain ⟨w, hw, hP⟩ := h _ hm b u hf
  exact ⟨_, hm.cons hw, hP⟩

theorem takes_refuseIf (refused : Bool) (fault : SyntaxFault) (token : Token) :
    Takes (refuseIf refused fault token) s fun _ w => refused = false ∧ w = [] := by
  cases refused
  · exact takes_pure ⟨rfl, rfl⟩
  · exact takes_reject _ _

theorem expectOr_of_moves {token : Token} {kind : Kind} (h : Moves s (token :: w) t) (hk : token.kind = kind)
    (hne : kind ≠ .eof) (fault : Token → SyntaxFault) :
    ∃ u, expectOr kind fault s = .ok token u ∧ Moves s [token] u ∧ Moves u w t := by
  obtain ⟨u, hadv, hsu, hut⟩ := advance_of_moves h (by rw [hk]; exact hne)
  refine ⟨u, bind_eq_ok_iff.2 ⟨(), s, ?_, hadv⟩, hsu, hut⟩
  rw [demandOr_eq, h.current, if_pos hk]

theorem takes_expectOr {kind : Kind} (hk : kind ≠ .eof) (fault : Token → SyntaxFault) :
    Takes (expectOr kind fault) s fun token w => token.kind = kind ∧ w = [token] := by
  intro a t ha
  obtain ⟨_, u, hd, ha⟩ := bind_eq_ok_iff.1 ha
  rw [demandOr_eq] at hd
  split at hd
  · next h =>
    cases hd
    cases ha
    exact ⟨_, moves_advance (by rw [h]; exact hk), h, rfl⟩
  · cases hd

theorem takes_expect {kind : Kind} (hk : kind ≠ .eof) :
    Takes (expect kind) s fun token w => token.kind = kind ∧ w = [token] := takes_expectOr hk _

theorem takes_demand (kind : Kind) :
    Takes (demand kind) s fun _ w => s.cursor.current.kind = kind ∧ w = [] := by
  intro a t ha
  rw [demand, demandOr_eq] at ha
  split at ha
  · next h =>
    cases ha
    exact ⟨[], Moves.refl _, h, rfl⟩
  · cases ha

theorem takes_close {kind : Kind} (hk : kind ≠ .eof) (opened : Token) :
    Takes (close opened kind) s fun token w => token.kind = kind ∧ w = [token] := takes_expectOr hk _

theorem takes_nested {limit : Nat} {m : ParseM α} {P : α → List Token → Prop}
    (h : s.depth < limit → Takes m { s with depth := s.depth + 1 } P) : Takes (nested limit m) s P := by
  intro a u ha
  rw [nested_eq] at ha
  split at ha
  · cases ha
  · next hd =>
    split at ha
    · next a' t hm =>
      obtain ⟨w, hw, hP⟩ := h (Nat.lt_of_not_le hd) a' t hm
      cases ha
      refine ⟨w, ⟨hw.passed, hw.ahead, hw.stop, ?_, hw.openBars⟩, hP⟩
      show t.depth - 1 = s.depth
      rw [hw.depth]
      rfl
    · cases ha

theorem takes_withBars {bars : Nat → Nat} {m : ParseM α} {P : α → List Token → Prop}
    (h : Takes m { s with openBars := bars s.openBars } P) : Takes (withBars bars m) s P := by
  intro a u ha
  rw [withBars_eq] at ha
  split at ha
  · next a' t hm =>
    obtain ⟨w, hw, hP⟩ := h a' t hm
    cases ha
    exact ⟨w, ⟨hw.passed, hw.ahead, hw.stop, hw.depth, rfl⟩, hP⟩
  · cases ha

/-! ## Names -/

theorem exists_run (tokens : List Token) : ∃ run rest, tokens = run ++ rest ∧
    run.map Token.fragment? = (fragmentRun tokens).map some ∧
    ∀ token ∈ rest.head?, token.fragment? = none := by
  induction tokens with
  | nil => exact ⟨[], [], rfl, rfl, by simp⟩
  | cons token tokens ih =>
    rw [fragmentRun]
    cases hf : token.fragment? with
    | none => exact ⟨[], token :: tokens, rfl, rfl, by simpa using hf⟩
    | some fragment =>
      obtain ⟨run, rest, heq, hrun, hrest⟩ := ih
      exact ⟨token :: run, rest, by rw [heq, List.cons_append], by rw [List.map_cons, hf, hrun, List.map_cons], hrest⟩

/-- A run of letter-like tokens ends before the first token that is not one. -/
theorem fragmentRun_append {run rest : List Token} {fragments : List String}
    (hrun : run.map Token.fragment? = fragments.map some) (hrest : ∀ token ∈ rest.head?, token.fragment? = none) :
    fragmentRun (run ++ rest) = fragments := by
  induction run generalizing fragments with
  | nil =>
    rw [List.map_nil] at hrun
    rw [List.map_eq_nil_iff.1 hrun.symm]
    cases rest with
    | nil => rfl
    | cons token rest =>
      have ht : token.fragment? = none := hrest token rfl
      rw [List.nil_append, fragmentRun, ht]
  | cons token run ih =>
    cases fragments with
    | nil => cases hrun
    | cons fragment fragments =>
      rw [List.map_cons, List.map_cons, List.cons.injEq] at hrun
      rw [List.cons_append, fragmentRun, hrun.1, ih hrun.2]

theorem length_of_fragments {run : List Token} {fragments : List String}
    (hrun : run.map Token.fragment? = fragments.map some) : fragments.length = run.length := by
  have h := congrArg List.length hrun
  rw [List.length_map, List.length_map] at h
  exact h.symm

theorem moves_advanceBy (hw : ∀ token ∈ w, token.kind ≠ .eof) {rest : List Token}
    (ha : s.cursor.ahead = w ++ rest) :
    Moves s w { s with cursor := s.cursor.advanceBy w.length } := by
  induction w generalizing s with
  | nil => exact Moves.refl s
  | cons token w ih =>
    have hc : s.cursor.current = token := by simp [Cursor.current, Cursor.peek, ha]
    have hm := moves_advance (s := s) (by rw [hc]; exact hw token List.mem_cons_self)
    rw [hc] at hm
    have hnext : s.cursor.advance.ahead = w ++ rest := by
      have hahead := hm.ahead
      rw [ha] at hahead
      exact (List.cons.inj hahead).2.symm
    exact hm.cons (ih (s := { s with cursor := s.cursor.advance })
      (fun token ht => hw token (List.mem_cons_of_mem _ ht)) hnext)

theorem takes_takeName : Takes takeName s fun name w => Spells w name := by
  intro name t h
  cases h
  obtain ⟨run, rest, ha, hrun, -⟩ := exists_run s.cursor.ahead
  have hs : Spells run (String.join (fragmentRun s.cursor.ahead)) := ⟨_, hrun, rfl⟩
  refine ⟨run, ?_, hs⟩
  have hm := moves_advanceBy (fun token ht => kind_ne_of_isSome (hs.isSome ht) (by decide)) ha
  rw [← length_of_fragments hrun] at hm
  exact hm

theorem takes_refuseName (refused : Bool) :
    Takes (refuseName refused) s fun _ w => refused = false ∧ w = [] := takes_current (takes_refuseIf _ _ _)

theorem takes_bracedName : Takes bracedName s BracedName := by
  refine (takes_expect (by decide)).bind ?_
  rintro opening _ t - ⟨ho, rfl⟩
  refine takes_currentKind ((takes_refuseName _).bind ?_)
  rintro _ _ u hu ⟨hk, rfl⟩
  refine takes_takeName.bind fun name run v hv hs => (takes_refuseName _).bind ?_
  rintro _ _ x - ⟨hne, rfl⟩
  refine (takes_expect (by decide)).bind ?_
  rintro closing _ y - ⟨hc, rfl⟩
  refine takes_pure ⟨opening, run, closing, rfl, ho, hc, hs, ?_, ?_⟩
  · intro h
    rw [h] at hne
    cases hne
  · intro h
    have hcur := hv.current_kind h
    rw [hu.unique (Moves.refl t)] at hcur
    rw [hcur] at hk
    cases hk

theorem refuseName_eq {refused : Bool} (h : refused = false) : refuseName refused s = .ok () s := by
  rw [h]
  rfl

theorem bracedName_of_moves {name : String} (h : Moves s w t) (hw : BracedName name w) :
    bracedName s = .ok name t := by
  obtain ⟨opening, run, closing, rfl, ho, hc, hs, hne, hnum⟩ := hw
  have ⟨fragments, hrun, hname⟩ := hs
  obtain ⟨x, hopen, -, hxt⟩ := expectOr_of_moves h ho (by decide) fun found => .expectedToken _ found.text
  obtain ⟨y, hxy, hyt⟩ := hxt.split
  obtain ⟨z, hclose, -, hzt⟩ := expectOr_of_moves hyt hc (by decide) fun found => .expectedToken _ found.text
  obtain rfl := hzt.unique (Moves.refl z)
  have hfrag : fragmentRun x.cursor.ahead = fragments := by
    rw [hxt.ahead, List.append_assoc]
    refine fragmentRun_append hrun fun token ht => ?_
    obtain rfl := Option.some.inj ht
    unfold Token.fragment?
    rw [hc]
  have htake : takeName x = .ok name y := by
    have hm := moves_advanceBy (fun token ht => kind_ne_of_isSome (hs.isSome ht) (by decide)) hxy.ahead
    rw [hxy.unique hm, hname, ← hfrag, ← length_of_fragments hrun, ← hfrag]
    rfl
  have hfirst : (x.cursor.current.kind == .number) = false := by
    refine beq_eq_false_iff_ne.2 fun hk => hnum ?_
    have hrne : run ≠ [] := by
      rintro rfl
      rw [List.map_nil] at hrun
      rw [hname, List.map_eq_nil_iff.1 hrun.symm] at hne
      exact hne rfl
    rw [hxy.headKind? hrne, hk]
  refine bind_eq_ok_iff.2 ⟨opening, x, hopen, bind_eq_ok_iff.2 ⟨_, x, rfl, ?_⟩⟩
  refine bind_eq_ok_iff.2 ⟨(), x, refuseName_eq hfirst, bind_eq_ok_iff.2 ⟨name, y, htake, ?_⟩⟩
  refine bind_eq_ok_iff.2 ⟨(), y, refuseName_eq (by simpa using hne), ?_⟩
  exact bind_eq_ok_iff.2 ⟨closing, t, hclose, rfl⟩

theorem takes_environmentName : Takes environmentName s fun _ w => EnvironmentName w := by
  refine (takes_expect (by decide)).bind ?_
  rintro opening _ t - ⟨ho, rfl⟩
  refine takes_get ((takes_expectOr (by decide) _).bind ?_)
  rintro name _ u - ⟨hn, rfl⟩
  refine (takes_expect (by decide)).bind ?_
  rintro closing _ v - ⟨hc, rfl⟩
  refine takes_pure ?_
  show List.map Token.kind [opening, name, closing] = _
  rw [List.map_cons, List.map_cons, List.map_cons, ho, hn, hc]
  rfl

theorem environmentName_of_moves (h : Moves s w t) (hw : EnvironmentName w) : environmentName s = .ok () t := by
  obtain ⟨opening, w, rfl, ho, hw⟩ := List.map_eq_cons_iff.1 hw
  obtain ⟨name, w, rfl, hn, hw⟩ := List.map_eq_cons_iff.1 hw
  obtain ⟨closing, w, rfl, hc, hw⟩ := List.map_eq_cons_iff.1 hw
  obtain rfl := List.map_eq_nil_iff.1 hw
  obtain ⟨x, hopen, -, hxt⟩ := expectOr_of_moves h ho (by decide) fun found => .expectedToken _ found.text
  obtain ⟨y, hname, -, hyt⟩ := expectOr_of_moves hxt hn (by decide)
    fun _ => .unsupportedEnvironment (misplacedName x.cursor)
  obtain ⟨z, hclose, -, hzt⟩ := expectOr_of_moves hyt hc (by decide) fun found => .expectedToken _ found.text
  obtain rfl := hzt.unique (Moves.refl z)
  refine bind_eq_ok_iff.2 ⟨opening, x, hopen, bind_eq_ok_iff.2 ⟨x, x, rfl, ?_⟩⟩
  exact bind_eq_ok_iff.2 ⟨name, y, hname, bind_eq_ok_iff.2 ⟨closing, t, hclose, rfl⟩⟩

/-! ## Looking around -/

theorem atImplicitOperand_standard (limit : Nat) : s.atImplicitOperand (.standard limit) =
    s.cursor.current.kind.startsOperand (decide (0 < s.openBars)) := rfl

/-- Nothing is refused unless two numbers stand side by side. -/
theorem numberBefore?_eq_none_iff {cursor : Cursor} : Read.numberBefore? cursor = none ↔
    ¬ (cursor.previous?.map Token.kind = some .number ∧ cursor.current.kind = .number) := by
  unfold Read.numberBefore?
  split
  · next hc => cases cursor.previous? <;> simp [hc, Option.filter]
  · next hc => simp [hc]

theorem refuseSecondNumber_eq (h : Read.numberBefore? s.cursor = none) : Read.refuseSecondNumber s = .ok () s := by
  unfold Read.refuseSecondNumber
  rw [bind_eq_of_ok (show state s = .ok s s from rfl), h]
  rfl

/-- Whether the parser sees a parenthesis open is a matter of the word it is about to pass. -/
theorem atParenthesis_eq (h : Moves s w t) (hw : w ≠ []) (hl : headKind? w = some .left → 2 ≤ w.length) :
    ∃ found, Read.atParenthesis s = .ok found s ∧ (found = true ↔ OpensParenthesis w) := by
  refine ⟨_, rfl, ?_⟩
  obtain ⟨token, w, rfl⟩ := List.exists_cons_of_ne_nil hw
  have hc := h.current
  simp only [OpensParenthesis, headKind?_cons, List.tail_cons, Option.some.injEq] at hl ⊢
  rw [hc, Bool.or_eq_true, Bool.and_eq_true, beq_iff_eq, beq_iff_eq, beq_iff_eq]
  refine or_congr_right (and_congr_right fun hk => ?_)
  cases w with
  | nil => exact absurd (hl hk) (by simp)
  | cons second w => simp [Cursor.peek, h.ahead]

/-- The run of letter-like tokens in braces is what the parser sees when it looks ahead. -/
theorem fragments_of_moves {opening closing : Token} {run : List Token} {fragments : List String}
    (h : Moves s (opening :: (run ++ [closing])) t) (hc : closing.kind = .closeCurly)
    (hrun : run.map Token.fragment? = fragments.map some) :
    s.cursor.fragments 1 = fragments ∧ (s.cursor.peek (fragments.length + 1)).kind = .closeCurly := by
  have ha : s.cursor.ahead.drop 1 = run ++ closing :: t.cursor.ahead := by
    rw [h.ahead]
    simp
  have hfrag : closing.fragment? = none := by
    unfold Token.fragment?
    rw [hc]
  constructor
  · rw [Cursor.fragments, ha]
    exact fragmentRun_append hrun (by simpa using hfrag)
  · rw [Cursor.peek, h.ahead, length_of_fragments hrun]
    simp [hc]

theorem atBracedName_of_bracedRun (h : Moves s w t) (hw : BracedRun w) :
    Read.atBracedName s.cursor = true := by
  obtain ⟨opening, run, closing, rfl, ho, hc, ⟨name, fragments, hrun, -⟩, hlen, hnum⟩ := hw
  obtain ⟨hf, hp⟩ := fragments_of_moves h hc hrun
  have hsecond : (s.cursor.peek 1).kind ≠ .number := by
    cases run with
    | nil => exact absurd hlen (by simp)
    | cons first run =>
      rw [headKind?_cons] at hnum
      simpa [Cursor.peek, h.ahead] using hnum
  rw [length_of_fragments hrun] at hp
  unfold Read.atBracedName
  simp [hf, h.current, ho, length_of_fragments hrun, hlen, hsecond, hp]

theorem bracedRun_of_atBracedName (h : Read.atBracedName s.cursor = true) :
    ∃ v rest, s.cursor.ahead = v ++ rest ∧ BracedRun v := by
  simp only [Read.atBracedName, Bool.and_eq_true, beq_iff_eq, bne_iff_ne, decide_eq_true_eq] at h
  obtain ⟨⟨⟨ho, hlen⟩, hnum⟩, hc⟩ := h
  unfold Cursor.current Cursor.peek at ho
  unfold Cursor.peek at hnum hc
  unfold Cursor.fragments at hlen hc
  cases ha : s.cursor.ahead with
  | nil =>
    rw [ha] at ho
    cases ho
  | cons opening tokens =>
    obtain ⟨run, rest, rfl, hrun, -⟩ := exists_run tokens
    rw [ha, List.drop_one, List.tail_cons, length_of_fragments hrun] at hc hlen
    rw [ha] at ho hnum
    cases rest with
    | nil => simp [EndMark.token] at hc
    | cons closing rest =>
      refine ⟨opening :: (run ++ [closing]), rest, by simp, opening, run, closing, rfl, ho, ?_, ?_, hlen, ?_⟩
      · simpa using hc
      · exact ⟨_, _, hrun, rfl⟩
      · cases run with
        | nil => simp
        | cons first run => simpa using hnum

/-- Where a name in braces is read, the parser saw a run of letter-like tokens if there is one. -/
theorem atBracedName_iff {name : String} (h : Moves s w t) (hw : BracedName name w) :
    Read.atBracedName s.cursor = true ↔ BracedRun w := by
  refine ⟨fun hb => ?_, atBracedName_of_bracedRun h⟩
  obtain ⟨opening, run, closing, rfl, ho, hc, hs, -, hnum⟩ := hw
  have ⟨fragments, hrun, _⟩ := hs
  obtain ⟨hf, -⟩ := fragments_of_moves h hc hrun
  refine ⟨opening, run, closing, rfl, ho, hc, ⟨name, hs⟩, ?_, hnum⟩
  unfold Read.atBracedName at hb
  rw [hf, length_of_fragments hrun] at hb
  simp only [Bool.and_eq_true, decide_eq_true_eq] at hb
  exact hb.1.1.2

end

end TexFormula

import TexFormula.Proofs.Parser.Calls
import TexFormula.Proofs.Parser.Soundness

/-!
# Numbers side by side

Neighbours are multiplied, but a number next to a number never is.

* `NumbersMeet before first second after` : where in a stream the number `first` may stand right before the number
  `second`, with `before` and `after` around them: in a name in braces, or between the base of a logarithm and what it
  is applied to;
* `Separated w` : wherever two numbers stand side by side in the word `w`, it is at such a place;
* `Derives.separates` : this holds of all words of the grammar. In few places two parts of the grammar meet without a
  sign between them, and only after the base of a logarithm can one part end in a number and the next begin with one;
* `not_calls_of_numbers` : a product does not ask for a neighbour that is a number right after a number.
-/

namespace TexFormula

open ParseM Interpretation

/-- The places in a stream at which a number may stand right after a number. -/
inductive NumbersMeet : List Token → Token → Token → List Token → Prop
  /-- In the braces after `\mathrm` or `\operatorname`. -/
  | name {u run run' v : List Token} {first second sign opening closing : Token} {name : String} :
    sign.kind ∈ [Kind.mathrm, .operatorname] →
    BracedName name (opening :: (run ++ first :: second :: run' ++ [closing])) →
    NumbersMeet (u ++ sign :: opening :: run) first second (run' ++ closing :: v)
  /-- In the braces of an index that is read as a name. -/
  | index {n : Nat} {b : Bool} {object : Expr} {u x run run' v : List Token}
      {first second sign opening closing : Token} {name : String} :
    Derives n b (.part .subscript object) x → sign.kind = .underscore →
    BracedRun (opening :: (run ++ first :: second :: run' ++ [closing])) →
    BracedName name (opening :: (run ++ first :: second :: run' ++ [closing])) →
    NumbersMeet (u ++ (x ++ sign :: opening :: run)) first second (run' ++ closing :: v)
  /-- At the end of the base of a logarithm and the beginning of its argument. -/
  | logarithm {n : Nat} {b : Bool} {base : Expr} {es : List Expr} {u x y v : List Token}
      {first second token sign : Token} :
    token.kind = .log → sign.kind = .underscore → Derives n b (.part .primary base) (x ++ [first]) →
    Derives n b (.argument es) (second :: y) →
    NumbersMeet (u ++ token :: sign :: x) first second (y ++ v)

def Separated (w : List Token) : Prop :=
  ∀ before first second after, w = before ++ first :: second :: after → first.kind = .number →
    second.kind = .number → NumbersMeet before first second after

/-! ## Putting words together -/

/-- Two tokens that are neighbours in two words together are so in one of them, or are where the words meet. -/
theorem append_eq_append_pair {α : Type} {v w before after : List α} {first second : α}
    (h : v ++ w = before ++ first :: second :: after) :
    (∃ rest, v = before ++ first :: second :: rest ∧ after = rest ++ w) ∨
    (v = before ++ [first] ∧ w = second :: after) ∨
    ∃ rest, before = v ++ rest ∧ w = rest ++ first :: second :: after := by
  rcases List.append_eq_append_iff.1 h with ⟨rest, rfl, hw⟩ | ⟨rest, rfl, hrest⟩
  · exact .inr (.inr ⟨rest, rfl, hw⟩)
  · match rest, hrest with
    | [], hrest => exact .inr (.inr ⟨[], by simp, hrest.symm⟩)
    | [_], hrest =>
      cases hrest
      exact .inr (.inl ⟨rfl, rfl⟩)
    | _ :: _ :: rest, hrest =>
      cases hrest
      exact .inl ⟨rest, rfl, rfl⟩

section
variable {before after v w : List Token} {first second token sign : Token}

theorem NumbersMeet.extend (h : NumbersMeet before first second after) (v w : List Token) :
    NumbersMeet (v ++ before) first second (after ++ w) := by
  cases h with
  | name hk hname => simpa using NumbersMeet.name (u := v ++ _) (v := _ ++ w) hk hname
  | index hobject hk hrun hname =>
    simpa using NumbersMeet.index (u := v ++ _) (v := _ ++ w) hobject hk hrun hname
  | logarithm hk hsign hbase hargument =>
    simpa using NumbersMeet.logarithm (u := v ++ _) (v := _ ++ w) hk hsign hbase hargument

theorem lastKind?_concat (v : List Token) (token : Token) : lastKind? (v ++ [token]) = some token.kind := by
  simp [lastKind?]

theorem Separated.append_of (hv : Separated v) (hw : Separated w)
    (hseam : ∀ before first second after, v = before ++ [first] → w = second :: after → first.kind = .number →
      second.kind = .number → NumbersMeet before first second after) : Separated (v ++ w) := by
  intro before first second after heq hfirst hsecond
  rcases append_eq_append_pair heq with ⟨rest, rfl, rfl⟩ | ⟨rfl, rfl⟩ | ⟨rest, rfl, rfl⟩
  · simpa using (hv before first second rest rfl hfirst hsecond).extend [] w
  · exact hseam before first second after rfl rfl hfirst hsecond
  · simpa using (hw rest first second after rfl hfirst hsecond).extend v []

theorem Separated.append (hv : Separated v) (hw : Separated w)
    (hseam : ¬ (lastKind? v = some .number ∧ headKind? w = some .number)) : Separated (v ++ w) := by
  refine hv.append_of hw ?_
  rintro before first second after rfl rfl hfirst hsecond
  exact absurd ⟨by rw [lastKind?_concat, hfirst], by rw [headKind?_cons, hsecond]⟩ hseam

theorem separated_of_length (hw : w.length ≤ 1) : Separated w := by
  rintro before first second after rfl
  simp only [List.length_append, List.length_cons] at hw
  omega

theorem separated_nil : Separated [] := separated_of_length (Nat.zero_le 1)

theorem separated_of_kinds (hw : ∀ token ∈ w, token.kind ≠ .number) : Separated w := by
  rintro before first second after rfl hfirst
  exact absurd hfirst (hw first (by simp))

theorem Separated.cons (hw : Separated w) (hk : token.kind ≠ .number) : Separated (token :: w) := by
  refine (separated_of_length (w := [token]) (Nat.le_refl 1)).append hw ?_
  rintro ⟨hlast, -⟩
  exact hk (Option.some.inj hlast)

theorem Separated.infixed (hv : Separated v) (hw : Separated w) (hk : sign.kind ≠ .number) :
    Separated (v ++ sign :: w) := by
  refine hv.append (hw.cons hk) ?_
  rintro ⟨-, hhead⟩
  exact hk (Option.some.inj hhead)

theorem Separated.concat (hv : Separated v) (hk : token.kind ≠ .number) : Separated (v ++ [token]) :=
  hv.infixed separated_nil hk

/-- Neighbours in a name in braces are neighbours in its run. -/
theorem exists_of_bracedName {name : String} (h : BracedName name w) (heq : w = before ++ first :: second :: after)
    (hfirst : first.kind = .number) (hsecond : second.kind = .number) :
    ∃ opening run run' closing, before = opening :: run ∧ after = run' ++ [closing] := by
  obtain ⟨opening, run, closing, rfl, ho, hc, -⟩ := h
  cases before with
  | nil =>
    obtain ⟨rfl, -⟩ := List.cons.inj heq
    rw [ho] at hfirst
    cases hfirst
  | cons token before =>
    obtain ⟨rfl, htail⟩ := List.cons.inj heq
    rcases append_eq_append_pair htail with ⟨run', rfl, rfl⟩ | ⟨rfl, hclosing⟩ | ⟨rest, rfl, hclosing⟩
    · exact ⟨opening, before, run', closing, rfl, rfl⟩
    · cases hclosing
      rw [hc] at hsecond
      cases hsecond
    · have hlength := congrArg List.length hclosing
      simp only [List.length_append, List.length_cons, List.length_nil] at hlength
      omega

theorem separated_name {name : String} (hk : sign.kind ∈ [Kind.mathrm, .operatorname]) (h : BracedName name w) :
    Separated (sign :: w) := by
  intro before first second after heq hfirst hsecond
  cases before with
  | nil =>
    cases heq
    rw [hfirst] at hk
    exact absurd hk (by decide)
  | cons token before =>
    obtain ⟨rfl, htail⟩ := List.cons.inj heq
    obtain ⟨opening, run, run', closing, rfl, rfl⟩ := exists_of_bracedName h htail hfirst hsecond
    subst htail
    exact .name (u := []) (v := []) hk (by simpa using h)

theorem lastKind?_of_bracedName {name : String} (h : BracedName name w) (sign : Token) :
    lastKind? (sign :: w) = some .closeCurly := by
  obtain ⟨opening, run, closing, rfl, -, hc, -⟩ := h
  rw [← List.cons_append, ← List.cons_append, lastKind?_concat, hc]

end

/-! ## Words of the grammar -/

/-- Numbers stand side by side only where they may, where a name that is an index is taken with what it belongs to. -/
def Reading.Separates (r : Reading) (w : List Token) : Prop :=
  match r with
  | .index _ => Separated w ∨ BracedRun w ∧ ∃ name, BracedName name w
  | _ => Separated w

section
variable {n : Nat} {b : Bool} {v w : List Token} {sign : Token}

theorem separated_indexed {object : Expr} {es : List Expr} (hobject : Derives n b (.part .subscript object) v)
    (hk : sign.kind = .underscore) (hv : Separated v) (hw : (Reading.index es).Separates w) :
    Separated (v ++ sign :: w) := by
  have hsign : sign.kind ≠ .number := by
    rw [hk]
    decide
  rcases hw with hw | ⟨hrun, name, hname⟩
  · exact hv.infixed hw hsign
  · intro before first second after heq hfirst hsecond
    rcases append_eq_append_pair heq with ⟨rest, rfl, rfl⟩ | ⟨-, hrest⟩ | ⟨rest, rfl, hrest⟩
    · simpa using (hv before first second rest rfl hfirst hsecond).extend [] (sign :: w)
    · cases hrest
      exact absurd hsecond hsign
    · cases rest with
      | nil =>
        cases hrest
        exact absurd hfirst hsign
      | cons token rest =>
        obtain ⟨rfl, htail⟩ := List.cons.inj hrest
        obtain ⟨opening, run, run', closing, rfl, rfl⟩ := exists_of_bracedName hname htail hfirst hsecond
        subst htail
        exact .index (u := []) (v := []) hobject hk (by simpa using hrun) (by simpa using hname)

/-- The base of a logarithm may meet the argument. -/
theorem separated_logarithm {base : Expr} {es : List Expr} {token : Token} (hk : token.kind = .log)
    (hsign : sign.kind = .underscore) (hbase : Derives n b (.part .primary base) v)
    (hargument : Derives n b (.argument es) w) (hv : Separated v) (hw : Separated w) :
    Separated (token :: sign :: (v ++ w)) := by
  have hsigns : Separated (token :: sign :: v) :=
    (hv.cons (by rw [hsign]; decide)).cons (by rw [hk]; decide)
  refine hsigns.append_of hw ?_
  rintro before first second after heq rfl hfirst -
  match before, heq with
  | [], heq => cases heq
  | [_], heq =>
    cases heq
    exact absurd rfl hbase.ne_nil
  | _ :: _ :: x, heq =>
    cases heq
    simpa using NumbersMeet.logarithm (u := []) (v := []) hk hsign hbase hargument

end

theorem closing?_ne_number {opening closing : Kind} (h : opening.closing? = some closing) :
    opening ≠ .number ∧ closing ≠ .number := by
  cases opening <;> cases h <;> decide

theorem Derives.lastKind?_ne_number {n : Nat} {b allowList : Bool} {es : List Expr} {w : List Token}
    (h : Derives n b (.group allowList es) w) : lastKind? w ≠ some .number := by
  intro hlast
  cases h with
  | @bare _ _ _ _ w opening closing hc _ =>
    rw [← List.cons_append, lastKind?_concat] at hlast
    exact (closing?_ne_number hc).2 (Option.some.inj hlast)
  | @wrapped _ _ _ _ w left opening right closing _ hc _ _ =>
    rw [show left :: opening :: (w ++ [right, closing]) = left :: opening :: (w ++ [right]) ++ [closing] by simp,
      lastKind?_concat] at hlast
    exact (closing?_ne_number hc).2 (Option.some.inj hlast)

/-- In a word of the grammar numbers stand side by side only where they may. -/
theorem Derives.separates {n : Nat} {b : Bool} {r : Reading} {w : List Token} (h : Derives n b r w) :
    r.Separates w := by
  have hnum {kind kind' : Kind} (hk : kind = kind') (hne : kind' ≠ .number) : kind ≠ .number := by
    rw [hk]
    exact hne
  induction h with
  | comparison _ ih | expression _ ih | term _ ih | factor _ ih | power _ ih | subscript _ ih
  | argument _ _ ih | parenthesized _ _ ih | grouping _ ih | value _ ih | entry _ ih | lastRow _ ih
  | primary _ _ ih => exact ih
  | relation _ hc _ _ ihv ihw =>
    refine ihv.infixed ihw fun he => ?_
    rw [he] at hc
    cases hc
  | sum _ hk _ _ ihv ihw | times _ hk _ _ ihv ihw =>
    refine ihv.infixed ihw fun he => ?_
    rw [he] at hk
    exact absurd hk (by decide)
  | assignment _ _ hk _ ihv ihw | raised _ hk _ _ _ ihv ihw | transposed _ hk _ ihv ihw
  | values _ hk _ ihv ihw | entries _ hk _ ihv ihw | nextRow _ hk _ ihv ihw =>
    exact ihv.infixed ihw (hnum hk (by decide))
  | neighbours _ _ _ hn ihv ihw => exact ihv.append ihw hn
  | minus hk _ ih => exact ih.cons (hnum hk (by decide))
  | indexed hobject hk _ ihv ihw => exact separated_indexed hobject hk ihv ihw
  | indexName hrun hname => exact .inr ⟨hrun, _, hname⟩
  | index _ _ ih => exact .inl ih
  | number _ _ | letter _ | named _ _ => exact separated_of_length (Nat.le_refl 1)
  | mathrm hk hname => exact separated_name (by simp [hk]) hname
  | mathbf hw => exact separated_of_kinds (kind_ne_of_map .number hw (by decide))
  | bare hc _ ih =>
    have hne := closing?_ne_number hc
    exact (ih.concat hne.2).cons hne.1
  | wrapped hl hc hr _ ih =>
    have hne := closing?_ne_number hc
    have hinner := ih.infixed (separated_nil.cons hne.2) (hnum hr (by decide))
    exact (hinner.cons hne.1).cons (hnum hl (by decide))
  | matrix ho hu _ hc hw ih =>
    have hu := kind_ne_of_map .number hu (by decide)
    have hw := kind_ne_of_map .number hw (by decide)
    have hrows := ih.infixed (separated_of_kinds hw) (hnum hc (by decide))
    refine ((separated_of_kinds hu).append hrows fun ⟨hlast, _⟩ => ?_).cons (hnum ho (by decide))
    obtain ⟨token, ht, hk⟩ := Option.map_eq_some_iff.1 hlast
    exact hu token (List.mem_of_getLast? ht) hk
  | brokenRow _ hk ih => exact ih.concat (hnum hk (by decide))
  | fraction hk _ _ hv _ _ ihv ihw | shortFraction hk _ _ hv _ _ ihv ihw =>
    exact (ihv.append ihw fun hseam => hv.lastKind?_ne_number hseam.1).cons (hnum hk (by decide))
  | function hf _ _ ih =>
    refine ih.cons fun he => ?_
    rw [he] at hf
    cases hf
  | logarithm hk _ hs hv hw ihv ihw => exact separated_logarithm hk hs hv hw ihv ihw
  | operatorname hk hname _ ih =>
    refine (separated_name (by simp [hk]) hname).append ih fun ⟨hlast, _⟩ => ?_
    rw [lastKind?_of_bracedName hname] at hlast
    cases hlast

/-! ## What a product asks for -/

section
variable {limit : Nat} {again : Production → ParseM Expr} {s x : ParserState}

theorem refuseSecondNumber_bind_congr {α : Type} {m m' : ParseM α}
    (h : ∀ s, Read.numberBefore? s.cursor = none → m s = m' s) :
    (Read.refuseSecondNumber >>= fun _ => m) = (Read.refuseSecondNumber >>= fun _ => m') := by
  funext s
  show EStateM.bind _ _ s = EStateM.bind _ _ s
  unfold EStateM.bind
  cases hcheck : Read.refuseSecondNumber s with
  | error halt t => rfl
  | ok _ t =>
    obtain ⟨w, hw, hbefore, rfl⟩ := takes_refuseSecondNumber _ t hcheck
    obtain rfl := hw.unique (Moves.refl s)
    exact h _ hbefore

/-- The product does not depend on how a number after a number would be read as its neighbour. -/
theorem productTail_overriding (hx : Read.numberBefore? x.cursor ≠ none)
    (outcome : EStateM.Result Halt ParserState Expr) (steps : Nat) (left : Expr) :
    Read.productTail (.standard limit) (overriding again (.power, x) outcome) steps left =
      Read.productTail (.standard limit) again steps left := by
  have hfactor : overriding again (.power, x) outcome .factor = again .factor :=
    funext fun s => overriding_of_ne (by simp) outcome
  have hpower (f : Expr → ParseM Expr) :
      (liftM Read.refuseSecondNumber >>= fun _ => neighbour (overriding again (.power, x) outcome .power) >>= f) =
        (liftM Read.refuseSecondNumber >>= fun _ => neighbour (again .power) >>= f) := by
    refine refuseSecondNumber_bind_congr fun s hs => ?_
    have hne : (Production.power, s) ≠ (.power, x) := by
      rintro ⟨⟩
      exact hx hs
    show EStateM.bind (overriding again (.power, x) outcome .power) _ s = EStateM.bind (again .power) _ s
    unfold EStateM.bind
    rw [overriding_of_ne hne]
  induction steps generalizing left with
  | zero => rfl
  | succ steps ih => simp only [Read.productTail, hfactor, hpower, ih]

/-- A product never asks for a neighbour that is a number right after a number. -/
theorem not_calls_of_numbers (h : Calls limit (.term, s) (.power, x)) :
    ¬ (x.cursor.previous?.map Token.kind = some .number ∧ x.cursor.current.kind = .number) := by
  rw [← numberBefore?_eq_none_iff]
  by_contra hx
  obtain ⟨outcome, hne⟩ := h
  refine hne ?_
  have hfactor : overriding (fun q => q.run (.standard limit)) (.power, x) outcome .factor =
      Production.factor.run (.standard limit) := funext fun s => overriding_of_ne (by simp) outcome
  show (Read.term _ _ _ : ParseM Expr) s = (Read.term _ _ _ : ParseM Expr) s
  unfold Read.term
  rw [hfactor]
  simp only [productTail_overriding hx]

end

/--
In a stream that is accepted, a number stands right after a number only in a name in braces, or where the base of a
logarithm meets the argument. No product is made of a number and a number next to it.
-/
theorem numbersMeet_of_parseTokens {limit : Nat} {tokens : List Token} {e : Expr}
    (h : parseTokens limit tokens = .ok e) :
    (∀ before first second after, beforeEnd tokens = before ++ first :: second :: after → first.kind = .number →
      second.kind = .number → NumbersMeet before first second after) ∧
    ∀ s x, Calls limit (.term, s) (.power, x) →
      ¬ (x.cursor.previous?.map Token.kind = some .number ∧ x.cursor.current.kind = .number) := by
  obtain ⟨u, hu⟩ := settled_eq_ok_iff.1 h
  exact ⟨(derives_of_wholeInput hu).separates, fun s x => not_calls_of_numbers⟩

/-- The tokens of `\log_2 3 x_{a1 5}`, with two pairs of numbers, and a neighbour that is multiplied after a number. -/
theorem numbersMeet_of_parseTokens_logarithm :
    let two : Token := ⟨.number, "2", .ofBytes 5 1⟩
    let three : Token := ⟨.number, "3", .ofBytes 7 1⟩
    let one : Token := ⟨.number, "1", .ofBytes 13 1⟩
    let five : Token := ⟨.number, "5", .ofBytes 15 1⟩
    let base : List Token := [⟨.log, "\\log", .ofBytes 0 4⟩, ⟨.underscore, "_", .ofBytes 4 1⟩]
    let index : List Token := [⟨.identifier, "x", .ofBytes 9 1⟩, ⟨.underscore, "_", .ofBytes 10 1⟩,
      ⟨.openCurly, "\x7b", .ofBytes 11 1⟩, ⟨.identifier, "a", .ofBytes 12 1⟩]
    let closing : Token := ⟨.closeCurly, "\x7d", .ofBytes 16 1⟩
    let tokens := base ++ two :: three :: index ++ one :: five :: [closing]
    let start := ParserState.ofTokens tokens
    let after : ParserState := ⟨start.cursor.advanceBy 4, 0, 0⟩
    parseTokens 4 tokens =
      .ok (.product (.call "log" [.number "3", .number "2"]) (.accessor (.symbol "x") [.symbol "a15"])) ∧
    NumbersMeet base two three (index ++ one :: five :: [closing]) ∧
    NumbersMeet (base ++ two :: three :: index) one five [closing] ∧
    Calls 4 (.term, start) (.power, after) ∧ after.cursor.previous? = some three ∧
    after.cursor.current.kind ≠ .number := by
  intro two three one five base index closing tokens start after
  have h : parseTokens 4 tokens =
      .ok (.product (.call "log" [.number "3", .number "2"]) (.accessor (.symbol "x") [.symbol "a15"])) :=
    eq_ok_of_toOption (by decide +kernel)
  obtain ⟨hmeet, hcalls⟩ := numbersMeet_of_parseTokens h
  have hcall : Calls 4 (.term, start) (.power, after) := calls_of_exhausted (by decide +kernel)
  refine ⟨h, hmeet _ _ _ _ rfl rfl rfl, hmeet (base ++ two :: three :: index) _ _ _ rfl rfl rfl, hcall, rfl, ?_⟩
  exact fun hk => hcalls start after hcall ⟨rfl, hk⟩

end TexFormula

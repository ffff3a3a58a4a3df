import TexFormula.Parser.Parse
import TexFormula.Proofs.Parser.Fallback
import TexFormula.Proofs.Parser.Forward
import TexFormula.Proofs.Parser.Moves

/-!
# What an error says about the tokens

Some errors are pinned to the current token, others to one that was passed before. All of them are fixed where their
token is the current one: there the parser knows what comes before it, how deep it is in, and whether the token can
start a primary. That the stream stays the same is all that the rest of the run has to say.

* `SyntaxError.Truthful limit stream` : the error is pinned to a token of the stream with no end before it, and its
  cause fits there;
* `Setting` : a stream with the limit and the fallback it is read with; `Setting.Explains` : what is proved of every
  error there;
* `Setting.Placed S ahead s` : where the parser may stand; `Onward s t` : where it may come to from there;
* `Upholds S m s Q` : from `s` on the run `m` moves onward and ends with `Q`, or stops with such an error.
-/

namespace TexFormula

open ParseM Interpretation

/-! ## Errors -/

def Kind.opens : Kind → Bool
  | .left | .openParen | .openCurly | .bar | .beginEnv => true
  | _ => false

/-- What a cause may say about a token and the tokens before it. -/
def SyntaxFault.Fits (limit : Nat) (before : List Token) (token : Token) : SyntaxFault → Prop
  | .unexpectedToken found => found = token.text ∧ token.kind ≠ .eof
  | .expectedToken _ found => found = token.text
  | .unmatchedDelimiter opened _ found =>
    found = token.text ∧ ∃ opening ∈ before, opening.kind.opens = true ∧ opened = opening.text
  | .invalidAssignmentTarget found => found = token.text
  | .ambiguousNumbers left right => token.kind = .number ∧ right = token.text ∧
    ∃ first, before.getLast? = some first ∧ first.kind = .number ∧ left = first.text
  | .unexpectedEndOfInput => token.kind = .eof
  | .unsupportedEnvironment _ => token.kind ≠ .bmatrix ∧ ∃ others mark opening,
    before = others ++ [mark, opening] ∧ mark.kind ∈ [Kind.beginEnv, .endEnv] ∧ opening.kind = .openCurly
  | .unexpectedList found => found = token.text
  | .nestingTooDeep n => n = limit

/-- The error is pinned to a token at or before the first end of the stream, and its cause fits there. -/
def SyntaxError.Truthful (limit : Nat) (stream : List Token) (error : SyntaxError) : Prop :=
  ∃ before after, stream = before ++ error.token :: after ∧ (∀ token ∈ before, token.kind ≠ .eof) ∧
    error.fault.Fits limit before error.token

/-- The token is not spelled as its kind asks. -/
def Token.Malformed (token : Token) : Prop :=
  token.kind = .number ∧ isDecimal token.text = false ∨ token.kind = .symbol ∧ symbolName? token.text = none

/-- Malformed tokens of the stream are refused, as the parser refuses them. -/
def Fallback.Refuses (fallback : Fallback) (stream : List Token) : Prop :=
  ∀ token ∈ stream, token.Malformed →
    fallback.noNumber token = refusing.noNumber token ∧ fallback.noSymbol token = refusing.noSymbol token

theorem refuses_refusing (stream : List Token) : Fallback.refusing.Refuses stream := fun _ _ _ => ⟨rfl, rfl⟩

/-- A stream with what it is read with. -/
structure Setting where
  limit : Nat
  stream : List Token
  /-- How many levels and tokens there may be together. -/
  room : Nat
  fallback : Fallback
  refuses : fallback.Refuses stream

/-- What is proved of every error. -/
structure Setting.Explains (S : Setting) (error : SyntaxError) : Prop where
  truthful : error.Truthful S.limit S.stream
  tooDeep {n : Nat} : error.fault = .nestingTooDeep n → S.limit < S.room
  unexpected {found : String} : error.fault = .unexpectedToken found →
    error.token.kind.production? = none ∨ error.token.Malformed

/-- The causes of which nothing more has to be shown. -/
def SyntaxFault.Plain : SyntaxFault → Prop
  | .unexpectedToken _ | .nestingTooDeep _ => False
  | _ => True

/-! ## States -/

/-- The second state comes from the first by moving forward in the same level and the same bars. -/
structure Onward (s t : ParserState) : Prop where
  leads : s.cursor.Leads t.cursor
  depth : t.depth = s.depth
  openBars : t.openBars = s.openBars

/--
The parser stands in the stream, and the levels that are left are as many as the tokens, but for `ahead` levels
that were entered before their tokens are passed.
-/
structure Setting.Placed (S : Setting) (ahead : Nat) (s : ParserState) : Prop where
  stands : s.cursor.Stands S.stream
  room_le : s.depth + s.cursor.distance ≤ S.room + ahead

/-- After a comparison, an expression or a term the current token starts no factor that would go on with it. -/
def Production.Ended (limit : Nat) (p : Production) (t : ParserState) : Prop :=
  p ∈ [Production.comparison, .expression, .term] → t.atImplicitOperand (.standard limit) = false

section
variable {S : Setting} {k : Nat} {s t u : ParserState} {fault : SyntaxFault}

theorem Onward.refl (s : ParserState) : Onward s s := ⟨.refl _, rfl, rfl⟩

theorem Onward.trans (h : Onward s t) (h' : Onward t u) : Onward s u :=
  ⟨h.leads.trans h'.leads, h'.depth.trans h.depth, h'.openBars.trans h.openBars⟩

theorem onward_advance (s : ParserState) : Onward s { s with cursor := s.cursor.advance } :=
  ⟨s.cursor.leads_advance, rfl, rfl⟩

namespace Setting

theorem Placed.onward (h : S.Placed k s) (ht : Onward s t) : S.Placed k t := by
  refine ⟨h.stands.leads ht.leads, Nat.le_trans (Nat.add_le_add_left ht.leads.distance_le _) ?_⟩
  rw [ht.depth]
  exact h.room_le

theorem Placed.advance (h : S.Placed k s) : S.Placed k { s with cursor := s.cursor.advance } :=
  h.onward (onward_advance s)

/-- A token that is passed makes up for a level. -/
theorem Placed.pass (h : S.Placed (k + 1) s) (hk : s.cursor.current.kind ≠ .eof) :
    S.Placed k { s with cursor := s.cursor.advance } := by
  refine ⟨h.stands.leads s.cursor.leads_advance, ?_⟩
  have hroom := h.room_le
  have hdistance := Cursor.distance_advance hk
  show s.depth + s.cursor.advance.distance ≤ S.room + k
  omega

theorem Placed.succ (h : S.Placed k s) : S.Placed (k + 1) s := ⟨h.stands, Nat.le_succ_of_le h.room_le⟩

theorem Placed.deeper (h : S.Placed k s) : S.Placed (k + 1) { s with depth := s.depth + 1 } := by
  refine ⟨h.stands, ?_⟩
  have hroom := h.room_le
  show s.depth + 1 + s.cursor.distance ≤ S.room + (k + 1)
  omega

theorem Placed.depth_lt (h : S.Placed 0 s) (hk : s.cursor.current.kind ≠ .eof) : s.depth < S.room := by
  have hroom := h.room_le
  have hpos := Cursor.distance_pos hk
  omega

end Setting

theorem Cursor.Stands.truthful {limit : Nat} {stream : List Token} {c : Cursor} (h : c.Stands stream)
    (hf : fault.Fits limit c.passed.reverse c.current) : SyntaxError.Truthful limit stream ⟨fault, c.current⟩ := by
  obtain ⟨after, heq⟩ := c.exists_tokens_eq
  refine ⟨c.passed.reverse, after, h.tokens_eq ▸ heq, fun token ht => ?_, hf⟩
  exact h.passed_ne token (List.mem_reverse.1 ht)

theorem Cursor.Stands.explains (h : s.cursor.Stands S.stream) (hplain : fault.Plain)
    (hf : fault.Fits S.limit s.cursor.passed.reverse s.cursor.current) : S.Explains ⟨fault, s.cursor.current⟩ where
  truthful := h.truthful hf
  tooDeep := by
    rintro n rfl
    exact hplain.elim
  unexpected := by
    rintro found rfl
    exact hplain.elim

theorem Cursor.Stands.current_mem {stream : List Token} {c : Cursor} (h : c.Stands stream) : c.current ∈ stream := by
  obtain ⟨after, heq⟩ := c.exists_tokens_eq
  rw [← h.tokens_eq, heq]
  simp

theorem Cursor.Stands.explains_unexpected (h : s.cursor.Stands S.stream) (hk : s.cursor.current.kind ≠ .eof)
    (hp : s.cursor.current.kind.production? = none ∨ s.cursor.current.Malformed) :
    S.Explains ⟨.unexpectedToken s.cursor.current.text, s.cursor.current⟩ :=
  ⟨h.truthful ⟨rfl, hk⟩, nofun, fun _ => hp⟩

end

/-! ## Single runs -/

/--
The run moves forward and ends with a result and a state for which `Q` holds, or it stops with an error that is
explained, or for want of steps.
-/
def Upholds {α : Type} (S : Setting) (m : ParseM α) (s : ParserState) (Q : α → ParserState → Prop) : Prop :=
  match m s with
  | .ok a t => Onward s t ∧ Q a t
  | .error (.rejected error) _ => S.Explains error
  | .error .exhausted _ => True

section
variable {α β : Type} {S : Setting} {s : ParserState} {P Q : α → ParserState → Prop} {Q' : β → ParserState → Prop}

theorem Upholds.of_ok {m : ParseM α} (h : Upholds S m s Q) {a : α} {t : ParserState} (ha : m s = .ok a t) :
    Onward s t ∧ Q a t := by
  unfold Upholds at h
  rwa [ha] at h

theorem Upholds.of_rejected {m : ParseM α} (h : Upholds S m s Q) {error : SyntaxError} {t : ParserState}
    (he : m s = .error (.rejected error) t) : S.Explains error := by
  unfold Upholds at h
  rwa [he] at h

theorem Upholds.bind {m : ParseM α} {f : α → ParseM β} (hm : Upholds S m s Q)
    (hf : ∀ a t, Onward s t → Q a t → Upholds S (f a) t Q') : Upholds S (m >>= f) s Q' := by
  show Upholds S (EStateM.bind m f) s Q'
  unfold Upholds EStateM.bind at *
  match hr : m s with
  | .error (.rejected error) t =>
    rw [hr] at hm
    exact hm
  | .error .exhausted t => exact trivial
  | .ok a t =>
    rw [hr] at hm
    have hrest := hf a t hm.1 hm.2
    dsimp only
    match hb : f a t with
    | .error (.rejected error) u =>
      rw [hb] at hrest
      exact hrest
    | .error .exhausted u => exact trivial
    | .ok b u =>
      rw [hb] at hrest
      exact ⟨hm.1.trans hrest.1, hrest.2⟩

theorem Upholds.mono {m : ParseM α} (h : Upholds S m s P) (hQ : ∀ a t, P a t → Q a t) : Upholds S m s Q := by
  unfold Upholds at *
  match hr : m s with
  | .error (.rejected error) t =>
    rw [hr] at h
    exact h
  | .error .exhausted t => exact trivial
  | .ok a t =>
    rw [hr] at h
    exact ⟨h.1, hQ a t h.2⟩

theorem upholds_pure {a : α} (h : Q a s) : Upholds S (pure a) s Q := ⟨Onward.refl s, h⟩

theorem upholds_reject {fault : SyntaxFault} {token : Token} (h : S.Explains ⟨fault, token⟩) :
    Upholds S (reject fault token) s Q := h

theorem upholds_state {f : ParserState → ParseM β} (h : Upholds S (f s) s Q') : Upholds S (state >>= f) s Q' := h

theorem upholds_current {f : Token → ParseM β} (h : Upholds S (f s.cursor.current) s Q') :
    Upholds S (current >>= f) s Q' := h

theorem upholds_currentKind {f : Kind → ParseM β} (h : Upholds S (f s.cursor.current.kind) s Q') :
    Upholds S (currentKind >>= f) s Q' := h

theorem upholds_advance : Upholds S advance s fun token t =>
    token = s.cursor.current ∧ t = { s with cursor := s.cursor.advance } := ⟨onward_advance s, rfl, rfl⟩

theorem upholds_unexpected (hs : s.cursor.Stands S.stream) (hp : s.cursor.current.kind.production? = none) :
    Upholds S unexpected s Q := by
  refine upholds_current (upholds_reject ?_)
  split
  · next hk => exact hs.explains trivial hk
  · next hk => exact hs.explains_unexpected hk (.inl hp)

theorem upholds_refuseIf {refused : Bool} {fault : SyntaxFault} {token : Token}
    (h : refused = true → S.Explains ⟨fault, token⟩) : Upholds S (refuseIf refused fault token) s fun _ t => t = s := by
  cases refused with
  | false => exact upholds_pure rfl
  | true => exact upholds_reject (h rfl)

theorem upholds_demandOr {kind : Kind} {fault : Token → SyntaxFault}
    (h : s.cursor.current.kind ≠ kind → S.Explains ⟨fault s.cursor.current, s.cursor.current⟩) :
    Upholds S (demandOr kind fault) s fun _ t => s.cursor.current.kind = kind ∧ t = s := by
  unfold Upholds
  rw [demandOr_eq]
  by_cases hk : s.cursor.current.kind = kind
  · rw [if_pos hk]
    exact ⟨Onward.refl s, hk, rfl⟩
  · rw [if_neg hk]
    exact h hk

theorem upholds_demand (hs : s.cursor.Stands S.stream) (kind : Kind) :
    Upholds S (demand kind) s fun _ t => s.cursor.current.kind = kind ∧ t = s :=
  upholds_demandOr fun _ => hs.explains trivial rfl

theorem upholds_expectOr {kind : Kind} {fault : Token → SyntaxFault}
    (h : s.cursor.current.kind ≠ kind → S.Explains ⟨fault s.cursor.current, s.cursor.current⟩) :
    Upholds S (expectOr kind fault) s fun token t =>
      token.kind = kind ∧ token = s.cursor.current ∧ t = { s with cursor := s.cursor.advance } := by
  refine (upholds_demandOr h).bind ?_
  rintro _ _ - ⟨hk, rfl⟩
  refine upholds_advance.mono ?_
  rintro _ _ ⟨rfl, rfl⟩
  exact ⟨hk, rfl, rfl⟩

theorem upholds_expect (hs : s.cursor.Stands S.stream) (kind : Kind) :
    Upholds S (expect kind) s fun token t =>
      token.kind = kind ∧ token = s.cursor.current ∧ t = { s with cursor := s.cursor.advance } :=
  upholds_expectOr fun _ => hs.explains trivial rfl

/-- A missing partner is reported together with the delimiter that was opened before. -/
theorem upholds_close (hs : s.cursor.Stands S.stream) {opened : Token} (hmem : opened ∈ s.cursor.passed)
    (hopens : opened.kind.opens = true) (kind : Kind) : Upholds S (close opened kind) s fun _ _ => True :=
  Upholds.mono (upholds_expectOr fun _ => hs.explains trivial ⟨rfl, opened, List.mem_reverse.2 hmem, hopens, rfl⟩)
    fun _ _ _ => trivial

/-! ### Names -/

theorem upholds_refuseName (hs : s.cursor.Stands S.stream) (refused : Bool) :
    Upholds S (refuseName refused) s fun _ t => t = s :=
  upholds_current (upholds_refuseIf fun _ => hs.explains trivial rfl)

theorem upholds_bracedName (hs : s.cursor.Stands S.stream) : Upholds S bracedName s fun _ _ => True := by
  refine (upholds_expect hs _).bind fun _ t ht _ => upholds_currentKind ?_
  have hts := hs.leads ht.leads
  have hname (u : ParserState) : Upholds S takeName u fun _ _ => True := ⟨⟨⟨_, rfl⟩, rfl, rfl⟩, trivial⟩
  refine (upholds_refuseName hts _).bind fun _ u hu _ => (hname u).bind fun name v hv _ => ?_
  have hvs := (hts.leads hu.leads).leads hv.leads
  refine (upholds_refuseName hvs _).bind fun _ x hx _ => ?_
  exact (upholds_expect (hvs.leads hx.leads) _).bind fun _ _ _ _ => upholds_pure trivial

/-- The name of an environment is asked for right after the command that begins or ends one. -/
theorem upholds_environmentName (hs : s.cursor.Stands S.stream) {mark : Token} {others : List Token}
    (hpassed : s.cursor.passed = mark :: others) (hmark : mark.kind ∈ [Kind.beginEnv, .endEnv]) :
    Upholds S environmentName s fun _ _ => True := by
  refine (upholds_expect hs _).bind ?_
  rintro opening _ - ⟨hopen, rfl, rfl⟩
  have hts := hs.leads s.cursor.leads_advance
  refine upholds_state ((upholds_expectOr fun hname => ?_).bind fun _ u hu _ => ?_)
  · have hp := s.cursor.passed_advance (by rw [hopen]; decide)
    refine hts.explains trivial ⟨hname, others.reverse, mark, s.cursor.current, ?_, hmark, hopen⟩
    rw [hp, hpassed]
    simp
  · exact (upholds_expect (hts.leads hu.leads) _).bind fun _ _ _ _ => upholds_pure trivial

/-! ### Productions that read no others -/

theorem upholds_assignmentTarget {start : Token} (left : Expr)
    (hstart : S.Explains ⟨.invalidAssignmentTarget start.text, start⟩) :
    Upholds S (Read.assignmentTarget start left) s fun _ t => t = s := by
  unfold Read.assignmentTarget
  split
  · exact upholds_pure rfl
  · exact upholds_reject hstart

theorem upholds_refuseSecondNumber (hs : s.cursor.Stands S.stream) :
    Upholds S Read.refuseSecondNumber s fun _ t => t = s := by
  refine upholds_state ?_
  dsimp only
  split
  · next first hfirst =>
    unfold Read.numberBefore? at hfirst
    split at hfirst
    · next hk =>
      obtain ⟨hprev, hnumber⟩ := Option.filter_eq_some_iff.1 hfirst
      refine upholds_reject (hs.explains trivial ⟨hk, rfl, first, ?_, by simpa using hnumber, rfl⟩)
      rw [List.getLast?_reverse]
      exact hprev
    · cases hfirst
  · exact upholds_pure rfl

theorem upholds_takeLeft : Upholds S Read.takeLeft s fun left? t =>
    ∀ left ∈ left?, left ∈ t.cursor.passed ∧ left.kind.opens = true := by
  refine upholds_currentKind ?_
  split
  · next hk =>
    refine upholds_advance.bind ?_
    rintro _ _ - ⟨rfl, rfl⟩
    refine upholds_pure ?_
    rintro _ ⟨⟩
    have hp := s.cursor.passed_advance (by rw [hk]; decide)
    exact ⟨by simp [hp], by rw [hk]; rfl⟩
  · exact upholds_pure nofun

theorem upholds_closeLeft (hs : s.cursor.Stands S.stream) {left? : Option Token}
    (h : ∀ left ∈ left?, left ∈ s.cursor.passed ∧ left.kind.opens = true) :
    Upholds S (Read.closeLeft left?) s fun _ _ => True := by
  cases left? with
  | none => exact upholds_pure trivial
  | some left =>
    exact (upholds_close hs (h left rfl).1 (h left rfl).2 _).bind fun _ _ _ _ => upholds_pure trivial

theorem upholds_mathrm (hs : s.cursor.Stands S.stream) : Upholds S Read.mathrm s fun _ _ => True := by
  refine upholds_advance.bind fun _ t ht _ => (upholds_bracedName (hs.leads ht.leads)).bind fun name _ _ _ => ?_
  split
  · exact upholds_pure trivial
  · exact upholds_pure trivial
  · exact upholds_pure trivial

theorem upholds_mathbf (hs : s.cursor.Stands S.stream) : Upholds S Read.mathbf s fun _ _ => True := by
  refine upholds_advance.bind fun _ t ht _ => ?_
  have hts := hs.leads ht.leads
  refine (upholds_expect hts _).bind fun _ u hu _ => ?_
  have hus := hts.leads hu.leads
  refine (upholds_expect hus _).bind fun _ v hv _ => ?_
  exact (upholds_expect (hus.leads hv.leads) _).bind fun _ _ _ _ => upholds_pure trivial

end

end TexFormula

import Mathlib.Data.Option.Defs
import TexFormula.Parser.Parse

/-!
# What every way to read respects

The productions are written for any monad, and all they do with it is to put readings together. So whatever relates
two monads operation by operation relates everything that is read in them.

* `EndsAlike R S V` : two runs end alike, with results in `V` or with the same cause at tokens in `R`, and in states
  in `S`;
* `Views R S` : tokens in `R` look alike, and so do states in `S` wherever the parser looks at them;
* `StepRelation R S` : a relation between runs that respects the steps these are made of; `Views.mirrors` is the one
  between runs that end alike;
* `Correspondence` : a relation between readings in two monads that respects all ways to put these together;
  `StepRelation.plain` is one between readings in `ParseM`;
* `Correspondence.production` : what a production reads in the one monad corresponds to what it reads in the other.
-/

namespace TexFormula

open ParseM

/-! ## Ends -/

/-- Tokens in the relation have the same kind and the same text. -/
structure Likeness (R : Token → Token → Prop) : Prop where
  kind_eq {token token' : Token} : R token token' → token.kind = token'.kind
  text_eq {token token' : Token} : R token token' → token.text = token'.text

/-- Two runs end alike: with results in `V` or with the same cause at tokens in `R`, and in states in `S`. -/
inductive EndsAlike {α β : Type} (R : Token → Token → Prop) (S : ParserState → ParserState → Prop) (V : α → β → Prop) :
    EStateM.Result Halt ParserState α → EStateM.Result Halt ParserState β → Prop
  | ok {a : α} {b : β} {s t : ParserState} : V a b → S s t → EndsAlike R S V (.ok a s) (.ok b t)
  | rejected {fault : SyntaxFault} {token token' : Token} {s t : ParserState} : R token token' → S s t →
    EndsAlike R S V (.error (.rejected ⟨fault, token⟩) s) (.error (.rejected ⟨fault, token'⟩) t)
  | exhausted {s t : ParserState} : S s t → EndsAlike R S V (.error .exhausted s) (.error .exhausted t)

/-- From states in `S` the two runs end alike. -/
def Mirrors {α β : Type} (R : Token → Token → Prop) (S : ParserState → ParserState → Prop) (V : α → β → Prop)
    (m : ParseM α) (m' : ParseM β) : Prop :=
  ∀ s s', S s s' → EndsAlike R S V (m s) (m' s')

/-- To end alike in the same state, with the same result or at the same token, is to end the same. -/
theorem endsAlike_eq_iff {α : Type} {r r' : EStateM.Result Halt ParserState α} : EndsAlike Eq Eq Eq r r' ↔ r' = r := by
  constructor
  · rintro (⟨rfl, rfl⟩ | ⟨rfl, rfl⟩ | rfl)
    · rfl
    · rfl
    · rfl
  · rintro rfl
    match r' with
    | .ok _ _ => exact .ok rfl rfl
    | .error (.rejected _) _ => exact .rejected rfl rfl
    | .error .exhausted _ => exact .exhausted rfl

theorem mirrors_eq_iff {α : Type} {m m' : ParseM α} : Mirrors Eq Eq Eq m m' ↔ m' = m := by
  constructor
  · exact fun h => funext fun s => endsAlike_eq_iff.1 (h s s rfl)
  · rintro rfl s _ rfl
    exact endsAlike_eq_iff.2 rfl

/-- Of states in `S` the parser sees alike what it looks at, and steps lead from states in `S` to states in `S`. -/
structure Views (R : Token → Token → Prop) (S : ParserState → ParserState → Prop) : Prop extends Likeness R where
  current {s s' : ParserState} : S s s' → R s.cursor.current s'.cursor.current
  numberBefore? {s s' : ParserState} : S s s' →
    Option.Rel R (Read.numberBefore? s.cursor) (Read.numberBefore? s'.cursor)
  fragments {s s' : ParserState} : S s s' → s.cursor.fragments 0 = s'.cursor.fragments 0
  peek_one {s s' : ParserState} : S s s' → s.cursor.current.kind ≠ .eof → R (s.cursor.peek 1) (s'.cursor.peek 1)
  atBracedName {s s' : ParserState} : S s s' → Read.atBracedName s.cursor = Read.atBracedName s'.cursor
  depth {s s' : ParserState} : S s s' → s.depth = s'.depth
  openBars {s s' : ParserState} : S s s' → s.openBars = s'.openBars
  advance {s s' : ParserState} : S s s' →
    S { s with cursor := s.cursor.advance } { s' with cursor := s'.cursor.advance }
  withDepth {s s' : ParserState} (d : Nat) : S s s' → S { s with depth := d } { s' with depth := d }
  withBars {s s' : ParserState} (b : Nat) : S s s' → S { s with openBars := b } { s' with openBars := b }

theorem views_eq : Views Eq Eq where
  kind_eq h := congrArg Token.kind h
  text_eq h := congrArg Token.text h
  current h := congrArg (fun s : ParserState => s.cursor.current) h
  numberBefore? := by
    rintro s _ rfl
    cases Read.numberBefore? s.cursor with
    | none => exact .none
    | some first => exact .some rfl
  fragments h := congrArg (fun s : ParserState => s.cursor.fragments 0) h
  peek_one h _ := congrArg (fun s : ParserState => s.cursor.peek 1) h
  atBracedName h := congrArg (fun s : ParserState => Read.atBracedName s.cursor) h
  depth h := congrArg ParserState.depth h
  openBars h := congrArg ParserState.openBars h
  advance h := congrArg (fun s : ParserState => { s with cursor := s.cursor.advance }) h
  withDepth d h := congrArg (fun s : ParserState => { s with depth := d }) h
  withBars b h := congrArg (fun s : ParserState => { s with openBars := b }) h

section
variable {R : Token → Token → Prop} {S : ParserState → ParserState → Prop} {s s' : ParserState}

namespace Views

theorem currentKind (hv : Views R S) (h : S s s') : s.cursor.current.kind = s'.cursor.current.kind :=
  hv.kind_eq (hv.current h)

theorem level (hv : Views R S) (h : S s s') (rules : Rules) : s.level rules = s'.level rules := by
  rw [ParserState.level, ParserState.level, hv.currentKind h]

theorem atImplicitOperand (hv : Views R S) (h : S s s') (rules : Rules) :
    s.atImplicitOperand rules = s'.atImplicitOperand rules := by
  rw [ParserState.atImplicitOperand, ParserState.atImplicitOperand, hv.currentKind h, hv.openBars h]

theorem misplacedName (hv : Views R S) (h : S s s') : misplacedName s.cursor = misplacedName s'.cursor := by
  rw [ParseM.misplacedName, ParseM.misplacedName, hv.fragments h, hv.text_eq (hv.current h)]

theorem parenthesisAhead (hv : Views R S) (h : S s s') :
    (s.cursor.current.kind == .openParen || s.cursor.current.kind == .left && (s.cursor.peek 1).kind == .openParen) =
      (s'.cursor.current.kind == .openParen ||
        s'.cursor.current.kind == .left && (s'.cursor.peek 1).kind == .openParen) := by
  rw [← hv.currentKind h]
  by_cases hk : s.cursor.current.kind = .left
  · rw [hv.kind_eq (hv.peek_one h (by rw [hk]; decide))]
  · rw [beq_eq_false_iff_ne.2 hk, Bool.false_and, Bool.false_and]

theorem advanceBy (hv : Views R S) (n : Nat) (h : S s s') :
    S { s with cursor := s.cursor.advanceBy n } { s' with cursor := s'.cursor.advanceBy n } := by
  induction n generalizing s s' with
  | zero => exact h
  | succ n ih => exact ih (hv.advance h)

end Views

end

/-! ## Steps -/

/-- A relation between runs of the parser that respects the steps these are made of. -/
structure StepRelation (R : Token → Token → Prop) (S : ParserState → ParserState → Prop) where
  Rel {α α' : Type} : (α → α' → Prop) → ParseM α → ParseM α' → Prop
  views : Views R S
  pure {α α' : Type} {V : α → α' → Prop} {a : α} {a' : α'} : V a a' → Rel V (pure a) (pure a')
  bind {α α' β β' : Type} {V : α → α' → Prop} {W : β → β' → Prop} {x : ParseM α} {x' : ParseM α'}
    {f : α → ParseM β} {f' : α' → ParseM β'} :
    Rel V x x' → (∀ a a', V a a' → Rel W (f a) (f' a')) → Rel W (x >>= f) (x' >>= f')
  state : Rel S state state
  advance : Rel R advance advance
  takeName : Rel Eq takeName takeName
  reject {α α' : Type} {V : α → α' → Prop} (fault : SyntaxFault) {token token' : Token} :
    R token token' → Rel V (reject fault token) (reject fault token')

namespace StepRelation

variable {R : Token → Token → Prop} {S : ParserState → ParserState → Prop} {α α' β β' : Type} {V : α → α' → Prop}
  {W : β → β' → Prop} {token token' : Token}

theorem bind_eq (steps : StepRelation R S) {x x' : ParseM α} {f : α → ParseM β} {f' : α → ParseM β'}
    (hx : steps.Rel Eq x x') (hf : ∀ a, steps.Rel W (f a) (f' a)) : steps.Rel W (x >>= f) (x' >>= f') := by
  refine steps.bind hx ?_
  rintro a _ rfl
  exact hf a

theorem current (steps : StepRelation R S) : steps.Rel R current current :=
  steps.bind steps.state fun _ _ hs => steps.pure (steps.views.current hs)

theorem currentKind (steps : StepRelation R S) : steps.Rel Eq currentKind currentKind :=
  steps.bind steps.state fun _ _ hs => steps.pure (steps.views.currentKind hs)

theorem unexpected (steps : StepRelation R S) : steps.Rel V unexpected unexpected := by
  refine steps.bind steps.current fun token token' ht => ?_
  rw [steps.views.kind_eq ht, steps.views.text_eq ht]
  exact steps.reject _ ht

theorem nested (steps : StepRelation R S) {limit limit' : Nat} (henter : steps.Rel Eq (enter limit) (enter limit'))
    (hleave : steps.Rel Eq leave leave) {x : ParseM α} {x' : ParseM α'} (h : steps.Rel V x x') :
    steps.Rel V (nested limit x) (nested limit' x') :=
  steps.bind henter fun _ _ _ => steps.bind h fun _ _ ha => steps.bind hleave fun _ _ _ => steps.pure ha

theorem withBars (steps : StepRelation R S) (hset : ∀ bars, steps.Rel Eq (setBars bars) (setBars bars))
    (bars : Nat → Nat) {x : ParseM α} {x' : ParseM α'} (h : steps.Rel V x x') :
    steps.Rel V (withBars bars x) (withBars bars x') := by
  refine steps.bind steps.state fun s s' hs => ?_
  rw [steps.views.openBars hs]
  refine steps.bind (hset _) fun _ _ _ => steps.bind h fun _ _ ha => ?_
  exact steps.bind (hset _) fun _ _ _ => steps.pure ha

theorem unexpectedToken (steps : StepRelation R S) (ht : R token token') :
    steps.Rel V (ParseM.reject (SyntaxFault.unexpectedToken token.text) token)
      (ParseM.reject (SyntaxFault.unexpectedToken token'.text) token') := by
  rw [steps.views.text_eq ht]
  exact steps.reject _ ht

theorem refuseIf (steps : StepRelation R S) (refused : Bool) (fault : SyntaxFault) (ht : R token token') :
    steps.Rel Eq (refuseIf refused fault token) (refuseIf refused fault token') := by
  cases refused with
  | false => exact steps.pure rfl
  | true => exact steps.reject fault ht

theorem demandOr (steps : StepRelation R S) (kind : Kind) {fault fault' : Token → SyntaxFault}
    (h : ∀ token token', R token token' → fault token = fault' token') :
    steps.Rel Eq (demandOr kind fault) (demandOr kind fault') := by
  refine steps.bind steps.current fun token token' ht => ?_
  rw [steps.views.kind_eq ht, h token token' ht]
  exact steps.refuseIf _ _ ht

theorem demand (steps : StepRelation R S) (kind : Kind) : steps.Rel Eq (demand kind) (demand kind) :=
  steps.demandOr kind fun _ _ ht => by rw [steps.views.text_eq ht]

theorem expectOr (steps : StepRelation R S) (kind : Kind) {fault fault' : Token → SyntaxFault}
    (h : ∀ token token', R token token' → fault token = fault' token') :
    steps.Rel R (expectOr kind fault) (expectOr kind fault') :=
  steps.bind (steps.demandOr kind h) fun _ _ _ => steps.advance

theorem expect (steps : StepRelation R S) (kind : Kind) : steps.Rel R (expect kind) (expect kind) :=
  steps.expectOr kind fun _ _ ht => by rw [steps.views.text_eq ht]

theorem close (steps : StepRelation R S) {opened opened' : Token} (ho : R opened opened') (kind : Kind) :
    steps.Rel R (close opened kind) (close opened' kind) :=
  steps.expectOr kind fun _ _ ht => by rw [steps.views.text_eq ho, steps.views.text_eq ht]

/-! ### Names -/

theorem refuseName (steps : StepRelation R S) (refused : Bool) :
    steps.Rel Eq (refuseName refused) (refuseName refused) := by
  refine steps.bind steps.current fun token token' ht => ?_
  rw [steps.views.text_eq ht]
  exact steps.refuseIf _ _ ht

theorem bracedName (steps : StepRelation R S) : steps.Rel Eq bracedName bracedName := by
  refine steps.bind (steps.expect _) fun _ _ _ => steps.bind_eq steps.currentKind fun kind => ?_
  refine steps.bind (steps.refuseName _) fun _ _ _ => steps.bind_eq steps.takeName fun name => ?_
  refine steps.bind (steps.refuseName _) fun _ _ _ => steps.bind (steps.expect _) fun _ _ _ => ?_
  exact steps.pure rfl

theorem environmentName (steps : StepRelation R S) : steps.Rel Eq environmentName environmentName := by
  refine steps.bind (steps.expect _) fun _ _ _ => steps.bind steps.state fun s s' hs => ?_
  refine steps.bind (steps.expectOr _ fun _ _ _ => by rw [steps.views.misplacedName hs]) fun _ _ _ => ?_
  exact steps.bind (steps.expect _) fun _ _ _ => steps.pure rfl

/-! ### Productions that read no others -/

theorem assignmentTarget (steps : StepRelation R S) (ht : R token token') (left : Expr) :
    steps.Rel Eq (Read.assignmentTarget token left) (Read.assignmentTarget token' left) := by
  rw [Read.assignmentTarget, Read.assignmentTarget, steps.views.kind_eq ht, steps.views.text_eq ht]
  split
  · exact steps.pure rfl
  · exact steps.reject _ ht

theorem refuseSecondNumber (steps : StepRelation R S) :
    steps.Rel Eq Read.refuseSecondNumber Read.refuseSecondNumber := by
  refine steps.bind steps.state fun s s' hs => ?_
  have hfirst := steps.views.numberBefore? hs
  have hcurrent := steps.views.current hs
  dsimp only
  generalize Read.numberBefore? s.cursor = first at hfirst
  generalize Read.numberBefore? s'.cursor = first' at hfirst
  cases hfirst with
  | none => exact steps.pure rfl
  | some hfirst =>
    dsimp only
    rw [steps.views.text_eq hfirst, steps.views.text_eq hcurrent]
    exact steps.reject _ hcurrent

theorem takeLeft (steps : StepRelation R S) : steps.Rel (Option.Rel R) Read.takeLeft Read.takeLeft := by
  refine steps.bind_eq steps.currentKind fun kind => ?_
  split
  · exact steps.bind steps.advance fun _ _ hleft => steps.pure (.some hleft)
  · exact steps.pure .none

theorem closeLeft (steps : StepRelation R S) {left? left?' : Option Token} (h : Option.Rel R left? left?') :
    steps.Rel Eq (Read.closeLeft left?) (Read.closeLeft left?') := by
  cases h with
  | none => exact steps.pure rfl
  | some hleft => exact steps.bind (steps.close hleft _) fun _ _ _ => steps.pure rfl

theorem atParenthesis (steps : StepRelation R S) : steps.Rel Eq Read.atParenthesis Read.atParenthesis :=
  steps.bind steps.state fun _ _ hs => steps.pure (steps.views.parenthesisAhead hs)

theorem mathrm (steps : StepRelation R S) : steps.Rel Eq Read.mathrm Read.mathrm := by
  refine steps.bind steps.advance fun _ _ _ => steps.bind_eq steps.bracedName fun name => ?_
  split
  · exact steps.pure rfl
  · exact steps.pure rfl
  · exact steps.pure rfl

theorem mathbf (steps : StepRelation R S) : steps.Rel Eq Read.mathbf Read.mathbf := by
  refine steps.bind steps.advance fun _ _ _ => steps.bind (steps.expect _) fun _ _ _ => ?_
  exact steps.bind (steps.expect _) fun _ _ _ => steps.bind (steps.expect _) fun _ _ _ => steps.pure rfl

end StepRelation

/-! ### Runs that end alike -/

section
variable {R : Token → Token → Prop} {S : ParserState → ParserState → Prop} {α α' β β' : Type} {V : α → α' → Prop}
  {W : β → β' → Prop}

theorem Mirrors.bind {m : ParseM α} {m' : ParseM α'} {f : α → ParseM β} {f' : α' → ParseM β'} (hm : Mirrors R S V m m')
    (hf : ∀ a a', V a a' → Mirrors R S W (f a) (f' a')) : Mirrors R S W (m >>= f) (m' >>= f') := by
  intro s s' hs
  have hfirst := hm s s' hs
  show EndsAlike R S W (EStateM.bind m f s) (EStateM.bind m' f' s')
  unfold EStateM.bind
  generalize m s = r at hfirst
  generalize m' s' = r' at hfirst
  cases hfirst with
  | ok hV ht => exact hf _ _ hV _ _ ht
  | rejected htoken ht => exact .rejected htoken ht
  | exhausted ht => exact .exhausted ht

namespace Views

/-- From states that look alike, the steps of the parser end alike. -/
def mirrors (hv : Views R S) : StepRelation R S where
  Rel := Mirrors R S
  views := hv
  pure h := fun _ _ hs => .ok h hs
  bind := Mirrors.bind
  state := fun _ _ hs => .ok hs hs
  advance := fun _ _ hs => .ok (hv.current hs) (hv.advance hs)
  takeName := by
    intro s s' hs
    show EndsAlike R S Eq (.ok (String.join (s.cursor.fragments 0)) _) (.ok (String.join (s'.cursor.fragments 0)) _)
    rw [hv.fragments hs]
    exact .ok rfl (hv.advanceBy _ hs)
  reject := by
    intro _ _ _ fault token token' ht s s' hs
    exact .rejected ht hs

theorem mirrors_leave (hv : Views R S) : Mirrors R S Eq leave leave := by
  intro s s' hs
  refine .ok rfl ?_
  show S _ { s' with depth := s'.depth - 1 }
  rw [← hv.depth hs]
  exact hv.withDepth _ hs

theorem mirrors_setBars (hv : Views R S) (bars : Nat) : Mirrors R S Eq (setBars bars) (setBars bars) :=
  fun _ _ hs => .ok rfl (hv.withBars bars hs)

theorem mirrors_enter (hv : Views R S) (limit : Nat) : Mirrors R S Eq (enter limit) (enter limit) := by
  refine Mirrors.bind hv.mirrors.state fun s s' hs => ?_
  rw [hv.depth hs]
  split
  · exact Mirrors.bind hv.mirrors.current fun _ _ ht => hv.mirrors.reject _ ht
  · exact fun t t' ht => .ok rfl (hv.withDepth _ hs)

theorem mirrors_nested (hv : Views R S) (limit : Nat) {m : ParseM α} {m' : ParseM α'} (h : Mirrors R S V m m') :
    Mirrors R S V (nested limit m) (nested limit m') :=
  hv.mirrors.nested (hv.mirrors_enter limit) hv.mirrors_leave h

theorem mirrors_withBars (hv : Views R S) (bars : Nat → Nat) {m : ParseM α} {m' : ParseM α'} (h : Mirrors R S V m m') :
    Mirrors R S V (ParseM.withBars bars m) (ParseM.withBars bars m') :=
  hv.mirrors.withBars hv.mirrors_setBars bars h

end Views

end

/-! ## Readings -/

/-- The rules bind and start the same, though they may differ in how deep expressions may nest. -/
structure Rules.SameGrammar (rules rules' : Rules) : Prop where
  level : rules.level = rules'.level
  primary? : rules.primary? = rules'.primary?

theorem Rules.SameGrammar.refl (rules : Rules) : rules.SameGrammar rules := ⟨rfl, rfl⟩

theorem Rules.sameGrammar_standard (limit limit' : Nat) : (standard limit).SameGrammar (standard limit') := ⟨rfl, rfl⟩

theorem exists_pred_of_eq {n k : Nat} (h : n + 1 = k) : ∃ k', k = k' + 1 ∧ n = k' := ⟨n, h.symm, rfl⟩

/--
A relation between readings in two monads that respects all ways to put these together. The rules may differ in
their limits, and the readings in the steps they are given.
-/
structure Correspondence {R : Token → Token → Prop} {S : ParserState → ParserState → Prop} (steps : StepRelation R S)
    (m m' : Type → Type) [Monad m] [MonadLiftT ParseM m] [Interpretation m] [Monad m'] [MonadLiftT ParseM m']
    [Interpretation m'] (rules rules' : Rules) where
  Rel {α α' : Type} : (α → α' → Prop) → m α → m' α' → Prop
  /-- Which numbers of steps the two readings may be given. -/
  Turns : Nat → Nat → Prop
  grammar : rules.SameGrammar rules'
  pure {α α' : Type} {V : α → α' → Prop} {a : α} {a' : α'} : V a a' → Rel V (pure a) (pure a')
  bind {α α' β β' : Type} {V : α → α' → Prop} {W : β → β' → Prop} {x : m α} {x' : m' α'} {f : α → m β} {f' : α' → m' β'} :
    Rel V x x' → (∀ a a', V a a' → Rel W (f a) (f' a')) → Rel W (x >>= f) (x' >>= f')
  lift {α α' : Type} {V : α → α' → Prop} {x : ParseM α} {x' : ParseM α'} :
    steps.Rel V x x' → Rel V (liftM x) (liftM x')
  turns_succ {n k : Nat} : Turns (n + 1) k → ∃ k', k = k' + 1 ∧ Turns n k'
  exhausted {α α' : Type} {V : α → α' → Prop} {k : Nat} {x' : m' α'} : Turns 0 k → (k = 0 → x' = liftM exhausted) →
    Rel V (liftM exhausted) x'
  deeper {α α' : Type} {V : α → α' → Prop} {x : m α} {x' : m' α'} :
    Rel V x x' → Rel V (Interpretation.deeper rules.limit x) (Interpretation.deeper rules'.limit x')
  barred {α α' : Type} {V : α → α' → Prop} (bars : Nat → Nat) {x : m α} {x' : m' α'} :
    Rel V x x' → Rel V (Interpretation.barred bars x) (Interpretation.barred bars x')
  neighbour {α α' : Type} {V : α → α' → Prop} {x : m α} {x' : m' α'} :
    Rel V x x' → Rel V (Interpretation.neighbour x) (Interpretation.neighbour x')
  delimited {α α' : Type} {V : α → α' → Prop} {x : m α} {x' : m' α'} :
    Rel V x x' → Rel V (Interpretation.delimited x) (Interpretation.delimited x')
  noOperation {token token' : Token} : R token token' →
    Rel Eq (Interpretation.noOperation token) (Interpretation.noOperation token')
  noNumber {token token' : Token} : R token token' →
    Rel Eq (Interpretation.noNumber token) (Interpretation.noNumber token')
  noSymbol {token token' : Token} : R token token' →
    Rel Eq (Interpretation.noSymbol token) (Interpretation.noSymbol token')
  noValue : Rel Eq (Interpretation.noValue (m := m)) Interpretation.noValue

section
variable {R : Token → Token → Prop} {S : ParserState → ParserState → Prop} {rules rules' : Rules}

/-- A relation between runs of the parser relates readings in `ParseM`, if it respects levels and bars. -/
def StepRelation.plain (steps : StepRelation R S) (grammar : rules.SameGrammar rules')
    (deeper : ∀ {α α' : Type} {V : α → α' → Prop} {x : ParseM α} {x' : ParseM α'},
      steps.Rel V x x' → steps.Rel V (ParseM.nested rules.limit x) (ParseM.nested rules'.limit x'))
    (barred : ∀ {α α' : Type} {V : α → α' → Prop} (bars : Nat → Nat) {x : ParseM α} {x' : ParseM α'},
      steps.Rel V x x' → steps.Rel V (ParseM.withBars bars x) (ParseM.withBars bars x'))
    (Turns : Nat → Nat → Prop) (turns_succ : ∀ {n k : Nat}, Turns (n + 1) k → ∃ k', k = k' + 1 ∧ Turns n k')
    (exhausted : ∀ {α α' : Type} {V : α → α' → Prop} {k : Nat} {x' : ParseM α'}, Turns 0 k →
      (k = 0 → x' = ParseM.exhausted) → steps.Rel V ParseM.exhausted x') :
    Correspondence steps ParseM ParseM rules rules' where
  Rel := steps.Rel
  Turns := Turns
  grammar := grammar
  pure := steps.pure
  bind := steps.bind
  lift h := h
  turns_succ := turns_succ
  exhausted := exhausted
  deeper := deeper
  barred := barred
  neighbour h := h
  delimited h := h
  noOperation ht := steps.unexpectedToken ht
  noNumber ht := steps.unexpectedToken ht
  noSymbol ht := steps.unexpectedToken ht
  noValue := steps.unexpected

def StepRelation.same (steps : StepRelation R S) (grammar : rules.SameGrammar rules')
    (deeper : ∀ {α α' : Type} {V : α → α' → Prop} {x : ParseM α} {x' : ParseM α'},
      steps.Rel V x x' → steps.Rel V (ParseM.nested rules.limit x) (ParseM.nested rules'.limit x'))
    (barred : ∀ {α α' : Type} {V : α → α' → Prop} (bars : Nat → Nat) {x : ParseM α} {x' : ParseM α'},
      steps.Rel V x x' → steps.Rel V (ParseM.withBars bars x) (ParseM.withBars bars x'))
    (exhausted : ∀ {α α' : Type} {V : α → α' → Prop}, steps.Rel V ParseM.exhausted ParseM.exhausted) :
    Correspondence steps ParseM ParseM rules rules' :=
  steps.plain grammar deeper barred Eq @exists_pred_of_eq fun h hzero => by
    rw [hzero h.symm]
    exact exhausted

end

namespace Correspondence

variable {R : Token → Token → Prop} {S : ParserState → ParserState → Prop} {steps : StepRelation R S}
  {m m' : Type → Type} [Monad m] [MonadLiftT ParseM m] [Interpretation m] [Monad m'] [MonadLiftT ParseM m']
  [Interpretation m'] {rules rules' : Rules} {α α' β β' : Type} {V : α → α' → Prop} {W : β → β' → Prop}
  {again : Production → m Expr} {again' : Production → m' Expr} {token token' : Token} {n n' : Nat}

theorem bind_eq (C : Correspondence steps m m' rules rules') {x : m α} {x' : m' α} {f : α → m β} {f' : α → m' β'}
    (hx : C.Rel Eq x x') (hf : ∀ a, C.Rel W (f a) (f' a)) : C.Rel W (x >>= f) (x' >>= f') := by
  refine C.bind hx ?_
  rintro a _ rfl
  exact hf a

theorem ite (C : Correspondence steps m m' rules rules') {c : Prop} [Decidable c] {x y : m α} {x' y' : m' α'}
    (hx : C.Rel V x x') (hy : C.Rel V y y') : C.Rel V (if c then x else y) (if c then x' else y') := by
  split
  · exact hx
  · exact hy

theorem level (C : Correspondence steps m m' rules rules') {s s' : ParserState} (hs : S s s') :
    s.level rules = s'.level rules' := by
  rw [steps.views.level hs, ParserState.level, ParserState.level, C.grammar.level]

theorem atImplicitOperand (C : Correspondence steps m m' rules rules') {s s' : ParserState} (hs : S s s') :
    s.atImplicitOperand rules = s'.atImplicitOperand rules' := by
  rw [steps.views.atImplicitOperand hs, ParserState.atImplicitOperand, ParserState.atImplicitOperand,
    C.grammar.primary?]

theorem operationOf (C : Correspondence steps m m' rules rules') (ht : R token token') :
    C.Rel Eq (operationOf token) (operationOf token') := by
  rw [TexFormula.operationOf, TexFormula.operationOf, steps.views.kind_eq ht]
  split
  · exact C.pure rfl
  · exact C.noOperation ht

/-! ### Operators -/

theorem comparison (C : Correspondence steps m m' rules rules') (h : ∀ p, C.Rel Eq (again p) (again' p)) :
    C.Rel Eq (Read.comparison rules again) (Read.comparison rules' again') := by
  refine C.bind (C.lift steps.current) fun start start' hstart => C.bind_eq (h .expression) fun left => ?_
  refine C.bind_eq (C.lift steps.currentKind) fun kind => C.ite ?_ (C.bind (C.lift steps.state) fun s s' hs => ?_)
  · refine C.bind_eq (C.lift (steps.assignmentTarget hstart left)) fun target => ?_
    refine C.bind (C.lift steps.advance) fun _ _ _ => C.bind_eq (C.deeper (h .comparison)) fun value => ?_
    exact C.pure rfl
  · rw [C.level hs]
    refine C.ite (C.bind (C.lift steps.advance) fun operator operator' ho => ?_) (C.pure rfl)
    exact C.bind_eq (h .expression) fun right => C.bind_eq (C.operationOf ho) fun name => C.pure rfl

theorem sumTail (C : Correspondence steps m m' rules rules') (h : ∀ p, C.Rel Eq (again p) (again' p))
    (hn : C.Turns n n') (left : Expr) :
    C.Rel Eq (Read.sumTail rules again n left) (Read.sumTail rules' again' n' left) := by
  induction n generalizing n' left with
  | zero => exact C.exhausted hn fun hzero => by rw [hzero]; rfl
  | succ n ih =>
    obtain ⟨k, rfl, hk⟩ := C.turns_succ hn
    refine C.bind (C.lift steps.state) fun s s' hs => ?_
    rw [C.level hs]
    refine C.ite (C.bind (C.lift steps.advance) fun operator operator' ho => ?_) (C.pure rfl)
    exact C.bind_eq (h .term) fun right => C.bind_eq (C.operationOf ho) fun name => ih hk _

theorem productTail (C : Correspondence steps m m' rules rules') (h : ∀ p, C.Rel Eq (again p) (again' p))
    (hn : C.Turns n n') (left : Expr) :
    C.Rel Eq (Read.productTail rules again n left) (Read.productTail rules' again' n' left) := by
  induction n generalizing n' left with
  | zero => exact C.exhausted hn fun hzero => by rw [hzero]; rfl
  | succ n ih =>
    obtain ⟨k, rfl, hk⟩ := C.turns_succ hn
    refine C.bind (C.lift steps.state) fun s s' hs => ?_
    rw [C.level hs]
    refine C.ite (C.bind (C.lift steps.advance) fun operator operator' ho => ?_) ?_
    · exact C.bind_eq (h .factor) fun right => C.bind_eq (C.operationOf ho) fun name => ih hk _
    · refine C.bind (C.lift steps.state) fun t t' ht => ?_
      rw [C.atImplicitOperand ht]
      refine C.ite (C.bind_eq (C.lift steps.refuseSecondNumber) fun _ => ?_) (C.pure rfl)
      exact C.bind_eq (C.neighbour (h .power)) fun right => ih hk _

theorem factor (C : Correspondence steps m m' rules rules') (h : ∀ p, C.Rel Eq (again p) (again' p)) :
    C.Rel Eq (Read.factor again) (Read.factor again') := by
  refine C.bind_eq (C.lift steps.currentKind) fun kind => C.ite ?_ (h .power)
  exact C.bind (C.lift steps.advance) fun _ _ _ => C.bind_eq (h .power) fun operand => C.pure rfl

theorem raise (C : Correspondence steps m m' rules rules') (ht : R token token') (base exponent : Expr) :
    C.Rel Eq (Read.raise token base exponent) (Read.raise token' base exponent) :=
  C.ite (C.pure rfl) (C.bind_eq (C.operationOf ht) fun _ => C.pure rfl)

theorem powerTail (C : Correspondence steps m m' rules rules') (h : ∀ p, C.Rel Eq (again p) (again' p))
    (hn : C.Turns n n') (left : Expr) :
    C.Rel Eq (Read.powerTail rules again n left) (Read.powerTail rules' again' n' left) := by
  induction n generalizing n' left with
  | zero => exact C.exhausted hn fun hzero => by rw [hzero]; rfl
  | succ n ih =>
    obtain ⟨k, rfl, hk⟩ := C.turns_succ hn
    refine C.bind (C.lift steps.state) fun s s' hs => ?_
    rw [C.level hs]
    refine C.ite (C.bind (C.lift steps.advance) fun operator operator' ho => ?_) (C.pure rfl)
    exact C.bind_eq (h .primary) fun exponent => C.bind_eq (C.raise ho left exponent) fun power => ih hk _

/-! ### Groupings -/

theorem listed (C : Correspondence steps m m' rules rules') (h : ∀ p, C.Rel Eq (again p) (again' p))
    (allowed : Bool) (hn : C.Turns n n') :
    C.Rel Eq (Read.listed again allowed n) (Read.listed again' allowed n') := by
  refine C.bind_eq (h .comparison) fun value => C.bind_eq ?_ fun values => C.pure rfl
  induction n generalizing n' with
  | zero => exact C.exhausted hn fun hzero => by rw [hzero]; rfl
  | succ n ih =>
    obtain ⟨k, rfl, hk⟩ := C.turns_succ hn
    refine C.bind (C.lift steps.current) fun token token' ht => ?_
    rw [steps.views.kind_eq ht, steps.views.text_eq ht]
    refine C.ite (C.bind_eq (C.lift (steps.refuseIf _ _ ht)) fun _ => ?_) (C.pure rfl)
    refine C.bind (C.lift steps.advance) fun _ _ _ => C.bind_eq (h .comparison) fun value => ?_
    exact C.bind_eq (ih hk) fun values => C.pure rfl

theorem enclose (C : Correspondence steps m m' rules rules') (ht : R token token') (values : List Expr) :
    C.Rel Eq (Read.enclose token values) (Read.enclose token' values) := by
  rw [Read.enclose, Read.enclose, steps.views.kind_eq ht]
  exact C.ite (C.bind_eq (C.operationOf ht) fun name => C.pure rfl) (C.pure rfl)

theorem grouping (C : Correspondence steps m m' rules rules') (h : ∀ p, C.Rel Eq (again p) (again' p))
    (allowList : Bool) (hn : C.Turns n n') :
    C.Rel Eq (Read.grouping again allowList n) (Read.grouping again' allowList n') := by
  refine C.delimited (C.bind (C.lift steps.takeLeft) fun left? left?' hleft => ?_)
  refine C.bind (C.lift steps.current) fun opening opening' ho => ?_
  have hbars : Read.barsInside opening left? = Read.barsInside opening' left?' := by
    have hnone : left?.isNone = left?'.isNone := by cases hleft <;> rfl
    funext outside
    rw [Read.barsInside, Read.barsInside, steps.views.kind_eq ho, hnone]
  rw [steps.views.kind_eq ho, steps.views.text_eq ho, hbars]
  split
  · exact C.lift (steps.reject _ ho)
  · refine C.bind (C.lift steps.advance) fun _ _ _ => C.bind_eq (C.barred _ (C.listed h _ hn)) fun values => ?_
    refine C.bind_eq (C.lift (steps.closeLeft hleft)) fun _ => C.bind (C.lift (steps.close ho _)) fun _ _ _ => ?_
    exact C.enclose ho values

theorem groupingValue (C : Correspondence steps m m' rules rules') (h : ∀ p, C.Rel Eq (again p) (again' p))
    (hn : C.Turns n n') : C.Rel Eq (Read.groupingValue again n) (Read.groupingValue again' n') := by
  refine C.bind_eq (C.grouping h false hn) fun values => ?_
  split
  · exact C.pure rfl
  · exact C.noValue

theorem argument (C : Correspondence steps m m' rules rules') (h : ∀ p, C.Rel Eq (again p) (again' p))
    (hn : C.Turns n n') : C.Rel Eq (Read.argument rules again n) (Read.argument rules' again' n') := by
  refine C.bind_eq (C.lift steps.atParenthesis) fun found => C.ite (C.deeper (C.grouping h true hn)) ?_
  exact C.bind_eq (h .primary) fun e => C.pure rfl

/-! ### Subscripts and primaries -/

theorem index (C : Correspondence steps m m' rules rules') (h : ∀ p, C.Rel Eq (again p) (again' p))
    (hn : C.Turns n n') : C.Rel Eq (Read.index rules again n) (Read.index rules' again' n') := by
  refine C.bind (C.lift steps.state) fun s s' hs => ?_
  rw [steps.views.atBracedName hs]
  exact C.ite (C.bind_eq (C.lift steps.bracedName) fun name => C.pure rfl) (C.argument h hn)

theorem subscriptTail (C : Correspondence steps m m' rules rules') (h : ∀ p, C.Rel Eq (again p) (again' p))
    (hn : C.Turns n n') (left : Expr) :
    C.Rel Eq (Read.subscriptTail rules again n left) (Read.subscriptTail rules' again' n' left) := by
  induction n generalizing n' left with
  | zero => exact C.exhausted hn fun hzero => by rw [hzero]; rfl
  | succ n ih =>
    obtain ⟨k, rfl, hk⟩ := C.turns_succ hn
    refine C.bind (C.lift steps.state) fun s s' hs => ?_
    rw [C.level hs]
    refine C.ite (C.bind (C.lift steps.advance) fun _ _ _ => ?_) (C.pure rfl)
    exact C.bind_eq (C.index h hk) fun index => ih hk _

theorem primary (C : Correspondence steps m m' rules rules') (h : ∀ p, C.Rel Eq (again p) (again' p)) :
    C.Rel Eq (Read.primary rules again) (Read.primary rules' again') := by
  refine C.bind_eq (C.lift steps.currentKind) fun kind => ?_
  rw [C.grammar.primary?]
  split
  · exact C.deeper (h _)
  · exact C.lift steps.unexpected

theorem number (C : Correspondence steps m m' rules rules') : C.Rel Eq (Read.number (m := m)) Read.number := by
  refine C.bind (C.lift steps.advance) fun token token' ht => ?_
  rw [steps.views.text_eq ht]
  exact C.ite (C.pure rfl) (C.noNumber ht)

theorem symbol (C : Correspondence steps m m' rules rules') : C.Rel Eq (Read.symbol (m := m)) Read.symbol := by
  refine C.bind (C.lift steps.advance) fun token token' ht => ?_
  rw [steps.views.kind_eq ht, steps.views.text_eq ht]
  refine C.ite ?_ (C.pure rfl)
  split
  · exact C.pure rfl
  · exact C.noSymbol ht

theorem row (C : Correspondence steps m m' rules rules') (h : ∀ p, C.Rel Eq (again p) (again' p))
    (hn : C.Turns n n') : C.Rel Eq (Read.row again n) (Read.row again' n') := by
  refine C.bind_eq (h .expression) fun entry => C.bind_eq ?_ fun entries => C.pure rfl
  induction n generalizing n' with
  | zero => exact C.exhausted hn fun hzero => by rw [hzero]; rfl
  | succ n ih =>
    obtain ⟨k, rfl, hk⟩ := C.turns_succ hn
    refine C.bind_eq (C.lift steps.currentKind) fun kind => ?_
    refine C.ite (C.bind (C.lift steps.advance) fun _ _ _ => ?_) (C.pure rfl)
    exact C.bind_eq (h .expression) fun entry => C.bind_eq (ih hk) fun entries => C.pure rfl

theorem rows (C : Correspondence steps m m' rules rules') (h : ∀ p, C.Rel Eq (again p) (again' p))
    (ht : R token token') (hn : C.Turns n n') :
    C.Rel Eq (Read.rows again token n) (Read.rows again' token' n') := by
  induction n generalizing n' with
  | zero => exact C.exhausted hn fun hzero => by rw [hzero]; rfl
  | succ n ih =>
    obtain ⟨k, rfl, hk⟩ := C.turns_succ hn
    refine C.bind_eq (C.row h hk) fun first => C.bind_eq (C.lift steps.currentKind) fun kind => ?_
    split
    · exact C.pure rfl
    · refine C.bind (C.lift steps.advance) fun _ _ _ => C.bind_eq (C.lift steps.currentKind) fun next => ?_
      exact C.ite (C.pure rfl) (C.bind_eq (ih hk) fun rest => C.pure rfl)
    · refine C.bind (C.lift steps.current) fun found found' hf => C.lift ?_
      rw [steps.views.text_eq ht, steps.views.text_eq hf]
      exact steps.bind steps.current fun place place' hplace => steps.reject _ hplace

theorem matrix (C : Correspondence steps m m' rules rules') (h : ∀ p, C.Rel Eq (again p) (again' p))
    (hn : C.Turns n n') : C.Rel Eq (Read.matrix again n) (Read.matrix again' n') := by
  refine C.bind (C.lift steps.advance) fun opening opening' ho => C.bind_eq (C.lift steps.environmentName) fun _ => ?_
  refine C.bind_eq (C.barred _ (C.rows h ho hn)) fun rows => C.bind (C.lift (steps.expect _)) fun _ _ _ => ?_
  exact C.bind_eq (C.lift steps.environmentName) fun _ => C.pure rfl

theorem frac (C : Correspondence steps m m' rules rules') (h : ∀ p, C.Rel Eq (again p) (again' p))
    (hn : C.Turns n n') : C.Rel Eq (Read.frac again n) (Read.frac again' n') := by
  have hdenominator : C.Rel Eq (Read.denominator again n) (Read.denominator again' n') :=
    C.bind_eq (C.lift steps.currentKind) fun kind => C.ite (C.groupingValue h hn) (h .primary)
  refine C.bind (C.lift steps.advance) fun operator operator' ho => C.bind_eq (C.lift (steps.demand _)) fun _ => ?_
  refine C.bind_eq (C.groupingValue h hn) fun numerator => C.bind_eq hdenominator fun denominator => ?_
  exact C.bind_eq (C.operationOf ho) fun name => C.pure rfl

theorem base (C : Correspondence steps m m' rules rules') (h : ∀ p, C.Rel Eq (again p) (again' p))
    (ht : R token token') : C.Rel Eq (Read.base again token) (Read.base again' token') := by
  refine C.bind_eq (C.lift steps.currentKind) fun kind => ?_
  rw [steps.views.kind_eq ht]
  refine C.ite (C.bind (C.lift steps.advance) fun _ _ _ => ?_) (C.pure rfl)
  exact C.bind_eq (h .primary) fun base => C.pure rfl

theorem function (C : Correspondence steps m m' rules rules') (h : ∀ p, C.Rel Eq (again p) (again' p))
    (hn : C.Turns n n') : C.Rel Eq (Read.function rules again n) (Read.function rules' again' n') := by
  refine C.bind (C.lift steps.advance) fun token token' ht => C.bind_eq (C.operationOf ht) fun name => ?_
  exact C.bind_eq (C.base h ht) fun base => C.bind_eq (C.argument h hn) fun arguments => C.pure rfl

theorem operatorname (C : Correspondence steps m m' rules rules') (h : ∀ p, C.Rel Eq (again p) (again' p))
    (hn : C.Turns n n') : C.Rel Eq (Read.operatorname rules again n) (Read.operatorname rules' again' n') := by
  refine C.bind (C.lift steps.advance) fun _ _ _ => C.bind_eq (C.lift steps.bracedName) fun name => ?_
  exact C.bind_eq (C.argument h hn) fun arguments => C.pure rfl

theorem body (C : Correspondence steps m m' rules rules') (h : ∀ p, C.Rel Eq (again p) (again' p))
    (hn : C.Turns n n') (p : Production) : C.Rel Eq (Read.body rules again n p) (Read.body rules' again' n' p) := by
  cases p with
  | comparison => exact C.comparison h
  | expression => exact C.bind_eq (h .term) fun left => C.sumTail h hn left
  | term => exact C.bind_eq (h .factor) fun left => C.productTail h hn left
  | factor => exact C.factor h
  | power => exact C.bind_eq (h .subscript) fun left => C.powerTail h hn left
  | subscript => exact C.bind_eq (h .primary) fun left => C.subscriptTail h hn left
  | primary => exact C.primary h
  | number => exact C.number
  | symbol => exact C.symbol
  | mathrm => exact C.lift steps.mathrm
  | mathbf => exact C.lift steps.mathbf
  | grouping => exact C.groupingValue h hn
  | matrix => exact C.matrix h hn
  | frac => exact C.frac h hn
  | function => exact C.function h hn
  | operatorname => exact C.operatorname h hn

/-- What is read in the one monad corresponds to what is read in the other. -/
theorem production (C : Correspondence steps m m' rules rules') (hn : C.Turns n n') (p : Production) :
    C.Rel Eq (Read.production rules n p) (Read.production rules' n' p) := by
  induction n generalizing n' p with
  | zero => exact C.exhausted hn fun hzero => by rw [hzero]; rfl
  | succ n ih =>
    obtain ⟨k, rfl, hk⟩ := C.turns_succ hn
    exact C.body (fun q => ih hk q) hk p

theorem run (C : Correspondence steps m m' rules rules') (p : Production)
    (h : ∀ s s', S s s' → C.Turns (Production.enough rules s) (Production.enough rules' s')) :
    C.Rel Eq (Read.run rules p) (Read.run rules' p) :=
  C.bind (C.lift steps.state) fun s s' hs => C.production (h s s' hs) p

theorem wholeInput (C : Correspondence steps m m' rules rules')
    (h : C.Rel Eq (Read.run rules .comparison) (Read.run rules' .comparison)) :
    C.Rel Eq (Read.wholeInput rules) (Read.wholeInput rules') :=
  C.bind_eq h fun _ => C.bind_eq (C.lift steps.currentKind) fun _ => C.ite (C.pure rfl) (C.lift steps.unexpected)

end Correspondence

end TexFormula

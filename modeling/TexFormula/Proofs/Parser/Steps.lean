import TexFormula.Proofs.Parser.Correspondence

/-!
# More steps and more levels change no result

A run is given a number of steps and a number of levels. Giving it more of either makes no difference
unless it had too few: then it stops as exhausted, or because the nesting is too deep.

* `Agrees excused m m'` : the run `m'` does what `m` does, unless `m` stops for an excused cause;
* `Widens excused limit limit'` : it is excused to run out of steps, and to nest too deep for `limit`
  where `limit'` is larger;
* `agrees_read` : reading in more steps and with a larger limit agrees with reading in fewer;
* `read_eq_run`, `run_eq_of_read` : what is read in any large number of steps is what `Production.run` returns;
* `parseTokens_eq_of_limit_le` : a larger limit changes no outcome but that of nesting too deep.
-/

namespace TexFormula

open ParseM

/-- Unless the first run stops for an excused cause, the second ends the same, but for results in `V`. -/
def Follows {α α' : Type} (excused : Halt → Prop) (V : α → α' → Prop) (m : ParseM α) (m' : ParseM α') : Prop :=
  ∀ s, (∃ halt t, m s = .error halt t ∧ excused halt) ∨ EndsAlike Eq Eq V (m s) (m' s)

/-- Unless the first run stops for an excused cause, the second does the same. -/
def Agrees {α : Type} (excused : Halt → Prop) (m m' : ParseM α) : Prop :=
  ∀ s, (∃ halt t, m s = .error halt t ∧ excused halt) ∨ m' s = m s

/-- Running out of steps is excused, and so is nesting too deep for the smaller of two limits. -/
structure Widens (excused : Halt → Prop) (limit limit' : Nat) : Prop where
  limit_le : limit ≤ limit'
  exhausted : excused .exhausted
  tooDeep : limit < limit' → ∀ token, excused (.rejected ⟨.nestingTooDeep limit, token⟩)

section
variable {α α' β β' : Type} {V : α → α' → Prop} {W : β → β' → Prop} {excused : Halt → Prop}

theorem follows_eq_iff {m m' : ParseM α} : Follows excused Eq m m' ↔ Agrees excused m m' :=
  forall_congr' fun _ => or_congr_right endsAlike_eq_iff

theorem Follows.bind {m : ParseM α} {m' : ParseM α'} {f : α → ParseM β} {f' : α' → ParseM β'}
    (hm : Follows excused V m m') (hf : ∀ a a', V a a' → Follows excused W (f a) (f' a')) :
    Follows excused W (m >>= f) (m' >>= f') := by
  intro s
  have hfirst := hm s
  show (∃ halt t, EStateM.bind m f s = .error halt t ∧ excused halt) ∨
    EndsAlike Eq Eq W (EStateM.bind m f s) (EStateM.bind m' f' s)
  unfold EStateM.bind
  rcases hfirst with ⟨halt, t, he, hx⟩ | hends
  · left
    rw [he]
    exact ⟨halt, t, rfl, hx⟩
  · generalize m s = r at hends
    generalize m' s = r' at hends
    cases hends with
    | ok hV ht =>
      subst ht
      exact hf _ _ hV _
    | rejected htoken ht => exact .inr (.rejected htoken ht)
    | exhausted ht => exact .inr (.exhausted ht)

theorem Mirrors.follows {m : ParseM α} {m' : ParseM α'} (h : Mirrors Eq Eq V m m') : Follows excused V m m' :=
  fun s => .inr (h s s rfl)

theorem follows_exhausted (h : excused .exhausted) (m' : ParseM α') : Follows excused V (exhausted : ParseM α) m' :=
  fun s => .inl ⟨.exhausted, s, rfl, h⟩

def following (excused : Halt → Prop) : StepRelation Eq Eq where
  Rel := Follows excused
  views := views_eq
  pure h := (views_eq.mirrors.pure h).follows
  bind := Follows.bind
  state := views_eq.mirrors.state.follows
  advance := views_eq.mirrors.advance.follows
  takeName := views_eq.mirrors.takeName.follows
  reject fault _ _ ht := (views_eq.mirrors.reject fault ht).follows

variable {limit limit' : Nat}

/-- A level that can be entered under the smaller limit can be entered under the larger one. -/
theorem follows_enter (hw : Widens excused limit limit') : Follows excused Eq (enter limit) (enter limit') := by
  intro s
  have hle := hw.limit_le
  rw [endsAlike_eq_iff]
  show (∃ halt t, (if limit ≤ s.depth then _ else _ : ParseM Unit) s = .error halt t ∧ excused halt) ∨
    (if limit' ≤ s.depth then _ else _ : ParseM Unit) s = (if limit ≤ s.depth then _ else _ : ParseM Unit) s
  by_cases hd : limit ≤ s.depth
  · by_cases heq : limit = limit'
    · subst heq
      exact .inr rfl
    · left
      rw [if_pos hd]
      exact ⟨_, s, rfl, hw.tooDeep (by omega) _⟩
  · right
    rw [if_neg hd, if_neg (by omega)]

/-- Readings with the smaller limit in fewer steps, and with the larger limit in more. -/
def widening (hw : Widens excused limit limit') :
    Correspondence (following excused) ParseM ParseM (.standard limit) (.standard limit') :=
  (following excused).plain (Rules.sameGrammar_standard limit limit') ((following excused).nested (follows_enter hw) views_eq.mirrors_leave.follows)
    ((following excused).withBars fun bars => (views_eq.mirrors_setBars bars).follows) (· ≤ ·)
    (fun {_ k} hle => ⟨k - 1, by omega, by omega⟩) fun _ _ => follows_exhausted hw.exhausted _

end

section
variable {excused : Halt → Prop} {limit limit' : Nat} {again again' : Production → ParseM Expr} {steps steps' : Nat}

theorem agrees_body (hw : Widens excused limit limit') (h : ∀ p, Agrees excused (again p) (again' p))
    (hs : steps ≤ steps') (p : Production) :
    Agrees excused (Read.body (.standard limit) again steps p) (Read.body (.standard limit') again' steps' p) :=
  follows_eq_iff.1 ((widening hw).body (fun q => follows_eq_iff.2 (h q)) hs p)

theorem agrees_grouping (hw : Widens excused limit limit') (h : ∀ p, Agrees excused (again p) (again' p))
    (allowList : Bool) (hs : steps ≤ steps') :
    Agrees excused (Read.grouping again allowList steps) (Read.grouping again' allowList steps') :=
  follows_eq_iff.1 ((widening hw).grouping (fun q => follows_eq_iff.2 (h q)) allowList hs)

theorem agrees_read (hw : Widens excused limit limit') (hs : steps ≤ steps') (p : Production) :
    Agrees excused (Production.read (.standard limit) steps p) (Production.read (.standard limit') steps' p) :=
  follows_eq_iff.1 ((widening hw).production hs p)

end

/-- Running a production is reading it in any number of steps from `Production.enough` on. -/
theorem read_eq_run {limit : Nat} {p : Production} {s : ParserState} (hp : p.rank = 1 → s.cursor.current.kind ≠ .eof)
    {steps : Nat} (hle : Production.enough (.standard limit) s ≤ steps) :
    p.read (.standard limit) steps s = p.run (.standard limit) s := by
  have hw : Widens (· = .exhausted) limit limit := ⟨Nat.le_refl _, rfl, fun hlt => absurd hlt (Nat.lt_irrefl _)⟩
  have hu : Settles (p.run (.standard limit) s) _ := uses_run (Rules.grounded_standard limit) hp
  change Settles (p.read (.standard limit) (Production.enough (.standard limit) s) s) _ at hu
  rcases agrees_read hw hle p s with ⟨halt, t, he, rfl⟩ | heq
  · rw [he] at hu
    exact hu.elim
  · exact heq

theorem run_eq_of_read {limit : Nat} {p : Production} {s : ParserState}
    {result : EStateM.Result Halt ParserState Expr} (hp : p.rank = 1 → s.cursor.current.kind ≠ .eof) {bound : Nat}
    (h : ∀ steps, bound ≤ steps → Production.read (.standard limit) steps p s = result) :
    p.run (.standard limit) s = result := by
  rw [← read_eq_run hp (Nat.le_max_left _ bound)]
  exact h _ (Nat.le_max_right _ bound)

/-! ## Whole streams -/

/-- The run was cut off: it used up its steps or its levels. -/
def Halt.CutsOff (halt : Halt) : Prop :=
  halt = .exhausted ∨ ∃ limit token, halt = .rejected ⟨.nestingTooDeep limit, token⟩

theorem widens_cutsOff {limit limit' : Nat} (hle : limit ≤ limit') : Widens Halt.CutsOff limit limit' where
  limit_le := hle
  exhausted := .inl rfl
  tooDeep _ token := .inr ⟨limit, token, rfl⟩

theorem enough_le_enough {limit limit' : Nat} (hle : limit ≤ limit') (s : ParserState) :
    Production.enough (.standard limit) s ≤ Production.enough (.standard limit') s := by
  have hlevels : limit - s.depth ≤ limit' - s.depth := Nat.sub_le_sub_right hle _
  unfold Production.enough
  show 8 * (s.cursor.ahead.length + (limit - s.depth) + 2) ≤ 8 * (s.cursor.ahead.length + (limit' - s.depth) + 2)
  omega

theorem agrees_wholeInput {excused : Halt → Prop} {limit limit' : Nat} (hw : Widens excused limit limit') :
    Agrees excused (wholeInput (.standard limit)) (wholeInput (.standard limit')) := by
  refine follows_eq_iff.1 ((widening hw).wholeInput ((widening hw).run _ ?_))
  rintro s _ rfl
  exact enough_le_enough hw.limit_le s

theorem settled_congr {α : Type} {Q Q' : α → ParserState → Prop} {r r' : EStateM.Result Halt ParserState α}
    (heq : r = r') (h : Settles r Q) (h' : Settles r' Q') : settled r h = settled r' h' := by
  subst heq
  match r, h, h' with
  | .ok _ _, _, _ => rfl
  | .error (.rejected _) _, _, _ => rfl
  | .error .exhausted _, h, _ => exact h.elim

/-- A larger limit gives the same tree or the same error, unless the smaller one cut the reading off. -/
theorem parseTokens_eq_of_limit_le {limit limit' : Nat} (hle : limit ≤ limit') {tokens : List Token}
    (h : ∀ n token, parseTokens limit tokens ≠ .error ⟨.nestingTooDeep n, token⟩) :
    parseTokens limit' tokens = parseTokens limit tokens := by
  rcases agrees_wholeInput (widens_cutsOff hle) (.ofTokens tokens) with ⟨halt, t, hrun, hcut⟩ | heq
  · rcases hcut with rfl | ⟨n, token, rfl⟩
    · have hsettles := settles_wholeInput limit (.ofTokens tokens)
      rw [hrun] at hsettles
      exact hsettles.elim
    · exact absurd (settled_eq_error_iff.2 ⟨t, hrun⟩) (h n token)
  · exact settled_congr heq _ _

/-- The tokens of `((x`: with two levels the letter is too deep, from three on it is not closed. -/
theorem parseTokens_eq_of_limit_le_unclosed :
    let tokens : List Token := [⟨.openParen, "(", .ofBytes 0 1⟩, ⟨.openParen, "(", .ofBytes 1 1⟩,
      ⟨.identifier, "x", .ofBytes 2 1⟩]
    let error : SyntaxError := ⟨.unmatchedDelimiter "(" ")" "EOF", .endOfInput (.ofOffset 3)⟩
    parseTokens 2 tokens = .error ⟨.nestingTooDeep 2, ⟨.identifier, "x", .ofBytes 2 1⟩⟩ ∧
      parseTokens 3 tokens = .error error ∧ parseTokens 64 tokens = .error error := by
  intro tokens error
  have hdeep : errorOf? (parseTokens 2 tokens) = some ⟨.nestingTooDeep 2, ⟨.identifier, "x", .ofBytes 2 1⟩⟩ := by
    decide +kernel
  have hopen : errorOf? (parseTokens 3 tokens) = some error := by decide +kernel
  rw [errorOf?_eq_some_iff] at hdeep hopen
  have hsame : parseTokens 64 tokens = parseTokens 3 tokens := by
    apply parseTokens_eq_of_limit_le (by decide)
    intro n token
    simp [hopen, error]
  exact ⟨hdeep, hopen, by rw [hsame, hopen]⟩

end TexFormula

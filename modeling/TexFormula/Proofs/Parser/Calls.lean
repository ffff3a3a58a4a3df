import TexFormula.Proofs.Parser.Loops

/-!
# No production is entered again before a token is passed

* `run_eq_body` : a production is read by its body with all others run in full, so the recursion needs no count;
* `Consults body again s call` : what the body does from `s` on depends on how the call ends; a run cannot set the
  outcome of a call aside, for a call that fails stops it;
* `Calls limit` : the calls that a production makes, each with the state it is made in;
* `Calls.lt` : a call goes to the tokens behind, or stays at the same token and goes down in rank;
* `Entered limit tokens` : the calls that are made when a stream is read, at any depth;
* `terminates_without_limit` : readings end after a number of steps that is fixed by the tokens alone.

The bounds on the number of steps know which calls a body can make: a call that is out of reach may be replaced by
one that uses up all steps, and the body does not notice. That errors are truthful knows where calls are made: a
call that would be outside of the stream may be replaced by one that fails with an error that is not.
-/

namespace TexFormula

open ParseM

/-! ## Running without a count -/

section
variable {limit : Nat}

/-- Running agrees with reading in any number of steps. -/
theorem agrees_run (steps : Nat) (p : Production) :
    Agrees (· = .exhausted) (p.read (.standard limit) steps) (p.run (.standard limit)) := by
  intro s
  show _ ∨ p.read (.standard limit) (Production.enough (.standard limit) s) s = _
  rcases Nat.le_total steps (Production.enough (.standard limit) s) with hle | hle
  · exact agrees_read (widens_exhausted limit) hle p s
  · rcases agrees_read (widens_exhausted limit) hle p s with ⟨halt, t, he, rfl⟩ | heq
    · have hsettles := settles_run (Rules.grounded_standard limit) p s
      change Settles (p.read (.standard limit) (Production.enough (.standard limit) s) s) _ at hsettles
      rw [he] at hsettles
      exact hsettles.elim
    · exact .inr heq.symm

theorem run_eq_body (p : Production) (s : ParserState) : p.run (.standard limit) s =
    Read.body (.standard limit) (fun q => q.run (.standard limit)) (Production.enough (.standard limit) s) p s := by
  obtain ⟨k, hk⟩ : ∃ k, Production.enough (.standard limit) s = k + 1 :=
    ⟨Production.enough (.standard limit) s - 1, by unfold Production.enough; omega⟩
  have hrun : p.run (.standard limit) s = Read.body (.standard limit) (Production.read (.standard limit) k) k p s := by
    show p.read (.standard limit) (Production.enough (.standard limit) s) s = _
    rw [hk]
    rfl
  rcases agrees_body (widens_exhausted limit) (agrees_run k) (Nat.le_succ k) p s with ⟨halt, t, he, rfl⟩ | heq
  · have hsettles := settles_run (Rules.grounded_standard limit) p s
    rw [hrun, he] at hsettles
    exact hsettles.elim
  · rw [hrun, hk, heq]

end

/-! ## Calls -/

/-- The given way to read productions, but for one call, which ends as told. -/
def overriding (again : Production → ParseM Expr) (call : Production × ParserState)
    (outcome : EStateM.Result Halt ParserState Expr) : Production → ParseM Expr :=
  fun p s => if (p, s) = call then outcome else again p s

/-- What the body does depends on how the call ends. -/
def Consults {α : Type} (body : (Production → ParseM Expr) → ParseM α) (again : Production → ParseM Expr)
    (s : ParserState) (call : Production × ParserState) : Prop :=
  ∃ outcome, body (overriding again call outcome) s ≠ body again s

/-- The first production, read from its state on, calls the second one in its state. -/
def Calls (limit : Nat) (caller call : Production × ParserState) : Prop :=
  Consults (fun again => Read.body (.standard limit) again (Production.enough (.standard limit) caller.2) caller.1)
    (fun q => q.run (.standard limit)) caller.2 call

def Entered (limit : Nat) (tokens : List Token) : Production × ParserState → Prop :=
  Relation.ReflTransGen (Calls limit) (.comparison, .ofTokens tokens)

section
variable {α : Type} {again : Production → ParseM Expr} {call : Production × ParserState}

theorem overriding_self (again : Production → ParseM Expr) (call : Production × ParserState) :
    overriding again call (again call.1 call.2) = again := by
  funext p s
  unfold overriding
  split
  · next h => rw [← h]
  · rfl

theorem overriding_of_ne {p : Production} {s : ParserState} (h : (p, s) ≠ call)
    (outcome : EStateM.Result Halt ParserState Expr) : overriding again call outcome p s = again p s := if_neg h

/-- Excused is running out of steps, and whatever the call is made to fail with. -/
def Halt.Planted (halt found : Halt) : Prop := found = .exhausted ∨ found = halt

theorem widens_planted (halt : Halt) (limit : Nat) : Widens halt.Planted limit limit :=
  ⟨Nat.le_refl _, .inl rfl, fun hlt => absurd hlt (Nat.lt_irrefl _)⟩

/-- However the call ends elsewhere, a call that fails agrees with it. -/
theorem agrees_overriding (halt : Halt) (outcome : EStateM.Result Halt ParserState Expr) (p : Production) :
    Agrees halt.Planted (overriding again call (.error halt call.2) p) (overriding again call outcome p) := by
  intro s
  unfold overriding
  split
  · exact .inl ⟨halt, call.2, rfl, .inr rfl⟩
  · exact .inr rfl

/-- A body that consults a call stops where the call is made to fail, if it does not run out of steps before. -/
theorem Consults.stops {f g : (Production → ParseM Expr) → ParseM α} {s : ParserState} (h : Consults f again s call)
    (halt : Halt) (hfg : ∀ again₁ again₂, (∀ p, Agrees halt.Planted (again₁ p) (again₂ p)) →
      Agrees halt.Planted (g again₁) (f again₂)) :
    ∃ found t, g (overriding again call (.error halt call.2)) s = .error found t ∧ halt.Planted found := by
  by_contra hno
  have heq (outcome : EStateM.Result Halt ParserState Expr) :
      f (overriding again call outcome) s = g (overriding again call (.error halt call.2)) s := by
    rcases hfg _ _ (agrees_overriding halt outcome) s with hstops | heq
    · exact absurd hstops hno
    · exact heq
  obtain ⟨outcome, hne⟩ := h
  have hself := heq (again call.1 call.2)
  rw [overriding_self] at hself
  exact hne ((heq outcome).trans hself.symm)

end

/-! ### Where calls are made -/

def Production.FitsAt (p : Production) (s : ParserState) : Prop :=
  p.rank = 1 → s.cursor.current.kind.production? = some p

theorem Production.FitsAt.ne_eof {p : Production} {s : ParserState} (h : p.FitsAt s) (hp : p.rank = 1) :
    s.cursor.current.kind ≠ .eof := by
  intro hk
  have hstarts := h hp
  rw [hk] at hstarts
  cases hstarts

section
variable {α : Type} {limit : Nat} {stream : List Token} {q : Production} {s t : ParserState}
  {f g : (Production → ParseM Expr) → ParseM α}

/-- A body that settles where its calls are within the reach of `n` steps makes no other calls. -/
theorem Consults.le {n : Nat} (h : Consults f (fun p => p.run (.standard limit)) s (q, t))
    (hagrees : ∀ again₁ again₂, (∀ p, Agrees (Halt.Planted .exhausted) (again₁ p) (again₂ p)) →
      Agrees (Halt.Planted .exhausted) (g again₁) (f again₂))
    (hsettles : ∀ again, Reaches n again → Settles (g again s) fun _ _ => True) :
    8 * t.remaining + q.rank ≤ n := by
  by_contra hle
  obtain ⟨found, u, heq, hfound⟩ := h.stops .exhausted hagrees
  have hreaches : Reaches n (overriding (fun p => p.run (.standard limit)) (q, t) (.error .exhausted t)) := by
    intro p v hp hn
    have hne : (p, v) ≠ (q, t) := by
      intro hcall
      obtain ⟨rfl, rfl⟩ := Prod.mk.inj hcall
      exact hle hn
    unfold Uses
    rw [overriding_of_ne hne]
    exact uses_run (Rules.grounded_standard limit) hp
  have hresult := hsettles _ hreaches
  rw [heq] at hresult
  rcases hfound with rfl | rfl
  · exact hresult
  · exact hresult

/-- An error about a limit that is not the one of the rules. -/
def untrue (limit : Nat) : SyntaxError := ⟨.nestingTooDeep (limit + 1), .endOfInput (.ofOffset 0)⟩

theorem not_truthful_untrue (limit : Nat) (stream : List Token) : ¬ (untrue limit).Truthful limit stream := by
  rintro ⟨before, after, -, -, hfits⟩
  exact absurd hfits (Nat.succ_ne_self limit)

/-- A body whose errors are truthful makes calls in the stream only, and those of rank 1 at their first tokens. -/
theorem Consults.stands {S : Setting} (h : Consults f (fun p => p.run (.standard S.limit)) s (q, t))
    (hagrees : ∀ again₁ again₂, (∀ p, Agrees (Halt.Planted (.rejected (untrue S.limit))) (again₁ p) (again₂ p)) →
      Agrees (Halt.Planted (.rejected (untrue S.limit))) (f again₁) (f again₂))
    (hsettles : ∀ again, (∀ n, Reaches n again) → Settles (f again s) fun _ _ => True)
    (hupholds : ∀ again again', Justifies S again again' → ∃ Q, Upholds S (f again) s Q) :
    t.cursor.Stands S.stream ∧ q.FitsAt t := by
  by_contra hno
  obtain ⟨found, u, heq, hfound⟩ := h.stops (.rejected (untrue S.limit)) hagrees
  rcases hfound with rfl | rfl
  · have hreaches (n : Nat) :
        Reaches n (overriding (fun p => p.run (.standard S.limit)) (q, t) (.error (.rejected (untrue S.limit)) t)) := by
      intro p v hp _
      unfold Uses overriding
      split
      · exact trivial
      · exact uses_run (Rules.grounded_standard S.limit) hp
    have hresult := hsettles _ hreaches
    rw [heq] at hresult
    exact hresult
  · have hcalls {p : Production} {v : ParserState} (hv : v.cursor.Stands S.stream) (hp : p.FitsAt v) :
        (p, v) ≠ (q, t) := by
      rintro ⟨rfl, rfl⟩
      exact hno ⟨hv, hp⟩
    have hjustifies : Justifies S
        (overriding (fun p => p.run (.standard S.limit)) (q, t) (.error (.rejected (untrue S.limit)) t))
        (Read.run (.standard S.limit)) :=
      { layer := fun hp hv => ((justifies_run S).layer hp hv).congr
          (overriding_of_ne (hcalls hv.stands fun hr => absurd hr hp) _) rfl
        way := fun hp hv => ((justifies_run S).way hp hv).congr
          (overriding_of_ne (hcalls hv.stands fun _ => hp) _) rfl }
    obtain ⟨Q, hresult⟩ := hupholds _ _ hjustifies
    exact not_truthful_untrue S.limit S.stream (hresult.of_rejected heq).truthful

/-- The setting of a state, with just as much room as there is. -/
def ParserState.setting (limit : Nat) (stream : List Token) (s : ParserState) : Setting :=
  ⟨limit, stream, s.depth + s.cursor.distance, .refusing, refuses_refusing stream⟩

theorem placed_setting (limit : Nat) (hs : s.cursor.Stands stream) : (s.setting limit stream).Placed 0 s :=
  ⟨hs, Nat.le_refl _⟩

end

section
variable {limit : Nat} {stream : List Token} {p q : Production} {s t : ParserState}

theorem le_enough (limit : Nat) (p : Production) (s : ParserState) :
    8 * s.remaining + p.rank ≤ Production.enough (.standard limit) s := by
  have hrank := rank_le p
  unfold Production.enough ParserState.remaining
  omega

/-- A production that would not come to an end without the call makes the call. -/
theorem calls_of_exhausted (h : Read.body (.standard limit)
    (overriding (fun r => r.run (.standard limit)) (q, t) (.error .exhausted t))
    (Production.enough (.standard limit) s) p s = .error .exhausted t) : Calls limit (p, s) (q, t) := by
  refine ⟨.error .exhausted t, fun heq => ?_⟩
  dsimp only at heq
  have hsettles := settles_run (Rules.grounded_standard limit) p s
  rw [run_eq_body, ← heq, h] at hsettles
  exact hsettles

/-- A call goes to the tokens behind, or stays at the same token and goes down in rank. -/
theorem Calls.lt (h : Calls limit (p, s) (q, t)) (hp : p.FitsAt s) :
    8 * t.remaining + q.rank < 8 * s.remaining + p.rank := by
  obtain ⟨n, hn⟩ : ∃ n, 8 * s.remaining + p.rank = n + 1 :=
    ⟨8 * s.remaining + p.rank - 1, by cases p <;> simp [Production.rank]⟩
  have hsteps : n ≤ Production.enough (.standard limit) s := by
    have hle := le_enough limit p s
    omega
  have hle := Consults.le (n := n) h (fun _ _ hagain => agrees_body (widens_planted _ limit) hagain hsteps p)
    fun again hagain => Settles.mono
      (hagain.reaches_body (Rules.grounded_standard limit) p s hp.ne_eof (Nat.le_of_eq hn)) fun _ _ _ => trivial
  omega

/-- Calls are made in the stream, and a way to read a primary at its first token. -/
theorem Calls.stands (h : Calls limit (p, s) (q, t)) (hs : s.cursor.Stands stream) (hp : p.FitsAt s) :
    t.cursor.Stands stream ∧ q.FitsAt t := by
  have hplaced := placed_setting limit hs
  refine Consults.stands (S := s.setting limit stream) h
    (fun _ _ hagain => agrees_body (widens_planted _ limit) hagain (Nat.le_refl _) p) (fun again hagain => ?_)
    fun again again' hagain => ?_
  swap
  · have hbody := hagain.justifies_body (Production.enough (.standard limit) s)
    by_cases hrank : p.rank = 1
    · exact ⟨_, (hbody.way (hp hrank) hplaced.succ).2⟩
    · exact ⟨_, (hbody.layer hrank hplaced).2⟩
  have hbody := (hagain _).reaches_body (Rules.grounded_standard limit) p s hp.ne_eof
    (Nat.le_succ_of_le (le_enough limit p s))
  exact Settles.mono hbody fun _ _ _ => trivial

theorem descends_of_transGen {caller call : Production × ParserState} (h : Relation.TransGen (Calls limit) caller call)
    (hs : caller.2.cursor.Stands stream) (hp : caller.1.FitsAt caller.2) :
    call.2.cursor.Stands stream ∧ call.1.FitsAt call.2 ∧
      8 * call.2.remaining + call.1.rank < 8 * caller.2.remaining + caller.1.rank := by
  induction h with
  | single hcall =>
    obtain ⟨ht, hq⟩ := hcall.stands hs hp
    exact ⟨ht, hq, hcall.lt hp⟩
  | tail _ hcall ih =>
    obtain ⟨ht, hq, hlt⟩ := ih
    obtain ⟨hu, hr⟩ := hcall.stands ht hq
    exact ⟨hu, hr, Nat.lt_trans (hcall.lt hq) hlt⟩

theorem Entered.stands {tokens : List Token} {call : Production × ParserState} (h : Entered limit tokens call) :
    call.2.cursor.Stands (closed tokens) ∧ call.1.FitsAt call.2 := by
  have hstart : (Cursor.ofTokens tokens).Stands (closed tokens) := by
    rw [← tokens_ofTokens]
    exact stands_ofTokens tokens
  rcases Relation.reflTransGen_iff_eq_or_transGen.1 h with rfl | hcalls
  · exact ⟨hstart, fun hrank => by cases hrank⟩
  · obtain ⟨hs, hp, -⟩ := descends_of_transGen hcalls hstart fun hrank => by cases hrank
    exact ⟨hs, hp⟩

theorem Cursor.Stands.index_add_distance {c : Cursor} (h : c.Stands stream) :
    c.index + c.distance = (beforeEnd stream).length := by
  rw [← h.tokens_eq, Cursor.tokens, List.append_assoc, beforeEnd_append, beforeEnd_append_end rfl,
    List.length_append, List.length_reverse]
  · rfl
  · exact fun token hmem => h.passed_ne token (List.mem_reverse.1 hmem)

theorem nearer_of_stands {c d : Cursor} (hc : c.Stands stream) (hd : d.Stands stream)
    (h : d.ahead.length < c.ahead.length) : c.Nearer d := by
  have htokens : d.tokens = c.tokens := hd.tokens_eq.trans hc.tokens_eq.symm
  have hlength := Cursor.index_add_length_ahead htokens
  have hsum := hc.index_add_distance
  have hsum' := hd.index_add_distance
  exact ⟨htokens, by omega, by omega⟩

/-- From the time a production is entered to the time it is entered again, a token was passed. -/
theorem nearer_of_reentered {tokens : List Token} (h : Entered limit tokens (p, s))
    (hcalls : Relation.TransGen (Calls limit) (p, s) (p, t)) : s.cursor.Nearer t.cursor := by
  obtain ⟨hs, hp⟩ := h.stands
  obtain ⟨ht, -, hlt⟩ := descends_of_transGen hcalls hs hp
  have hlt : 8 * t.cursor.ahead.length + p.rank < 8 * s.cursor.ahead.length + p.rank := hlt
  exact nearer_of_stands hs ht (by omega)

theorem nearer_of_grouping {allowList : Bool} (hs : s.cursor.Stands stream)
    (h : Consults (fun again => Read.grouping again allowList (Production.enough (.standard limit) s))
      (fun p => p.run (.standard limit)) s (q, t)) : s.cursor.Nearer t.cursor := by
  have hsteps : s.remaining ≤ Production.enough (.standard limit) s := by
    unfold Production.enough ParserState.remaining
    omega
  have hagrees (halt : Halt) (again₁ again₂ : Production → ParseM Expr)
      (hagain : ∀ p, Agrees halt.Planted (again₁ p) (again₂ p)) :
      Agrees halt.Planted (Read.grouping again₁ allowList (Production.enough (.standard limit) s))
        (Read.grouping again₂ allowList (Production.enough (.standard limit) s)) :=
    agrees_grouping (widens_planted halt limit) hagain allowList (Nat.le_refl _)
  have huses {n : Nat} {again : Production → ParseM Expr} (hagain : Reaches n again) (hn : 8 * s.remaining ≤ n) :
      Settles (Read.grouping again allowList (Production.enough (.standard limit) s) s) fun _ _ => True :=
    Settles.mono (hagain.uses_grouping allowList hsteps hn) fun _ _ _ => trivial
  have hle : 8 * t.remaining + q.rank ≤ 8 * s.remaining :=
    h.le (hagrees .exhausted) fun again hagain => huses hagain (Nat.le_refl _)
  have ht : t.cursor.Stands stream :=
    (Consults.stands (S := s.setting limit stream) h (hagrees _) (fun again hagain => huses (hagain _) (Nat.le_refl _))
      fun again again' hagain => ⟨_, (hagain.coincides_grouping allowList _ (placed_setting limit hs).succ).2⟩).1
  have hrank : 0 < q.rank := by cases q <;> decide
  exact nearer_of_stands hs ht (by unfold ParserState.remaining at hle; omega)

end

/-! ## Whole streams -/

theorem length_ahead_ofTokens_le (tokens : List Token) : (Cursor.ofTokens tokens).ahead.length ≤ tokens.length := by
  unfold Cursor.ofTokens
  split
  · exact Nat.zero_le _
  · split
    · exact tokens.length_dropLast ▸ Nat.sub_le _ _
    · exact Nat.le_refl _

/-- The number of steps that a stream takes is fixed by its tokens, whatever the limit is. -/
theorem read_eq_run_of_length_le (limit : Nat) (tokens : List Token) {steps : Nat}
    (h : 8 * (tokens.length + 1) ≤ steps) : Production.comparison.read (.standard limit) steps (.ofTokens tokens) =
      Production.comparison.run (.standard limit) (.ofTokens tokens) := by
  have hlength := length_ahead_ofTokens_le tokens
  have huses := reaches_read (Rules.grounded_standard limit) steps .comparison (.ofTokens tokens) (fun hr => by cases hr)
    (show 8 * (Cursor.ofTokens tokens).ahead.length + 8 ≤ steps by omega)
  rcases agrees_run steps .comparison (.ofTokens tokens) with ⟨halt, t, he, rfl⟩ | heq
  · unfold Uses at huses
    rw [he] at huses
    exact huses.elim
  · exact heq.symm

/--
Reading ends for every stream and every limit, after a number of steps that does not depend on the limit. Each loop
comes nearer to the end of the input with every turn after which it goes on; a production that is entered again
has passed a token since it was entered, and so have delimiters before they call anything.
-/
theorem terminates_without_limit (limit : Nat) (tokens : List Token) :
    (Settles (wholeInput (.standard limit) (.ofTokens tokens)) fun _ _ => True) ∧
    (∀ steps, 8 * (tokens.length + 1) ≤ steps → Production.comparison.read (.standard limit) steps (.ofTokens tokens) =
      Production.comparison.run (.standard limit) (.ofTokens tokens)) ∧
    (∀ steps, LoopsAdvance limit (Production.read (.standard limit) steps)) ∧
    (∀ p s t, Entered limit tokens (p, s) → Relation.TransGen (Calls limit) (p, s) (p, t) →
      s.cursor.Nearer t.cursor) ∧
    ∀ allowList s q t, s.cursor.Stands (closed tokens) →
      Consults (fun again => Read.grouping again allowList (Production.enough (.standard limit) s))
        (fun p => p.run (.standard limit)) s (q, t) → s.cursor.Nearer t.cursor := by
  refine ⟨settles_wholeInput limit _, fun steps => read_eq_run_of_length_le limit tokens, loopsAdvance_read limit, ?_, ?_⟩
  · exact fun p s t => nearer_of_reentered
  · exact fun allowList s q t => nearer_of_grouping

/--
The tokens of `\sin x`, with an end in the middle of the stream and none at its end: from the primary that is the
whole input, the parser comes to the one that is the argument.
-/
theorem terminates_without_limit_argument :
    let tokens : List Token := [⟨.sin, "\\sin", .ofBytes 0 4⟩, ⟨.identifier, "x", .ofBytes 5 1⟩,
      ⟨.eof, "EOF", .ofBytes 6 0⟩, ⟨.plus, "", .ofBytes 6 0⟩]
    let start := ParserState.ofTokens tokens
    let inner : ParserState := ⟨start.cursor.advance, 1, 0⟩
    Entered 2 tokens (.primary, start) ∧ Relation.TransGen (Calls 2) (.primary, start) (.primary, inner) ∧
      start.cursor.Nearer inner.cursor := by
  intro tokens start inner
  have hentered : Entered 2 tokens (.primary, start) := by
    have h₁ : Calls 2 (.comparison, start) (.expression, start) := calls_of_exhausted rfl
    have h₂ : Calls 2 (.expression, start) (.term, start) := calls_of_exhausted rfl
    have h₃ : Calls 2 (.term, start) (.factor, start) := calls_of_exhausted rfl
    have h₄ : Calls 2 (.factor, start) (.power, start) := calls_of_exhausted rfl
    have h₅ : Calls 2 (.power, start) (.subscript, start) := calls_of_exhausted rfl
    have h₆ : Calls 2 (.subscript, start) (.primary, start) := calls_of_exhausted rfl
    exact (((((Relation.ReflTransGen.single h₁).tail h₂).tail h₃).tail h₄).tail h₅).tail h₆
  have hcalls : Relation.TransGen (Calls 2) (.primary, start) (.primary, inner) := by
    have h₁ : Calls 2 (.primary, start) (.function, { start with depth := 1 }) := calls_of_exhausted rfl
    have h₂ : Calls 2 (.function, { start with depth := 1 }) (.primary, inner) := calls_of_exhausted rfl
    exact (Relation.TransGen.single h₁).tail h₂
  obtain ⟨-, -, -, hreentered, -⟩ := terminates_without_limit 2 tokens
  exact ⟨hentered, hcalls, hreentered .primary start inner hentered hcalls⟩

end TexFormula

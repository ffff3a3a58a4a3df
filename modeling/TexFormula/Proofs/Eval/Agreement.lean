import TexFormula.Proofs.Eval.Bindings

/-!
# Evaluation depends on the names that are mentioned

Two evaluations of a tree, from scopes that agree on the symbols of the tree, go side by side: whatever else the
scopes bind is neither read nor changed.

* `SideBySide` : two runs end in the same way and put the same questions to the engine;
* `Traverses.sideBySide` : runs from scopes that agree on the symbols they come to;
* `agreement_of_evaluate` : evaluations from scopes that agree on the symbols of the tree.
-/

namespace TexFormula

variable {V E α β : Type}

/-- The two runs, from what is given as held, end in the same way and put the same questions to the engine. -/
def SideBySide (held held' : EvalState V) (run run' : EStateM.Result (EvalError E) (EvalState V) α) : Prop :=
  outcome run = outcome run' ∧
    ∃ asked, (heldAfter run).calls = held.calls ++ asked ∧ (heldAfter run').calls = held'.calls ++ asked

theorem sideBySide_of_calls_eq {held held' final final' : EvalState V} (a : α) (h : final.calls = held.calls)
    (h' : final'.calls = held'.calls) :
    SideBySide held held' (.ok a final : EStateM.Result (EvalError E) (EvalState V) α) (.ok a final') :=
  ⟨rfl, [], h.trans (List.append_nil _).symm, h'.trans (List.append_nil _).symm⟩

theorem SideBySide.trans {held held' middle middle' : EvalState V} {a : α}
    {run run' : EStateM.Result (EvalError E) (EvalState V) β}
    (h : SideBySide held held' (.ok a middle : EStateM.Result (EvalError E) (EvalState V) α) (.ok a middle'))
    (h' : SideBySide middle middle' run run') : SideBySide held held' run run' := by
  obtain ⟨-, asked, hcalls, hcalls'⟩ := h
  obtain ⟨houtcome, asked', hmore, hmore'⟩ := h'
  refine ⟨houtcome, asked ++ asked', ?_, ?_⟩
  · rw [hmore, ← List.append_assoc]
    exact congrArg (· ++ asked') hcalls
  · rw [hmore', ← List.append_assoc]
    exact congrArg (· ++ asked') hcalls'

section
variable {engine : Engine V E} {attempts : EvalState V → List (Attempt V E)} {nodes : List Expr} {m : EvalM V E α}

theorem sideBySide_ask (question : EngineCall V) (answer : Except E V) (held held' : EvalState V) :
    SideBySide held held' (EvalM.ask question answer held) (EvalM.ask question answer held') := by
  cases answer with
  | ok value => exact ⟨rfl, [question], rfl, rfl⟩
  | error error => exact ⟨rfl, [question], rfl, rfl⟩

theorem sideBySide_resolve {name : String} {held held' : EvalState V}
    (h : held.scope.get? name = held'.scope.get? name) :
    SideBySide held held' (EvalM.resolve engine name held) (EvalM.resolve engine name held') := by
  cases hname : held.scope.get? name with
  | some value =>
    rw [resolve_of_bound hname, resolve_of_bound (h ▸ hname)]
    exact sideBySide_of_calls_eq value rfl rfl
  | none =>
    rw [resolve_of_unbound hname, resolve_of_unbound (h ▸ hname)]
    cases engine.constant name with
    | some value => exact ⟨rfl, [.constant name], rfl, rfl⟩
    | none => exact ⟨rfl, [.constant name], rfl, rfl⟩

theorem outcome_cases {run run' : EStateM.Result (EvalError E) (EvalState V) α} (h : outcome run = outcome run') :
    (∃ a held held', run = .ok a held ∧ run' = .ok a held') ∨
      ∃ error held held', run = .error error held ∧ run' = .error error held' := by
  cases run with
  | ok a held =>
    cases run' with
    | ok a' held' =>
      cases h
      exact .inl ⟨a, held, held', rfl, rfl⟩
    | error error' held' => cases h
  | error error held =>
    cases run' with
    | ok a' held' => cases h
    | error error' held' =>
      cases h
      exact .inr ⟨error, held, held', rfl, rfl⟩

/-- What a run binds is the same on both sides, so the scopes agree after it where they agreed before. -/
theorem Traverses.agree_after (h : Traverses engine attempts nodes m) {held held' : EvalState V}
    (hattempts : attempts held = attempts held') {name : String}
    (hname : held.scope.get? name = held'.scope.get? name) :
    (heldAfter (m held)).scope.get? name = (heldAfter (m held')).scope.get? name := by
  rw [h.scope_eq, h.scope_eq, Scope.get?_insertAll, Scope.get?_insertAll, hattempts, hname]

/-- From scopes that agree on the symbols it comes to, a run goes the same way and comes to the same assignments. -/
theorem Traverses.sideBySide (h : Traverses engine attempts nodes m) {held held' : EvalState V}
    (hagree : ∀ name, .symbol name ∈ nodes → held.scope.get? name = held'.scope.get? name) :
    SideBySide held held' (m held) (m held') ∧ attempts held = attempts held' := by
  induction h generalizing held held' with
  | done result => exact ⟨sideBySide_of_calls_eq result rfl rfl, rfl⟩
  | asked hnodes hanswer => exact ⟨sideBySide_ask _ _ held held', rfl⟩
  | resolved name => exact ⟨sideBySide_resolve (hagree name List.mem_cons_self), rfl⟩
  | @assigned attempts nodes m target value hm ih =>
    obtain ⟨hvalue, hattempts⟩ := ih fun name hname => hagree name (List.mem_append_left _ hname)
    refine ⟨?_, by beta_reduce; rw [hattempts, hvalue.1]⟩
    rcases outcome_cases hvalue.1 with ⟨result, middle, middle', hr, hr'⟩ | ⟨error, middle, middle', hr, hr'⟩
    · rw [hr, hr'] at hvalue
      rw [bind_of_ok hr, bind_of_ok hr']
      exact hvalue.trans (sideBySide_of_calls_eq result rfl rfl)
    · rw [hr, hr'] at hvalue
      rw [bind_of_error hr, bind_of_error hr']
      exact hvalue
  | @next α β attempts attempts' nodes nodes' m f hm hf ihm ihf =>
    obtain ⟨hfirst, hattempts⟩ := ihm fun name hname => hagree name (List.mem_append_left _ hname)
    beta_reduce
    rcases outcome_cases hfirst.1 with ⟨result, middle, middle', hr, hr'⟩ | ⟨error, middle, middle', hr, hr'⟩
    · -- The symbols that come later agree too: what was bound so far is the same on both sides.
      have hmiddle : ∀ name, .symbol name ∈ nodes' → middle.scope.get? name = middle'.scope.get? name := by
        intro name hname
        have hafter := hm.agree_after hattempts (hagree name (List.mem_append_right _ hname))
        rwa [hr, hr'] at hafter
      obtain ⟨hsecond, hattempts'⟩ := ihf result hmiddle
      rw [hr, hr'] at hfirst
      rw [bind_of_ok hr, bind_of_ok hr', hr, hr', hattempts]
      exact ⟨hfirst.trans hsecond, congrArg _ hattempts'⟩
    · rw [hr, hr'] at hfirst
      rw [bind_of_error hr, bind_of_error hr', hr, hr', hattempts]
      exact ⟨⟨rfl, hfirst.2⟩, rfl⟩

end

/-! ## Evaluations -/

/--
From two scopes that agree on the symbols of a tree, its evaluation has the same value or error, puts the same
questions to the engine in the same order and makes the same assignments. After it, the scopes agree on the symbols
of the tree and on all names that were assigned; every other name has in each scope the binding it had there.
-/
theorem agreement_of_evaluate (engine : Engine V E) (e : Expr) {held held' : EvalState V}
    (hagree : ∀ name, .symbol name ∈ e.nodes → held.scope.get? name = held'.scope.get? name) :
    let final := (heldAfter (e.evaluate engine held)).scope
    let final' := (heldAfter (e.evaluate engine held')).scope
    let assigned := (completed (e.attempts engine held)).map Prod.fst
    SideBySide held held' (e.evaluate engine held) (e.evaluate engine held') ∧
      e.attempts engine held = e.attempts engine held' ∧
      (∀ name, .symbol name ∈ e.nodes ∨ name ∈ assigned → final.get? name = final'.get? name) ∧
      ∀ name, name ∉ assigned →
        final.get? name = held.scope.get? name ∧ final'.get? name = held'.scope.get? name := by
  intro final final' assigned
  have hrun := traverses_evaluate engine e
  obtain ⟨hside, hattempts⟩ := hrun.sideBySide fun name hname => hagree name (Expr.mem_postOrder_iff.1 hname)
  have hfinal : final = held.scope.insertAll (completed (e.attempts engine held)) := hrun.scope_eq held
  have hfinal' : final' = held'.scope.insertAll (completed (e.attempts engine held)) := by
    rw [hattempts]
    exact hrun.scope_eq held'
  refine ⟨hside, hattempts, fun name hname => ?_, fun name hname => ?_⟩
  · rcases hname with hname | hname
    · exact hrun.agree_after hattempts (hagree name hname)
    · rw [hfinal, hfinal']
      exact Scope.get?_insertAll_congr _ _ hname
  · rw [hfinal, hfinal']
    exact ⟨Scope.get?_insertAll_of_notMem _ hname, Scope.get?_insertAll_of_notMem _ hname⟩

/-- Scopes that differ only in a name that is not mentioned, which keeps its two values while `x` is bound in both. -/
theorem agreement_of_evaluate_aside :
    let e := Expr.binary "add" (.assignment "x" (.symbol "y")) (.symbol "x") false
    let held : EvalState String := ⟨Scope.ofList [("y", "2"), ("z", "3")], []⟩
    let held' : EvalState String := ⟨Scope.ofList [("z", "4"), ("y", "2")], []⟩
    let final := (heldAfter (e.evaluate .nominal held)).scope
    let final' := (heldAfter (e.evaluate .nominal held')).scope
    (∀ name, .symbol name ∈ e.nodes → held.scope.get? name = held'.scope.get? name) ∧
      SideBySide held held' (e.evaluate .nominal held) (e.evaluate .nominal held') ∧
      final.get? "x" = final'.get? "x" ∧ final.get? "z" = some "3" ∧ final'.get? "z" = some "4" := by
  intro e held held' final final'
  have hagree : ∀ name, .symbol name ∈ e.nodes → held.scope.get? name = held'.scope.get? name := by
    intro name hname
    simp only [e, Expr.nodes, Expr.descendants, List.cons_append, List.nil_append, List.mem_cons, List.not_mem_nil,
      or_false, reduceCtorEq, false_or, Expr.symbol.injEq] at hname
    rcases hname with rfl | rfl <;> rfl
  obtain ⟨hside, -, hboth, hkept⟩ := agreement_of_evaluate .nominal e hagree
  have hassigned : (completed (e.attempts .nominal held)).map Prod.fst = ["x"] := rfl
  obtain ⟨hz, hz'⟩ := hkept "z" (by rw [hassigned]; decide)
  exact ⟨hagree, hside, hboth "x" (.inr (by rw [hassigned]; decide)), hz, hz'⟩

end TexFormula

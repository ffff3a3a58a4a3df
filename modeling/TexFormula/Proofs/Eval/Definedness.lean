import TexFormula.Proofs.Eval.Bindings

/-!
# Use before definition

With an engine that refuses nothing, an evaluation can only fail at a name that is used before it is defined, and
whether it does can be read off the tree.

* `Known` : names that a scope binds or that an engine has a constant for;
* `Resolved known nodes` : every symbol among the nodes, in their order, is known or assigned before it;
  `resolved_append` takes this apart;
* `FirstUnresolved known nodes name` : the first symbol that is not has this name;
* `Traverses.known_after` : after a run, a name is known if it was before or has been assigned;
* `Traverses.resolved_or_first` : what this says of the outcome of a run;
* `definedness_of_evaluate` : what it says of the outcome of an evaluation.
-/

namespace TexFormula

variable {V E α β : Type}

/-! ## Symbols and the assignments before them -/

/-- The scope binds the name or the engine has a constant for it. -/
def Known (engine : Engine V E) (scope : Scope V) (name : String) : Prop :=
  (scope.get? name).isSome ∨ (engine.constant name).isSome

/-- Every symbol among the nodes is known, or assigned by a node before it. -/
def Resolved (known : String → Prop) (nodes : List Expr) : Prop :=
  ∀ before name after, nodes = before ++ .symbol name :: after →
    known name ∨ ∃ value, .assignment name value ∈ before

/-- The first symbol among the nodes that is neither known nor assigned before it has the given name. -/
def FirstUnresolved (known : String → Prop) (nodes : List Expr) (name : String) : Prop :=
  ∃ before after, nodes = before ++ .symbol name :: after ∧ Resolved known before ∧
    ¬ known name ∧ ∀ value, .assignment name value ∉ before

section
variable {known : String → Prop} {nodes nodes' : List Expr} {name : String}

theorem FirstUnresolved.not_resolved (h : FirstUnresolved known nodes name) : ¬ Resolved known nodes := by
  obtain ⟨before, after, heq, -, hknown, hassigned⟩ := h
  intro hresolved
  rcases hresolved before name after heq with hknown' | ⟨value, hvalue⟩
  · exact hknown hknown'
  · exact hassigned value hvalue

theorem resolved_of_notMem (h : ∀ name, .symbol name ∉ nodes) : Resolved known nodes := by
  intro before name after heq
  refine absurd ?_ (h name)
  rw [heq]
  exact List.mem_append_right before List.mem_cons_self

theorem resolved_append : Resolved known (nodes ++ nodes') ↔
    Resolved known nodes ∧ Resolved (fun name => known name ∨ ∃ value, .assignment name value ∈ nodes) nodes' := by
  constructor
  · intro h
    refine ⟨fun before name after heq => ?_, fun before name after heq => ?_⟩
    · exact h before name (after ++ nodes') (by rw [heq, List.append_assoc, List.cons_append])
    · rcases h (nodes ++ before) name after (by rw [heq, List.append_assoc]) with hknown | ⟨value, hvalue⟩
      · exact .inl (.inl hknown)
      · rcases List.mem_append.1 hvalue with hvalue | hvalue
        · exact .inl (.inr ⟨value, hvalue⟩)
        · exact .inr ⟨value, hvalue⟩
  · rintro ⟨hfirst, hsecond⟩ before name after heq
    rcases List.append_eq_append_iff.1 heq with ⟨between, rfl, heq'⟩ | ⟨between, rfl, heq'⟩
    · rcases hsecond between name after heq' with (hknown | ⟨value, hvalue⟩) | ⟨value, hvalue⟩
      · exact .inl hknown
      · exact .inr ⟨value, List.mem_append_left _ hvalue⟩
      · exact .inr ⟨value, List.mem_append_right _ hvalue⟩
    · cases between with
      | nil =>
        rcases hsecond [] name after heq'.symm with (hknown | ⟨value, hvalue⟩) | ⟨value, hvalue⟩
        · exact .inl hknown
        · exact .inr ⟨value, List.append_nil before ▸ hvalue⟩
        · exact nomatch hvalue
      | cons node between =>
        cases heq'
        exact hfirst before name between rfl

theorem FirstUnresolved.append_left (h : FirstUnresolved known nodes name) :
    FirstUnresolved known (nodes ++ nodes') name := by
  obtain ⟨before, after, rfl, h⟩ := h
  exact ⟨before, after ++ nodes', by rw [List.append_assoc, List.cons_append], h⟩

theorem FirstUnresolved.append_right (hnodes : Resolved known nodes)
    (h : FirstUnresolved (fun name => known name ∨ ∃ value, .assignment name value ∈ nodes) nodes' name) :
    FirstUnresolved known (nodes ++ nodes') name := by
  obtain ⟨before, after, rfl, hbefore, hknown, hassigned⟩ := h
  refine ⟨nodes ++ before, after, (List.append_assoc _ _ _).symm, resolved_append.2 ⟨hnodes, hbefore⟩,
    fun h => hknown (.inl h), fun value hvalue => ?_⟩
  rcases List.mem_append.1 hvalue with hvalue | hvalue
  · exact hknown (.inr ⟨value, hvalue⟩)
  · exact hassigned value hvalue

end

/-! ## Runs -/

theorem targets_eq_of_completed {attempts : List (Attempt V E)}
    (h : ∀ attempt ∈ attempts, attempt.binding?.isSome = true) :
    (completed attempts).map Prod.fst = attempts.map Attempt.target := by
  induction attempts with
  | nil => rfl
  | cons attempt attempts ih =>
    obtain ⟨hattempt, hattempts⟩ := List.forall_mem_cons.1 h
    obtain ⟨target, _ | value⟩ := attempt
    · cases hattempt
    · exact congrArg (target :: ·) (ih hattempts)

theorem resolve_or_first (engine : Engine V E) (name : String) (held : EvalState V) :
    (∃ value held', EvalM.resolve engine name held = .ok value held' ∧
      Resolved (Known engine held.scope) [.symbol name]) ∨
      ∃ name' held', EvalM.resolve engine name held = .error (.undefinedSymbol name') held' ∧
        FirstUnresolved (Known engine held.scope) [.symbol name] name' := by
  have hresolved (hknown : Known engine held.scope name) : Resolved (Known engine held.scope) [.symbol name] := by
    intro before name' after heq
    obtain ⟨rfl, heq⟩ | ⟨_, _, hnil⟩ := List.cons_eq_append_iff.1 heq
    · cases heq
      exact .inl hknown
    · simp at hnil
  cases hname : held.scope.get? name with
  | some value =>
    exact .inl ⟨value, held, resolve_of_bound hname, hresolved (.inl (by rw [hname]; rfl))⟩
  | none =>
    rw [resolve_of_unbound hname]
    cases hconstant : engine.constant name with
    | some value => exact .inl ⟨value, _, rfl, hresolved (.inr (by rw [hconstant]; rfl))⟩
    | none =>
      have hunknown : ¬ Known engine held.scope name := by simp [Known, hname, hconstant]
      exact .inr ⟨name, _, rfl, [], [], rfl, resolved_of_notMem fun _ => List.not_mem_nil, hunknown,
        fun _ => List.not_mem_nil⟩

section
variable {engine : Engine V E} {attempts : EvalState V → List (Attempt V E)} {nodes : List Expr} {m : EvalM V E α}
  {held held' : EvalState V}

theorem Traverses.bound_before (h : Traverses engine attempts nodes m) {name : String}
    (hname : (heldAfter (m held)).scope.get? name = none) : held.scope.get? name = none := by
  rw [h.scope_eq, Scope.get?_insertAll, Option.or_eq_none_iff] at hname
  exact hname.2

/-- After a run that does not fail, a name is known if it was before or one of the nodes assigns it. -/
theorem Traverses.known_after (h : Traverses engine attempts nodes m) {result : α} (hr : m held = .ok result held') :
    Known engine held'.scope =
      fun name => Known engine held.scope name ∨ ∃ value, .assignment name value ∈ nodes := by
  funext name
  have hscope := h.scope_eq held
  rw [hr] at hscope
  have htargets := targets_eq_of_completed (h.isSome_binding? hr)
  rw [(h.sublist_targets held).2 result held' hr] at htargets
  have hassigned : name ∈ (completed (attempts held)).map Prod.fst ↔ ∃ value, .assignment name value ∈ nodes := by
    rw [htargets]
    exact mem_targets_iff
  unfold Known
  rw [show held'.scope = _ from hscope, Scope.isSome_get?_insertAll, hassigned]
  exact propext ⟨fun h => by tauto, fun h => by tauto⟩

/--
With an engine that refuses nothing, a run succeeds if every symbol is known or assigned before it, and else fails
at the first that is not.
-/
theorem Traverses.resolved_or_first (h : Traverses engine attempts nodes m) (hengine : engine.Unfailing)
    (held : EvalState V) :
    (∃ result held', m held = .ok result held' ∧ Resolved (Known engine held.scope) nodes) ∨
      ∃ name held', m held = .error (.undefinedSymbol name) held' ∧
        FirstUnresolved (Known engine held.scope) nodes name := by
  induction h generalizing held with
  | done result => exact .inl ⟨result, held, rfl, resolved_of_notMem fun _ => List.not_mem_nil⟩
  | asked hnodes hanswer =>
    obtain ⟨value, rfl⟩ := hanswer hengine
    exact .inl ⟨value, _, rfl, resolved_of_notMem fun name hname => nomatch hnodes _ hname⟩
  | resolved name => exact resolve_or_first engine name held
  | @assigned attempts nodes m target value hm ih =>
    have hlast (known : String → Prop) : Resolved known [.assignment target value] :=
      resolved_of_notMem fun name hname => nomatch List.mem_singleton.1 hname
    rcases ih held with ⟨result, held', hr, hresolved⟩ | ⟨name, held', hr, hfirst⟩
    · exact .inl ⟨_, _, bind_of_ok hr, resolved_append.2 ⟨hresolved, hlast _⟩⟩
    · exact .inr ⟨name, held', bind_of_error hr, hfirst.append_left⟩
  | @next α β attempts attempts' nodes nodes' m f hm hf ihm ihf =>
    rcases ihm held with ⟨result, held', hr, hresolved⟩ | ⟨name, held', hr, hfirst⟩
    · rcases ihf result held' with ⟨result', held'', hr', hresolved'⟩ | ⟨name, held'', hr', hfirst⟩
      · rw [hm.known_after hr] at hresolved'
        exact .inl ⟨result', held'', (bind_of_ok hr).trans hr', resolved_append.2 ⟨hresolved, hresolved'⟩⟩
      · rw [hm.known_after hr] at hfirst
        exact .inr ⟨name, held'', (bind_of_ok hr).trans hr', .append_right hresolved hfirst⟩
    · exact .inr ⟨name, held', bind_of_error hr, hfirst.append_left⟩

theorem Traverses.undefined (h : Traverses engine attempts nodes m) {name : String}
    (hr : m held = .error (.undefinedSymbol name) held') :
    .symbol name ∈ nodes ∧ held'.scope.get? name = none ∧ engine.constant name = none := by
  induction h generalizing held with
  | done result => cases hr
  | @asked nodes question answer hnodes hanswer =>
    cases answer with
    | ok value => cases hr
    | error error => cases hr
  | resolved name' =>
    cases hname : held.scope.get? name' with
    | some value => cases (resolve_of_bound hname).symm.trans hr
    | none =>
      rw [resolve_of_unbound hname] at hr
      cases hconstant : engine.constant name' with
      | some value => rw [hconstant] at hr; cases hr
      | none =>
        rw [hconstant] at hr
        cases hr
        exact ⟨List.mem_cons_self, hname, hconstant⟩
  | @assigned attempts nodes m target value hm ih =>
    cases hvalue : m held with
    | ok result middle => cases (bind_of_ok hvalue).symm.trans hr
    | error error middle =>
      cases (bind_of_error hvalue).symm.trans hr
      obtain ⟨hmem, hundefined⟩ := ih hvalue
      exact ⟨List.mem_append_left _ hmem, hundefined⟩
  | @next α β attempts attempts' nodes nodes' m f hm hf ihm ihf =>
    cases hfirst : m held with
    | ok result middle =>
      obtain ⟨hmem, hundefined⟩ := ihf result ((bind_of_ok hfirst).symm.trans hr)
      exact ⟨List.mem_append_right _ hmem, hundefined⟩
    | error error middle =>
      cases (bind_of_error hfirst).symm.trans hr
      obtain ⟨hmem, hundefined⟩ := ihm hfirst
      exact ⟨List.mem_append_left _ hmem, hundefined⟩

end

/-! ## Evaluations -/

/--
With an engine that refuses nothing, a tree has a value exactly if each of its symbols, in post-order, is bound in
the scope, a constant of the engine, or the target of an assignment before it. Otherwise the first symbol that is
none of these is reported as undefined. With any engine, a symbol that is reported as undefined stands in the tree,
is bound neither before nor after the evaluation, and is no constant of the engine.
-/
theorem definedness_of_evaluate (engine : Engine V E) (e : Expr) (held : EvalState V) :
    (engine.Unfailing →
      ((∃ value held', e.evaluate engine held = .ok value held') ↔
        Resolved (Known engine held.scope) e.postOrder) ∧
      (¬ Resolved (Known engine held.scope) e.postOrder →
        ∃ name held', e.evaluate engine held = .error (.undefinedSymbol name) held' ∧
          FirstUnresolved (Known engine held.scope) e.postOrder name)) ∧
    ∀ name held', e.evaluate engine held = .error (.undefinedSymbol name) held' →
      .symbol name ∈ e.nodes ∧ held.scope.get? name = none ∧ held'.scope.get? name = none ∧
        engine.constant name = none := by
  have hrun := traverses_evaluate engine e
  refine ⟨fun hengine => ?_, fun name held' hr => ?_⟩
  · rcases hrun.resolved_or_first hengine held with ⟨value, held', hr, hresolved⟩ | ⟨name, held', hr, hfirst⟩
    · exact ⟨⟨fun _ => hresolved, fun _ => ⟨value, held', hr⟩⟩, fun hnot => absurd hresolved hnot⟩
    · refine ⟨⟨fun ⟨value, held₁, hok⟩ => ?_, fun hresolved => absurd hresolved hfirst.not_resolved⟩,
        fun _ => ⟨name, held', hr, hfirst⟩⟩
      cases hr.symm.trans hok
  · obtain ⟨hmem, hafter, hconstant⟩ := hrun.undefined hr
    exact ⟨Expr.mem_postOrder_iff.1 hmem, hrun.bound_before (by rw [hr]; exact hafter), hafter, hconstant⟩

/-- In `x := x + 1` the symbol comes before the assignment, so that it has to be bound already. -/
theorem definedness_of_evaluate_own_value :
    let e := Expr.assignment "x" (.binary "add" (.symbol "x") (.number "1") false)
    Engine.nominal.Unfailing ∧ ∃ name held', e.evaluate .nominal ⟨{}, []⟩ = .error (.undefinedSymbol name) held' ∧
      FirstUnresolved (Known Engine.nominal {}) e.postOrder name := by
  intro e
  have hx : ¬ Resolved (Known Engine.nominal {}) e.postOrder := by
    intro h
    rcases h [] "x" _ rfl with hknown | ⟨value, hvalue⟩
    · rcases hknown with h | h <;> cases h
    · exact nomatch hvalue
  exact ⟨Engine.unfailing_nominal, ((definedness_of_evaluate .nominal e ⟨{}, []⟩).1 Engine.unfailing_nominal).2 hx⟩

end TexFormula

import TexFormula.Proofs.Eval.Traversal

/-!
# What an evaluation binds

An evaluation touches its scope through the assignments it completes and in no other way, also when it fails.

* `Scope.insertAll` : a scope overwritten by bindings, one after the other; `Scope.get?_insertAll` is what it then
  gives;
* `completed` : the bindings made by the assignments whose value was evaluated;
* `Traverses.scope_eq` : a run overwrites its scope with these bindings;
* `Traverses.pairwise_attempts` : once the value of an assignment fails, no later assignment is completed;
* `Traverses.sublist_targets` : the assignments come in post-order;
* `bindings_of_evaluate` : all of this for the evaluation of a tree.
-/

namespace TexFormula

variable {V E α β : Type}

/-! ## Overwriting a scope -/

namespace Scope

/-- Binds names one after the other; a later binding of a name replaces an earlier one. -/
def insertAll (scope : Scope V) (entries : List (String × V)) : Scope V :=
  entries.foldl (fun scope entry => scope.insert entry.1 entry.2) scope

theorem insertAll_append (scope : Scope V) (entries entries' : List (String × V)) :
    scope.insertAll (entries ++ entries') = (scope.insertAll entries).insertAll entries' := List.foldl_append

/-- A name is bound to the last value it was given, or else to what it was bound to before. -/
theorem get?_insertAll (scope : Scope V) (entries : List (String × V)) (name : String) :
    (scope.insertAll entries).get? name = (entries.reverse.lookup name).or (scope.get? name) := by
  induction entries generalizing scope with
  | nil => rfl
  | cons entry entries ih =>
    have hstep : scope.insertAll (entry :: entries) = (scope.insert entry.1 entry.2).insertAll entries := rfl
    rw [hstep, ih, get?_insert, List.reverse_cons, List.lookup_append, Option.or_assoc, lookup_cons]
    by_cases h : name = entry.1 <;> simp [h]

theorem isSome_lookup_reverse {entries : List (String × V)} {name : String} :
    (entries.reverse.lookup name).isSome ↔ name ∈ entries.map Prod.fst := by
  rw [List.lookup_isSome_iff, List.mem_map]
  constructor
  · rintro ⟨entry, hentry, heq⟩
    exact ⟨entry, List.mem_reverse.1 hentry, (beq_iff_eq.1 heq).symm⟩
  · rintro ⟨entry, hentry, rfl⟩
    exact ⟨entry, List.mem_reverse.2 hentry, BEq.rfl⟩

theorem isSome_get?_insertAll (scope : Scope V) {entries : List (String × V)} {name : String} :
    ((scope.insertAll entries).get? name).isSome ↔ name ∈ entries.map Prod.fst ∨ (scope.get? name).isSome := by
  rw [get?_insertAll, Option.isSome_or, Bool.or_eq_true, isSome_lookup_reverse]

theorem get?_insertAll_of_notMem (scope : Scope V) {entries : List (String × V)} {name : String}
    (h : name ∉ entries.map Prod.fst) : (scope.insertAll entries).get? name = scope.get? name := by
  rw [← isSome_lookup_reverse, Option.not_isSome_iff_eq_none] at h
  rw [get?_insertAll, h, Option.none_or]

theorem get?_insertAll_congr (scope scope' : Scope V) {entries : List (String × V)} {name : String}
    (h : name ∈ entries.map Prod.fst) : (scope.insertAll entries).get? name = (scope'.insertAll entries).get? name := by
  obtain ⟨value, hvalue⟩ := Option.isSome_iff_exists.1 (isSome_lookup_reverse.2 h)
  rw [get?_insertAll, get?_insertAll, hvalue, Option.some_or, Option.some_or]

end Scope

/-! ## Completed assignments -/

/-- What an assignment binds, if its value was evaluated. -/
def Attempt.binding? : Attempt V E → Option (String × V)
  | ⟨target, .ok value⟩ => some (target, value)
  | ⟨_, .error _⟩ => none

def completed (attempts : List (Attempt V E)) : List (String × V) := attempts.filterMap Attempt.binding?

theorem completed_append (attempts attempts' : List (Attempt V E)) :
    completed (attempts ++ attempts') = completed attempts ++ completed attempts' := List.filterMap_append

theorem mem_targets_of_completed {attempts : List (Attempt V E)} {name : String}
    (h : name ∈ (completed attempts).map Prod.fst) : name ∈ attempts.map Attempt.target := by
  obtain ⟨binding, hbinding, rfl⟩ := List.mem_map.1 h
  obtain ⟨⟨target, _ | value⟩, hmem, heq⟩ := List.mem_filterMap.1 hbinding
  · cases heq
  · cases heq
    exact List.mem_map_of_mem hmem

def Expr.target? : Expr → Option String
  | .assignment target _ => some target
  | _ => none

theorem mem_targets_iff {nodes : List Expr} {name : String} :
    name ∈ nodes.filterMap Expr.target? ↔ ∃ value, .assignment name value ∈ nodes := by
  rw [List.mem_filterMap]
  constructor
  · rintro ⟨node, hnode, htarget⟩
    cases node <;> cases htarget
    exact ⟨_, hnode⟩
  · rintro ⟨value, hnode⟩
    exact ⟨_, hnode, rfl⟩

theorem filterMap_target?_of_nameless {nodes : List Expr} (h : ∀ node ∈ nodes, node.isNameless = true) :
    nodes.filterMap Expr.target? = [] := by
  refine List.filterMap_eq_nil_iff.2 fun node hnode => ?_
  have hnameless := h node hnode
  cases node with
  | symbol | assignment => cases hnameless
  | _ => rfl

/-! ## Runs -/

theorem scope_ask (question : EngineCall V) (answer : Except E V) (held : EvalState V) :
    (heldAfter (EvalM.ask question answer held)).scope = held.scope := by
  cases answer <;> rfl

theorem scope_resolve (engine : Engine V E) (name : String) (held : EvalState V) :
    (heldAfter (EvalM.resolve engine name held)).scope = held.scope := by
  cases hname : held.scope.get? name with
  | some value => rw [resolve_of_bound hname, heldAfter]
  | none =>
    rw [resolve_of_unbound hname]
    cases engine.constant name <;> rfl

section
variable {engine : Engine V E} {attempts : EvalState V → List (Attempt V E)} {nodes : List Expr} {m : EvalM V E α}

/-- A run overwrites its scope with what its completed assignments bind. -/
theorem Traverses.scope_eq (h : Traverses engine attempts nodes m) (held : EvalState V) :
    (heldAfter (m held)).scope = held.scope.insertAll (completed (attempts held)) := by
  induction h generalizing held with
  | done result => rfl
  | asked hnodes hanswer => exact scope_ask _ _ held
  | resolved name => exact scope_resolve engine name held
  | @assigned attempts nodes m target value hm ih =>
    -- The scope after the value is the one that the target is bound in, if it has a value.
    rw [completed_append, Scope.insertAll_append, ← ih held]
    cases hr : m held with
    | ok result held' =>
      rw [bind_of_ok hr]
      rfl
    | error error held' =>
      rw [bind_of_error hr]
      rfl
  | @next α β attempts attempts' nodes nodes' m f hm hf ihm ihf =>
    rw [completed_append, Scope.insertAll_append, ← ihm held]
    cases hr : m held with
    | ok result held' =>
      rw [bind_of_ok hr]
      exact ihf result held'
    | error error held' =>
      rw [bind_of_error hr]
      rfl

theorem Traverses.isSome_binding? (h : Traverses engine attempts nodes m) {held held' : EvalState V} {result : α}
    (hr : m held = .ok result held') : ∀ attempt ∈ attempts held, attempt.binding?.isSome = true := by
  induction h generalizing held held' with
  | done | asked | resolved => exact List.forall_mem_nil _
  | @assigned attempts nodes m target value hm ih =>
    cases hm' : m held with
    | ok value held₁ =>
      beta_reduce
      rw [hm']
      exact List.forall_mem_append.2 ⟨ih hm', List.forall_mem_singleton.2 rfl⟩
    | error error held₁ => cases (bind_of_error hm').symm.trans hr
  | @next α β attempts attempts' nodes nodes' m f hm hf ihm ihf =>
    cases hm' : m held with
    | ok value held₁ =>
      beta_reduce
      rw [hm']
      exact List.forall_mem_append.2 ⟨ihm hm', ihf value ((bind_of_ok hm').symm.trans hr)⟩
    | error error held₁ => cases (bind_of_error hm').symm.trans hr

theorem Traverses.binding?_ne_none (h : Traverses engine attempts nodes m) {held held' : EvalState V} {result : α}
    (hr : m held = .ok result held') {attempt : Attempt V E} (hattempt : attempt ∈ attempts held) :
    attempt.binding? ≠ none :=
  Option.isSome_iff_ne_none.1 (h.isSome_binding? hr attempt hattempt)

/-- Once the value of an assignment fails, no later assignment is completed. -/
theorem Traverses.pairwise_attempts (h : Traverses engine attempts nodes m) (held : EvalState V) :
    (attempts held).Pairwise fun first second => first.binding? = none → second.binding? = none := by
  induction h generalizing held with
  | done | asked | resolved => exact .nil
  | @assigned attempts nodes m target value hm ih =>
    refine List.pairwise_append.2 ⟨ih held, List.pairwise_singleton _ _, fun first hfirst second hsecond hnone => ?_⟩
    obtain rfl := List.mem_singleton.1 hsecond
    cases hr : m held with
    | ok result held' => exact absurd hnone (hm.binding?_ne_none hr hfirst)
    | error error held' => rfl
  | @next α β attempts attempts' nodes nodes' m f hm hf ihm ihf =>
    cases hr : m held with
    | ok result held' =>
      beta_reduce
      rw [hr]
      exact List.pairwise_append.2 ⟨ihm held, ihf result held',
        fun first hfirst _ _ hnone => absurd hnone (hm.binding?_ne_none hr hfirst)⟩
    | error error held' =>
      beta_reduce
      rw [hr, onSuccess, List.append_nil]
      exact ihm held

/-- The assignments come in the order of their nodes, and all of them if nothing fails. -/
theorem Traverses.sublist_targets (h : Traverses engine attempts nodes m) (held : EvalState V) :
    ((attempts held).map Attempt.target).Sublist (nodes.filterMap Expr.target?) ∧
      ∀ result held', m held = .ok result held' →
        (attempts held).map Attempt.target = nodes.filterMap Expr.target? := by
  induction h generalizing held with
  | done | resolved => exact ⟨.slnil, fun _ _ _ => rfl⟩
  | asked hnodes hanswer =>
    rw [filterMap_target?_of_nameless hnodes]
    exact ⟨.slnil, fun _ _ _ => rfl⟩
  | @assigned attempts nodes m target value hm ih =>
    obtain ⟨hsub, heq⟩ := ih held
    rw [List.map_append, List.filterMap_append]
    refine ⟨hsub.append (.refl _), fun result held' hr => ?_⟩
    cases hm' : m held with
    | ok value held₁ => rw [heq _ _ hm']; rfl
    | error error held₁ => cases (bind_of_error hm').symm.trans hr
  | @next α β attempts attempts' nodes nodes' m f hm hf ihm ihf =>
    obtain ⟨hsub, heq⟩ := ihm held
    rw [List.map_append, List.filterMap_append]
    cases hm' : m held with
    | ok value held₁ =>
      obtain ⟨hsub', heq'⟩ := ihf value held₁
      refine ⟨hsub.append hsub', fun result held' hr => ?_⟩
      rw [heq _ _ hm', onSuccess, heq' _ _ ((bind_of_ok hm').symm.trans hr)]
    | error error held₁ =>
      refine ⟨hsub.append (List.nil_sublist _), fun result held' hr => ?_⟩
      cases (bind_of_error hm').symm.trans hr

end

/-! ## Evaluations -/

theorem completed_eq_nil_of_failure {before after : List (Attempt V E)} {target : String} {error : EvalError E}
    (h : (before ++ ⟨target, .error error⟩ :: after).Pairwise fun first second =>
      first.binding? = none → second.binding? = none) : completed (⟨target, .error error⟩ :: after) = [] := by
  obtain ⟨-, hfailed, -⟩ := List.pairwise_append.1 h
  refine List.filterMap_eq_nil_iff.2 (List.forall_mem_cons.2 ⟨rfl, fun attempt hattempt => ?_⟩)
  exact (List.pairwise_cons.1 hfailed).1 attempt hattempt rfl

/--
After an evaluation, whether it has a value or fails, the scope is what it was, overwritten in order by the
assignments whose value was evaluated. These assignments come in post-order, and are all there are if nothing fails.
A name is bound to what it was last assigned, or else as before: a name that was bound stays bound, one that the
tree does not assign keeps its binding or absence, and an assignment whose value fails leaves its target as the
assignments before the failure left it.
-/
theorem bindings_of_evaluate (engine : Engine V E) (e : Expr) (held : EvalState V) :
    let attempts := e.attempts engine held
    let final := (heldAfter (e.evaluate engine held)).scope
    final = held.scope.insertAll (completed attempts) ∧
      (attempts.map Attempt.target).Sublist (e.postOrder.filterMap Expr.target?) ∧
      (∀ value, outcome (e.evaluate engine held) = .ok value →
        attempts.map Attempt.target = e.postOrder.filterMap Expr.target?) ∧
      (∀ name, final.get? name = ((completed attempts).reverse.lookup name).or (held.scope.get? name)) ∧
      (∀ name, (held.scope.get? name).isSome → (final.get? name).isSome) ∧
      (∀ name, (∀ value, .assignment name value ∉ e.nodes) → final.get? name = held.scope.get? name) ∧
      ∀ before target error after, attempts = before ++ ⟨target, .error error⟩ :: after →
        final = held.scope.insertAll (completed before) := by
  intro attempts final
  have hrun := traverses_evaluate engine e
  have hscope : final = held.scope.insertAll (completed attempts) := hrun.scope_eq held
  obtain ⟨hsub, hall⟩ := hrun.sublist_targets held
  refine ⟨hscope, hsub, fun value hvalue => ?_, fun name => ?_, fun name hname => ?_, fun name hname => ?_, ?_⟩
  · cases hr : e.evaluate engine held with
    | ok result held' => exact hall result held' hr
    | error error held' =>
      rw [hr] at hvalue
      cases hvalue
  · rw [hscope, Scope.get?_insertAll]
  · rw [hscope]
    exact (Scope.isSome_get?_insertAll _).2 (.inr hname)
  · rw [hscope]
    refine Scope.get?_insertAll_of_notMem _ fun hmem => ?_
    have htarget := hsub.subset (mem_targets_of_completed hmem)
    obtain ⟨value, hvalue⟩ := mem_targets_iff.1 htarget
    exact hname value (Expr.mem_postOrder_iff.1 hvalue)
  · intro before target error after heq
    have hpairwise := hrun.pairwise_attempts held
    rw [show e.attempts engine held = _ from heq] at hpairwise
    rw [hscope, heq, completed_append, completed_eq_nil_of_failure hpairwise, List.append_nil]

/-- The value of `y` fails after it has bound `x`: `x` is bound and `y` is what it was. -/
theorem bindings_of_evaluate_inside :
    let e := Expr.assignment "y" (.binary "add" (.assignment "x" (.number "1")) (.symbol "q") false)
    let held : EvalState String := ⟨Scope.ofList [("y", "2")], []⟩
    e.attempts .nominal held = [⟨"x", .ok "1"⟩, ⟨"y", .error (.undefinedSymbol "q")⟩] ∧
      (heldAfter (e.evaluate .nominal held)).scope = (Scope.ofList [("y", "2")]).insertAll [("x", "1")] := by
  intro e held
  have h : e.attempts .nominal held = [⟨"x", .ok "1"⟩] ++ ⟨"y", .error (.undefinedSymbol "q")⟩ :: [] := rfl
  obtain ⟨-, -, -, -, -, -, hfailure⟩ := bindings_of_evaluate .nominal e held
  exact ⟨h, hfailure _ _ _ _ h⟩

end TexFormula

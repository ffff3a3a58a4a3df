import TexFormula.Proofs.Eval.PostOrder
import TexFormula.Proofs.Expr.Nodes

/-!
# What an evaluation is made of

Whatever a tree is, its evaluation is a sequence of a few sorts of steps. `Traverses` lists them once, with the
nodes they are for and the assignments they come to, and `traverses_evaluate` puts the evaluation of every tree
together from them. What holds of all evaluations is then proved by induction over these steps.

* `Expr.postOrder` : the nodes of a tree from left to right, each after the nodes below it;
* `outcome`, `heldAfter`, `onSuccess` : how a run ends, what it leaves behind, and what comes after it;
* `Attempt`, `Expr.attempts` : the assignments that an evaluation comes to, each with the outcome of its value;
* `Traverses` : the steps of a run;
* `traverses_evaluate` : an evaluation comes to the nodes of its tree in post-order.
-/

namespace TexFormula

/-! ## The nodes in post-order -/

mutual

/-- The nodes of a tree from left to right, each after the nodes below it. -/
def Expr.postOrder : Expr → List Expr
  | .number text => [.number text]
  | .symbol name => [.symbol name]
  | .unary operator operand => operand.postOrder ++ [.unary operator operand]
  | .binary operator left right implicit =>
    left.postOrder ++ (right.postOrder ++ [.binary operator left right implicit])
  | .comparison operator left right => left.postOrder ++ (right.postOrder ++ [.comparison operator left right])
  | .call name arguments => Expr.postOrderOfList arguments ++ [.call name arguments]
  | .matrix rows => Row.postOrderOfList rows ++ [.matrix rows]
  | .accessor object index => object.postOrder ++ (Expr.postOrderOfList index ++ [.accessor object index])
  | .transpose operand => operand.postOrder ++ [.transpose operand]
  | .assignment target value => value.postOrder ++ [.assignment target value]
  | .boolean value => [.boolean value]
  | .undefined => [.undefined]

def Expr.postOrderOfList : List Expr → List Expr
  | [] => []
  | e :: es => e.postOrder ++ Expr.postOrderOfList es

def Row.postOrder : Row → List Expr
  | .element entry => entry.postOrder
  | .elements entries => Expr.postOrderOfList entries

def Row.postOrderOfList : List Row → List Expr
  | [] => []
  | row :: rows => row.postOrder ++ Row.postOrderOfList rows

end

theorem Expr.postOrderOfList_eq_flatMap (es : List Expr) : postOrderOfList es = es.flatMap postOrder := by
  induction es with
  | nil => rfl
  | cons e es ih => rw [postOrderOfList, ih, List.flatMap_cons]

theorem Row.postOrderOfList_eq_flatMap (rows : List Row) : postOrderOfList rows = rows.flatMap postOrder := by
  induction rows with
  | nil => rfl
  | cons row rows ih => rw [postOrderOfList, ih, List.flatMap_cons]

theorem Row.postOrder_eq_flatMap (row : Row) : row.postOrder = row.entries.flatMap Expr.postOrder := by
  cases row with
  | element entry => rw [postOrder, entries, List.flatMap_singleton]
  | elements entries => rw [postOrder, Expr.postOrderOfList_eq_flatMap, Row.entries]

theorem Expr.postOrder_eq (e : Expr) : e.postOrder = e.children.flatMap postOrder ++ [e] := by
  cases e <;> simp [postOrder, children, postOrderOfList_eq_flatMap, Row.postOrderOfList_eq_flatMap, List.flatMap_assoc]
  case matrix rows => exact List.flatMap_congr fun row _ => row.postOrder_eq_flatMap

/-- In post-order or not, the nodes are the same. -/
theorem Expr.mem_postOrder_iff {e node : Expr} : node ∈ e.postOrder ↔ node ∈ e.nodes := by
  induction e using induction_on_children with
  | h e ih =>
    rw [postOrder_eq, nodes_eq, List.mem_append, List.mem_singleton, List.mem_cons, List.mem_flatMap,
      List.mem_flatMap, or_comm]
    exact or_congr_right (exists_congr fun child => and_congr_right fun hchild => ih child hchild)

/-- A node that neither reads a name nor binds one. -/
def Expr.isNameless : Expr → Bool
  | .symbol _ | .assignment _ _ => false
  | _ => true

/-! ## Runs -/

section
variable {V E α β : Type}

def outcome : EStateM.Result (EvalError E) (EvalState V) α → Except (EvalError E) α
  | .ok result _ => .ok result
  | .error error _ => .error error

def heldAfter : EStateM.Result (EvalError E) (EvalState V) α → EvalState V
  | .ok _ held => held
  | .error _ held => held

def onSuccess {γ : Type} (run : EStateM.Result (EvalError E) (EvalState V) α) (next : α → EvalState V → List γ) :
    List γ :=
  match run with
  | .ok result held => next result held
  | .error _ _ => []

theorem onSuccess_nil {γ : Type} (run : EStateM.Result (EvalError E) (EvalState V) α) :
    (onSuccess run fun _ _ => ([] : List γ)) = [] := by
  cases run <;> rfl

section
variable {m : EvalM V E α} {f : α → EvalM V E β} {held held' : EvalState V}

theorem bind_of_ok {result : α} (h : m held = .ok result held') : (m >>= f) held = f result held' := by
  change EStateM.bind m f held = _
  rw [EStateM.bind, h]

theorem bind_of_error {error : EvalError E} (h : m held = .error error held') :
    (m >>= f) held = .error error held' := by
  change EStateM.bind m f held = _
  rw [EStateM.bind, h]

end

/-! ## Assignments -/

/-- An assignment that an evaluation came to: its target, and how the evaluation of its value ended. -/
structure Attempt (V E : Type) where
  target : String
  outcome : Except (EvalError E) V

mutual

/--
The assignments that the evaluation of a tree comes to, each with the outcome of its value, in the order in which
these outcomes are reached.
-/
def Expr.attempts (engine : Engine V E) : Expr → EvalState V → List (Attempt V E)
  | .number _, _ | .symbol _, _ | .boolean _, _ | .undefined, _ => []
  | .unary _ operand, held | .transpose operand, held => operand.attempts engine held
  | .binary _ left right _, held | .comparison _ left right, held =>
    left.attempts engine held ++ onSuccess (left.evaluate engine held) fun _ held => right.attempts engine held
  | .call _ arguments, held => Expr.attemptsOfList engine arguments held
  | .matrix rows, held => Row.attemptsOfList engine rows held
  | .accessor object index, held =>
    object.attempts engine held ++
      onSuccess (object.evaluate engine held) fun _ held => Expr.attemptsOfList engine index held
  | .assignment target value, held =>
    value.attempts engine held ++ [⟨target, outcome (value.evaluate engine held)⟩]

def Expr.attemptsOfList (engine : Engine V E) : List Expr → EvalState V → List (Attempt V E)
  | [], _ => []
  | e :: es, held =>
    e.attempts engine held ++ onSuccess (e.evaluate engine held) fun _ held => Expr.attemptsOfList engine es held

def Row.attempts (engine : Engine V E) : Row → EvalState V → List (Attempt V E)
  | .element entry, held => entry.attempts engine held
  | .elements entries, held => Expr.attemptsOfList engine entries held

def Row.attemptsOfList (engine : Engine V E) : List Row → EvalState V → List (Attempt V E)
  | [], _ => []
  | row :: rows, held =>
    row.attempts engine held ++ onSuccess (row.evaluate engine held) fun _ held => Row.attemptsOfList engine rows held

end

/-! ## The steps of a run -/

structure Engine.Unfailing (engine : Engine V E) : Prop where
  number : ∀ text, ∃ value, engine.number text = .ok value
  call : ∀ name arguments, ∃ value, engine.call name arguments = .ok value
  collection : ∀ items, ∃ value, engine.collection items = .ok value
  index : ∀ object indices, ∃ value, engine.index object indices = .ok value

/-- An engine without constants in which numbers and operations are known by what they are called. -/
def Engine.nominal : Engine String String where
  number text := .ok text
  boolean _ := "truth value"
  undefined := "undefined"
  constant _ := none
  call name _ := .ok name
  collection _ := .ok "collection"
  index object _ := .ok object

theorem Engine.unfailing_nominal : nominal.Unfailing :=
  ⟨fun _ => ⟨_, rfl⟩, fun _ _ => ⟨_, rfl⟩, fun _ => ⟨_, rfl⟩, fun _ _ => ⟨_, rfl⟩⟩

/--
The steps a run is made of, with the nodes it comes to if nothing fails, in order, and the assignments it comes to
from what is held at its start.
-/
inductive Traverses (engine : Engine V E) :
    {α : Type} → (EvalState V → List (Attempt V E)) → List Expr → EvalM V E α → Prop
  | done {α : Type} (result : α) : Traverses engine (fun _ => []) [] (pure result)
  | asked {nodes : List Expr} {question : EngineCall V} {answer : Except E V}
      (hnodes : ∀ node ∈ nodes, node.isNameless = true)
      (hanswer : engine.Unfailing → ∃ value, answer = .ok value) :
      Traverses engine (fun _ => []) nodes (EvalM.ask question answer)
  | resolved (name : String) : Traverses engine (fun _ => []) [.symbol name] (EvalM.resolve engine name)
  | assigned {attempts : EvalState V → List (Attempt V E)} {nodes : List Expr} {m : EvalM V E V} (target : String)
      (value : Expr) (hm : Traverses engine attempts nodes m) :
      Traverses engine (fun held => attempts held ++ [⟨target, outcome (m held)⟩])
        (nodes ++ [.assignment target value]) (m >>= EvalM.bindName target)
  | next {α β : Type} {attempts : EvalState V → List (Attempt V E)}
      {attempts' : α → EvalState V → List (Attempt V E)} {nodes nodes' : List Expr} {m : EvalM V E α}
      {f : α → EvalM V E β} (hm : Traverses engine attempts nodes m)
      (hf : ∀ result, Traverses engine (attempts' result) nodes' (f result)) :
      Traverses engine (fun held => attempts held ++ onSuccess (m held) attempts') (nodes ++ nodes') (m >>= f)

section
variable {engine : Engine V E} {attempts attempts' : EvalState V → List (Attempt V E)} {nodes nodes' : List Expr}

theorem Traverses.last {m : EvalM V E α} {f : α → EvalM V E β} (hm : Traverses engine attempts nodes m)
    (hf : ∀ result, Traverses engine (fun _ => []) nodes' (f result)) :
    Traverses engine attempts (nodes ++ nodes') (m >>= f) := by
  have h := hm.next hf
  simpa only [onSuccess_nil, List.append_nil] using h

theorem Traverses.collected {m : EvalM V E (List V)} (hm : Traverses engine attempts nodes m) :
    Traverses engine attempts nodes (m >>= EvalM.collect engine) := by
  have h : Traverses engine attempts (nodes ++ []) (m >>= EvalM.collect engine) :=
    hm.last fun items => .asked (List.forall_mem_nil _) fun h => h.collection items
  rwa [List.append_nil] at h

theorem traverses_apply {node : Expr} (hnode : node.isNameless = true) (name : String) (values : List V) :
    Traverses engine (fun _ => []) [node] (EvalM.apply engine name values) :=
  .asked (List.forall_mem_singleton.2 hnode) fun h => h.call name values

theorem Traverses.apply_one {m : EvalM V E V} (hm : Traverses engine attempts nodes m) {node : Expr}
    (hnode : node.isNameless = true) (name : String) :
    Traverses engine attempts (nodes ++ [node]) (m >>= fun value => EvalM.apply engine name [value]) :=
  hm.last fun _ => traverses_apply hnode name _

theorem Traverses.apply_two {m m' : EvalM V E V} (hm : Traverses engine attempts nodes m)
    (hm' : Traverses engine attempts' nodes' m') {node : Expr} (hnode : node.isNameless = true) (name : String) :
    Traverses engine (fun held => attempts held ++ onSuccess (m held) fun _ held => attempts' held)
      (nodes ++ (nodes' ++ [node])) (m >>= fun first => m' >>= fun second => EvalM.apply engine name [first, second]) :=
  hm.next fun _ => hm'.last fun _ => traverses_apply hnode name _

/-! ## One node at a time -/

theorem traverses_evaluateList {es : List Expr}
    (h : ∀ e ∈ es, Traverses engine (e.attempts engine) e.postOrder (e.evaluate engine)) :
    Traverses engine (Expr.attemptsOfList engine es) (Expr.postOrderOfList es) (Expr.evaluateList engine es) := by
  induction es with
  | nil => exact .done []
  | cons e es ih =>
    obtain ⟨he, hes⟩ := List.forall_mem_cons.1 h
    -- The value is put before those that follow in a last step of its own, which has no nodes.
    rw [Expr.postOrderOfList, Expr.evaluateList, ← List.append_nil (Expr.postOrderOfList es)]
    exact he.next fun value => (ih hes).last fun values => .done (value :: values)

theorem traverses_row {row : Row}
    (h : ∀ e ∈ row.entries, Traverses engine (e.attempts engine) e.postOrder (e.evaluate engine)) :
    Traverses engine (row.attempts engine) row.postOrder (row.evaluate engine) := by
  cases row with
  | element entry => exact h entry List.mem_cons_self
  | elements entries => exact (traverses_evaluateList h).collected

theorem traverses_evaluateRows {rows : List Row}
    (h : ∀ row ∈ rows, Traverses engine (row.attempts engine) row.postOrder (row.evaluate engine)) :
    Traverses engine (Row.attemptsOfList engine rows) (Row.postOrderOfList rows) (Row.evaluateList engine rows) := by
  induction rows with
  | nil => exact .done []
  | cons row rows ih =>
    obtain ⟨hrow, hrows⟩ := List.forall_mem_cons.1 h
    rw [Row.postOrderOfList, Row.evaluateList, ← List.append_nil (Row.postOrderOfList rows)]
    exact hrow.next fun value => (ih hrows).last fun values => .done (value :: values)

/-- An evaluation comes to the nodes of its tree in post-order. -/
theorem traverses_evaluate (engine : Engine V E) (e : Expr) :
    Traverses engine (e.attempts engine) e.postOrder (e.evaluate engine) := by
  induction e using Expr.induction with
  | number text =>
    rw [Expr.postOrder, Expr.evaluate]
    exact .asked (by simp [Expr.isNameless]) fun h => h.number text
  | symbol name =>
    rw [Expr.postOrder, Expr.evaluate]
    exact .resolved name
  | unary operator operand ih =>
    rw [Expr.postOrder, Expr.evaluate]
    exact ih.apply_one rfl operator
  | binary operator left right implicit ihl ihr =>
    rw [Expr.postOrder, Expr.evaluate]
    exact ihl.apply_two ihr rfl operator
  | comparison operator left right ihl ihr =>
    rw [Expr.postOrder, Expr.evaluate]
    exact ihl.apply_two ihr rfl operator
  | call name arguments ih =>
    rw [Expr.postOrder, Expr.evaluate]
    exact (traverses_evaluateList ih).last fun values => traverses_apply rfl name values
  | matrix rows ih =>
    rw [Expr.postOrder, Expr.evaluate]
    refine (traverses_evaluateRows fun row hrow => traverses_row (ih row hrow)).last fun values => ?_
    exact .asked (by simp [Expr.isNameless]) fun h => h.collection values
  | accessor object index iho ihi =>
    rw [Expr.postOrder, Expr.evaluate]
    refine iho.next fun value => (traverses_evaluateList ihi).last fun indices => ?_
    exact .asked (by simp [Expr.isNameless]) fun h => h.index value indices
  | transpose operand ih =>
    rw [Expr.postOrder, Expr.evaluate]
    exact ih.apply_one rfl transposition
  | assignment target value ih =>
    rw [Expr.postOrder, Expr.evaluate]
    exact ih.assigned target value
  | boolean value =>
    rw [Expr.postOrder, Expr.evaluate]
    exact .asked (by simp [Expr.isNameless]) fun _ => ⟨_, rfl⟩
  | undefined =>
    rw [Expr.postOrder, Expr.evaluate]
    exact .asked (by simp [Expr.isNameless]) fun _ => ⟨_, rfl⟩

end

end

end TexFormula

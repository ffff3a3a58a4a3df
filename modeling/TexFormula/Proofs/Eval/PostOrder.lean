import TexFormula.Eval.Evaluate

/-!
# Evaluation as a program for a stack machine

The nodes of a tree, from left to right and each after the trees below it, are the instructions of a
program. A machine with a stack of values runs them one after the other, and stops at the first that
fails.

* `Instruction`, `Machine`, `Machine.Outcome` : what the machine is told, what it holds and how it ends;
* `Machine.step`, `Machine.run` : one instruction, and a program; `Machine.get?_of_step`, `Machine.get?_of_run` :
  what they do to what names give;
* `Expr.code` : the program of a tree;
* `Performs` : a program does what a run of the evaluation does; `Performs.bind` puts two programs
  together;
* `PushesValue` : a program leaves the stack as it was, with the value of what is evaluated on top;
  `pushesValue_code` is this for the program of a tree;
* `run_code_of_evaluate` : evaluating a tree is running its program.
-/

namespace TexFormula

/-- What one node of a tree tells the machine to do. -/
inductive Instruction
  | number (text : String)
  | boolean (value : Bool)
  | undefined
  | symbol (name : String)
  /-- Applies an operation or function to the latest `arity` values. -/
  | call (name : String) (arity : Nat)
  | collection (size : Nat)
  /-- Picks a part out of the value below the latest `dimensions` values. -/
  | index (dimensions : Nat)
  /-- Binds a name to the latest value, which stays. -/
  | binding (target : String)
deriving DecidableEq

/-- What the machine holds: the values that wait to be used, the latest first, and bindings and questions. -/
structure Machine (V : Type) where
  stack : List V
  held : EvalState V

inductive Machine.Outcome (V E : Type)
  | done (machine : Machine V)
  | failed (error : EvalError E) (held : EvalState V)
  /-- There were fewer values than an instruction asks for. -/
  | stuck

namespace Machine

variable {V E : Type}

namespace Outcome

def andThen : Outcome V E → (Machine V → Outcome V E) → Outcome V E
  | done machine, next => next machine
  | failed error held, _ => failed error held
  | stuck, _ => stuck

theorem andThen_done (outcome : Outcome V E) : outcome.andThen done = outcome := by
  cases outcome <;> rfl

end Outcome

/-- Takes the latest `n` values off a stack; they come in the order in which they were pushed. -/
def pop? : Nat → List V → Option (List V × List V)
  | 0, stack => some ([], stack)
  | n + 1, stack =>
    match pop? n stack with
    | some (values, value :: rest) => some (value :: values, rest)
    | _ => none

def ask (stack : List V) (held : EvalState V) (question : EngineCall V) (answer : Except E V) : Outcome V E :=
  let held : EvalState V := ⟨held.scope, held.calls ++ [question]⟩
  match answer with
  | .ok value => .done ⟨value :: stack, held⟩
  | .error error => .failed (.engine error) held

/-- Pushes what the scope binds a name to; the engine is asked for its constant only if that is nothing. -/
def lookUp (engine : Engine V E) (name : String) (machine : Machine V) : Outcome V E :=
  match machine.held.scope.get? name with
  | some value => .done ⟨value :: machine.stack, machine.held⟩
  | none =>
    let held : EvalState V := ⟨machine.held.scope, machine.held.calls ++ [.constant name]⟩
    match engine.constant name with
    | some value => .done ⟨value :: machine.stack, held⟩
    | none => .failed (.undefinedSymbol name) held

def step (engine : Engine V E) (instruction : Instruction) (machine : Machine V) : Outcome V E :=
  match instruction with
  | .number text => ask machine.stack machine.held (.number text) (engine.number text)
  | .boolean value => ask machine.stack machine.held (.boolean value) (.ok (engine.boolean value))
  | .undefined => ask machine.stack machine.held .undefined (.ok engine.undefined)
  | .symbol name => lookUp engine name machine
  | .call name arity =>
    match pop? arity machine.stack with
    | some (values, rest) => ask rest machine.held (.call name values) (engine.call name values)
    | none => .stuck
  | .collection size =>
    match pop? size machine.stack with
    | some (values, rest) => ask rest machine.held (.collection values) (engine.collection values)
    | none => .stuck
  | .index dimensions =>
    match pop? dimensions machine.stack with
    | some (indices, object :: rest) => ask rest machine.held (.index object indices) (engine.index object indices)
    | _ => .stuck
  | .binding target =>
    match machine.stack with
    | value :: _ => .done ⟨machine.stack, ⟨machine.held.scope.insert target value, machine.held.calls⟩⟩
    | [] => .stuck

def run (engine : Engine V E) : List Instruction → Machine V → Outcome V E
  | [], machine => .done machine
  | instruction :: program, machine => (machine.step engine instruction).andThen (run engine program)

section
variable {engine : Engine V E} {program program' : List Instruction} {machine : Machine V}

theorem run_append : machine.run engine (program ++ program') =
    (machine.run engine program).andThen (run engine program') := by
  induction program generalizing machine with
  | nil => rfl
  | cons instruction program ih =>
    show (machine.step engine instruction).andThen (run engine (program ++ program')) =
      ((machine.step engine instruction).andThen (run engine program)).andThen (run engine program')
    cases machine.step engine instruction with
    | done next => exact ih
    | failed error held => rfl
    | stuck => rfl

theorem run_singleton {instruction : Instruction} :
    machine.run engine [instruction] = machine.step engine instruction := Outcome.andThen_done _

theorem exists_step_of_run_failed {error : EvalError E} {held : EvalState V}
    (h : machine.run engine program = .failed error held) : ∃ before instruction after reached,
      program = before ++ instruction :: after ∧ machine.run engine before = .done reached ∧
        reached.step engine instruction = .failed error held := by
  induction program generalizing machine with
  | nil => cases h
  | cons instruction program ih =>
    change (machine.step engine instruction).andThen (run engine program) = _ at h
    cases hstep : machine.step engine instruction with
    | done next =>
      rw [hstep] at h
      obtain ⟨before, failing, after, reached, rfl, hrun, hfail⟩ := ih h
      refine ⟨instruction :: before, failing, after, reached, rfl, ?_, hfail⟩
      rw [run, hstep]
      exact hrun
    | failed error' held' =>
      rw [hstep] at h
      cases h
      exact ⟨[], instruction, program, machine, rfl, rfl, hstep⟩
    | stuck =>
      rw [hstep] at h
      cases h

theorem scope_of_ask {stack : List V} {held : EvalState V} {question : EngineCall V} {answer : Except E V}
    {next : Machine V} (h : ask stack held question answer = .done next) : next.held.scope = held.scope := by
  unfold ask at h
  cases answer with
  | ok value =>
    cases h
    rfl
  | error error => cases h

theorem scope_of_lookUp {name : String} {next : Machine V} (h : lookUp engine name machine = .done next) :
    next.held.scope = machine.held.scope := by
  unfold lookUp at h
  split at h
  · cases h
    rfl
  · dsimp only at h
    split at h
    · cases h
      rfl
    · cases h

/-- A binding gives its name the latest value; no instruction does anything else to what names give. -/
theorem get?_of_step {instruction : Instruction} {next : Machine V} (h : machine.step engine instruction = .done next)
    (name : String) : next.held.scope.get? name =
      if instruction = .binding name then machine.stack.head? else machine.held.scope.get? name := by
  cases instruction with
  | number text | boolean value | undefined =>
    rw [step] at h
    rw [scope_of_ask h, if_neg nofun]
  | symbol key => rw [scope_of_lookUp h, if_neg nofun]
  | call key arity | collection size | index dimensions =>
    rw [step] at h
    split at h
    · rw [scope_of_ask h, if_neg nofun]
    · cases h
  | binding target =>
    obtain ⟨_ | ⟨value, rest⟩, held⟩ := machine
    · cases h
    · cases h
      simp [Scope.get?_insert, eq_comm]

theorem get?_of_run {name : String} {next : Machine V} (h : machine.run engine program = .done next)
    (hname : .binding name ∉ program) : next.held.scope.get? name = machine.held.scope.get? name := by
  induction program generalizing machine with
  | nil =>
    cases h
    rfl
  | cons instruction program ih =>
    obtain ⟨hfirst, hothers⟩ := not_or.1 (mt List.mem_cons.2 hname)
    change (machine.step engine instruction).andThen (run engine program) = _ at h
    cases hstep : machine.step engine instruction with
    | done reached =>
      rw [hstep] at h
      rw [ih h hothers, get?_of_step hstep, if_neg (Ne.symm hfirst)]
    | failed error held =>
      rw [hstep] at h
      cases h
    | stuck =>
      rw [hstep] at h
      cases h

end

end Machine

/-! ## The program of a tree -/

mutual

/-- The nodes of a tree as instructions, each after the trees below it. -/
def Expr.code : Expr → List Instruction
  | .number text => [.number text]
  | .symbol name => [.symbol name]
  | .unary operator operand => operand.code ++ [.call operator 1]
  | .binary operator left right _ => left.code ++ (right.code ++ [.call operator 2])
  | .comparison operator left right => left.code ++ (right.code ++ [.call operator 2])
  | .call name arguments => Expr.codeOfList arguments ++ [.call name arguments.length]
  | .matrix rows => Row.codeOfList rows ++ [.collection rows.length]
  | .accessor object index => object.code ++ (Expr.codeOfList index ++ [.index index.length])
  | .transpose operand => operand.code ++ [.call transposition 1]
  | .assignment target value => value.code ++ [.binding target]
  | .boolean value => [.boolean value]
  | .undefined => [.undefined]

def Expr.codeOfList : List Expr → List Instruction
  | [] => []
  | e :: es => e.code ++ Expr.codeOfList es

/-- A row of one entry is that entry; of any other row the entries are put together. -/
def Row.code : Row → List Instruction
  | .element entry => entry.code
  | .elements entries => Expr.codeOfList entries ++ [.collection entries.length]

def Row.codeOfList : List Row → List Instruction
  | [] => []
  | row :: rows => row.code ++ Row.codeOfList rows

end

/-! ## Running the program of a tree -/

section
variable {V E α β : Type} {engine : Engine V E} {stack rest values : List V}

/--
From the given stack on, the program does to bindings and questions what the run of the evaluation does. If
they come to an end, `P` holds of the result and of the stack that is left.
-/
def Performs (engine : Engine V E) (program : List Instruction) (stack : List V) (m : EvalM V E α)
    (P : α → List V → Prop) : Prop :=
  ∀ held, match m held with
    | .ok result held' => ∃ left, Machine.run engine program ⟨stack, held⟩ = .done ⟨left, held'⟩ ∧ P result left
    | .error error held' => Machine.run engine program ⟨stack, held⟩ = .failed error held'

theorem Performs.bind {m : EvalM V E α} {f : α → EvalM V E β} {P : α → List V → Prop} {Q : β → List V → Prop}
    {program program' : List Instruction} (hm : Performs engine program stack m P)
    (hf : ∀ result left, P result left → Performs engine program' left (f result) Q) :
    Performs engine (program ++ program') stack (m >>= f) Q := by
  intro held
  have hfirst := hm held
  show match EStateM.bind m f held with | .ok _ _ => _ | .error _ _ => _
  rw [Machine.run_append]
  unfold EStateM.bind
  cases hr : m held with
  | ok result held' =>
    rw [hr] at hfirst
    obtain ⟨left, hrun, hP⟩ := hfirst
    rw [hrun]
    exact hf result left hP held'
  | error error held' =>
    rw [hr] at hfirst
    rw [hfirst]
    rfl

theorem performs_pure {P : α → List V → Prop} {result : α} (h : P result stack) :
    Performs engine [] stack (pure result) P := fun _ => ⟨stack, rfl, h⟩

theorem performs_ask {instruction : Instruction} {question : EngineCall V} {answer : Except E V}
    (h : ∀ held, Machine.step engine instruction ⟨stack, held⟩ = Machine.ask rest held question answer) :
    Performs engine [instruction] stack (EvalM.ask question answer) fun value left => left = value :: rest := by
  intro held
  rw [Machine.run_singleton, h]
  cases answer with
  | ok value => exact ⟨_, rfl, rfl⟩
  | error error => rfl

theorem performs_apply {name : String} {arity : Nat} (h : Machine.pop? arity stack = some (values, rest)) :
    Performs engine [.call name arity] stack (EvalM.apply engine name values) fun value left =>
      left = value :: rest :=
  performs_ask fun held => by rw [Machine.step, h]

theorem performs_collect {size : Nat} (h : Machine.pop? size stack = some (values, rest)) :
    Performs engine [.collection size] stack (EvalM.collect engine values) fun value left =>
      left = value :: rest :=
  performs_ask fun held => by rw [Machine.step, h]

theorem performs_index {dimensions : Nat} {object : V}
    (h : Machine.pop? dimensions stack = some (values, object :: rest)) :
    Performs engine [.index dimensions] stack (EvalM.ask (.index object values) (engine.index object values))
      fun value left => left = value :: rest :=
  performs_ask fun held => by rw [Machine.step, h]

theorem resolve_of_bound {name : String} {held : EvalState V} {value : V} (h : held.scope.get? name = some value) :
    EvalM.resolve engine name held = .ok value held := by
  change (match held.scope.get? name with | some _ => _ | none => _ : EvalM V E V) held = _
  rw [h]
  rfl

theorem resolve_of_unbound {name : String} {held : EvalState V} (h : held.scope.get? name = none) :
    EvalM.resolve engine name held =
      match engine.constant name with
      | some value => .ok value ⟨held.scope, held.calls ++ [.constant name]⟩
      | none => .error (.undefinedSymbol name) ⟨held.scope, held.calls ++ [.constant name]⟩ := by
  change (match held.scope.get? name with | some _ => _ | none => _ : EvalM V E V) held = _
  rw [h]
  change (match engine.constant name with | some _ => _ | none => _ : EvalM V E V) _ = _
  cases engine.constant name <;> rfl

theorem performs_resolve (name : String) :
    Performs engine [.symbol name] stack (EvalM.resolve engine name) fun value left => left = value :: stack := by
  intro held
  rw [Machine.run_singleton, Machine.step, Machine.lookUp]
  cases hscope : held.scope.get? name with
  | some value =>
    rw [resolve_of_bound hscope]
    exact ⟨_, rfl, rfl⟩
  | none =>
    rw [resolve_of_unbound hscope]
    cases engine.constant name with
    | some value => exact ⟨_, rfl, rfl⟩
    | none => rfl

theorem performs_bindName {target : String} {value : V} :
    Performs engine [.binding target] (value :: stack) (EvalM.bindName target value) fun value left =>
      left = value :: stack := fun _ => ⟨_, rfl, rfl⟩

def PushesValue (engine : Engine V E) (program : List Instruction) (m : EvalM V E V) : Prop :=
  ∀ stack, Performs engine program stack m fun value left => left = value :: stack

theorem PushesValue.apply_one {program : List Instruction} {m : EvalM V E V} (h : PushesValue engine program m)
    (name : String) :
    PushesValue engine (program ++ [.call name 1]) (m >>= fun value => EvalM.apply engine name [value]) := by
  intro stack
  refine (h stack).bind ?_
  rintro value _ rfl
  exact performs_apply rfl

/-- The first operand waits on the stack while the second is evaluated. -/
theorem PushesValue.apply_two {program program' : List Instruction} {m m' : EvalM V E V}
    (h : PushesValue engine program m) (h' : PushesValue engine program' m') (name : String) :
    PushesValue engine (program ++ (program' ++ [.call name 2]))
      (m >>= fun first => m' >>= fun second => EvalM.apply engine name [first, second]) := by
  intro stack
  refine (h stack).bind ?_
  rintro first _ rfl
  refine (h' _).bind ?_
  rintro second _ rfl
  exact performs_apply rfl

theorem performs_mapM {f : α → EvalM V E V} {code : α → List Instruction} {as : List α}
    (h : ∀ a ∈ as, PushesValue engine (code a) (f a)) (stack : List V) :
    Performs engine (as.flatMap code) stack (as.mapM f) fun values left =>
      Machine.pop? as.length left = some (values, stack) := by
  induction as generalizing stack with
  | nil => exact performs_pure rfl
  | cons a as ih =>
    obtain ⟨ha, has⟩ := List.forall_mem_cons.1 h
    rw [List.flatMap_cons, List.mapM_cons]
    refine (ha stack).bind ?_
    rintro value _ rfl
    rw [← List.append_nil (as.flatMap code)]
    refine (ih has _).bind fun values left hpop => performs_pure ?_
    rw [List.length_cons, Machine.pop?, hpop]

end

/-! ### One node at a time -/

theorem Expr.codeOfList_eq_flatMap (es : List Expr) : Expr.codeOfList es = es.flatMap Expr.code := by
  induction es with
  | nil => rfl
  | cons e es ih => rw [Expr.codeOfList, ih, List.flatMap_cons]

theorem Row.codeOfList_eq_flatMap (rows : List Row) : Row.codeOfList rows = rows.flatMap Row.code := by
  induction rows with
  | nil => rfl
  | cons row rows ih => rw [Row.codeOfList, ih, List.flatMap_cons]

section
variable {V E : Type} {engine : Engine V E}

theorem Expr.evaluateList_eq_mapM (es : List Expr) :
    Expr.evaluateList engine es = es.mapM (Expr.evaluate engine) := by
  induction es with
  | nil => rfl
  | cons e es ih => rw [Expr.evaluateList, ih, List.mapM_cons]

theorem Row.evaluateList_eq_mapM (rows : List Row) :
    Row.evaluateList engine rows = rows.mapM (Row.evaluate engine) := by
  induction rows with
  | nil => rfl
  | cons row rows ih => rw [Row.evaluateList, ih, List.mapM_cons]

theorem performs_codeOfList {es : List Expr} (h : ∀ e ∈ es, PushesValue engine e.code (e.evaluate engine))
    (stack : List V) :
    Performs engine (Expr.codeOfList es) stack (Expr.evaluateList engine es) fun values left =>
      Machine.pop? es.length left = some (values, stack) := by
  rw [Expr.codeOfList_eq_flatMap, Expr.evaluateList_eq_mapM]
  exact performs_mapM h stack

theorem pushesValue_row {row : Row} (h : ∀ e ∈ row.entries, PushesValue engine e.code (e.evaluate engine)) :
    PushesValue engine row.code (row.evaluate engine) := by
  intro stack
  cases row with
  | element entry =>
    rw [Row.code, Row.evaluate]
    exact h entry List.mem_cons_self stack
  | elements entries =>
    rw [Row.code, Row.evaluate]
    exact (performs_codeOfList h stack).bind fun values left hpop => performs_collect hpop

/-- The program of a tree pushes the value of the tree. -/
theorem pushesValue_code (e : Expr) : PushesValue engine e.code (e.evaluate engine) := by
  induction e using Expr.induction with
  | number text =>
    intro stack
    rw [Expr.code, Expr.evaluate]
    exact performs_ask fun _ => rfl
  | symbol name =>
    intro stack
    rw [Expr.code, Expr.evaluate]
    exact performs_resolve name
  | unary operator operand ih =>
    rw [Expr.code, Expr.evaluate]
    exact ih.apply_one operator
  | binary operator left right implicit ihl ihr =>
    rw [Expr.code, Expr.evaluate]
    exact ihl.apply_two ihr operator
  | comparison operator left right ihl ihr =>
    rw [Expr.code, Expr.evaluate]
    exact ihl.apply_two ihr operator
  | call name arguments ih =>
    intro stack
    rw [Expr.code, Expr.evaluate]
    exact (performs_codeOfList ih stack).bind fun values left hpop => performs_apply hpop
  | matrix rows ih =>
    intro stack
    rw [Expr.code, Expr.evaluate, Row.codeOfList_eq_flatMap, Row.evaluateList_eq_mapM]
    refine (performs_mapM (fun row hrow => pushesValue_row (ih row hrow)) stack).bind fun values left hpop => ?_
    exact performs_collect hpop
  | accessor object index iho ihi =>
    intro stack
    rw [Expr.code, Expr.evaluate]
    refine (iho stack).bind ?_
    rintro value _ rfl
    exact (performs_codeOfList ihi _).bind fun indices left hpop => performs_index hpop
  | transpose operand ih =>
    rw [Expr.code, Expr.evaluate]
    exact ih.apply_one transposition
  | assignment target value ih =>
    intro stack
    rw [Expr.code, Expr.evaluate]
    refine (ih stack).bind ?_
    rintro result _ rfl
    exact performs_bindName
  | boolean value =>
    intro stack
    rw [Expr.code, Expr.evaluate]
    exact performs_ask fun _ => rfl
  | undefined =>
    intro stack
    rw [Expr.code, Expr.evaluate]
    exact performs_ask fun _ => rfl

/--
Evaluating a tree is running its program on an empty stack. Where the evaluation has a value, the program
runs to its end and leaves that value alone on the stack, with the same bindings and the same questions put
to the engine. Where the evaluation fails, one instruction of the program fails in the same way, everything
before it was carried out and nothing after it.
-/
theorem run_code_of_evaluate (engine : Engine V E) (e : Expr) (held : EvalState V) :
    match e.evaluate engine held with
    | .ok value held' => Machine.run engine e.code ⟨[], held⟩ = .done ⟨[value], held'⟩
    | .error error held' => Machine.run engine e.code ⟨[], held⟩ = .failed error held' ∧
      ∃ before instruction after machine, e.code = before ++ instruction :: after ∧
        Machine.run engine before ⟨[], held⟩ = .done machine ∧
          machine.step engine instruction = .failed error held' := by
  have h := (pushesValue_code e : PushesValue engine e.code _) [] held
  cases hr : e.evaluate engine held with
  | ok value held' =>
    rw [hr] at h
    obtain ⟨_, hrun, rfl⟩ := h
    exact hrun
  | error error held' =>
    rw [hr] at h
    exact ⟨h, Machine.exists_step_of_run_failed h⟩

end

end TexFormula

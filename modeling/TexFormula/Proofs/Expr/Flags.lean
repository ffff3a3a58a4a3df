import TexFormula.Eval.Evaluate
import TexFormula.Proofs.Expr.Nodes

/-!
# Products without a sign

A product of neighbours is flagged as such in its node. Nothing but the flag tells it from a product with a sign.

* `Expr.withFlags keep e` : the tree with its flags kept or all taken away; `Expr.explicit e` : without them;
* `Expr.nodes_withFlags` : node for node the tree is what it was;
* `Expr.evaluate_withFlags` : the flags have no part in the evaluation;
* `Expr.count_explicit` : taking the flags away makes signed products of the products of neighbours.
-/

namespace TexFormula

mutual

/-- The tree with the flags of its products of neighbours, if `keep`, and else with none. -/
def Expr.withFlags (keep : Bool) : Expr → Expr
  | .number text => .number text
  | .symbol name => .symbol name
  | .unary operator operand => .unary operator (operand.withFlags keep)
  | .binary operator left right implicit =>
    .binary operator (left.withFlags keep) (right.withFlags keep) (implicit && keep)
  | .comparison operator left right => .comparison operator (left.withFlags keep) (right.withFlags keep)
  | .call name arguments => .call name (Expr.withFlagsOfList keep arguments)
  | .matrix rows => .matrix (Row.withFlagsOfList keep rows)
  | .accessor object index => .accessor (object.withFlags keep) (Expr.withFlagsOfList keep index)
  | .transpose operand => .transpose (operand.withFlags keep)
  | .assignment target value => .assignment target (value.withFlags keep)
  | .boolean value => .boolean value
  | .undefined => .undefined

def Expr.withFlagsOfList (keep : Bool) : List Expr → List Expr
  | [] => []
  | e :: es => e.withFlags keep :: Expr.withFlagsOfList keep es

def Row.withFlags (keep : Bool) : Row → Row
  | .element entry => .element (entry.withFlags keep)
  | .elements entries => .elements (Expr.withFlagsOfList keep entries)

def Row.withFlagsOfList (keep : Bool) : List Row → List Row
  | [] => []
  | row :: rows => row.withFlags keep :: Row.withFlagsOfList keep rows

end

/-- The tree in which every product has a sign. -/
def Expr.explicit (e : Expr) : Expr := e.withFlags false

@[simp] def Expr.isImplicit : Expr → Bool
  | .binary _ _ _ implicit => implicit
  | _ => false

section
variable {keep : Bool}

theorem Expr.withFlagsOfList_eq_map (es : List Expr) : withFlagsOfList keep es = es.map (withFlags keep) := by
  induction es with
  | nil => rw [withFlagsOfList, List.map_nil]
  | cons e es ih => rw [withFlagsOfList, ih, List.map_cons]

theorem Row.withFlagsOfList_eq_map (rows : List Row) : withFlagsOfList keep rows = rows.map (withFlags keep) := by
  induction rows with
  | nil => rw [withFlagsOfList, List.map_nil]
  | cons row rows ih => rw [withFlagsOfList, ih, List.map_cons]

theorem Row.entries_withFlags (row : Row) : (row.withFlags keep).entries = row.entries.map (Expr.withFlags keep) := by
  cases row with
  | element entry => rw [withFlags, entries, entries, List.map_singleton]
  | elements entries => rw [withFlags, Row.entries, Row.entries, Expr.withFlagsOfList_eq_map]

theorem Row.withFlags_ofEntries (es : List Expr) :
    (ofEntries es).withFlags keep = ofEntries (es.map (Expr.withFlags keep)) := by
  match es with
  | [] | [_] | _ :: _ :: _ => simp [ofEntries, withFlags, Expr.withFlagsOfList_eq_map]

namespace Expr

/-! ## Node for node -/

theorem children_withFlags (e : Expr) : (e.withFlags keep).children = e.children.map (withFlags keep) := by
  cases e <;>
    simp only [withFlags, children, withFlagsOfList_eq_map, Row.withFlagsOfList_eq_map, List.map_cons, List.map_nil]
  case matrix rows =>
    rw [List.flatMap_map, List.map_flatMap]
    simp only [Row.entries_withFlags]

theorem nodes_withFlags (e : Expr) : (e.withFlags keep).nodes = e.nodes.map (withFlags keep) := by
  induction e using induction_on_children with
  | h e ih =>
    rw [nodes_eq, nodes_eq e, children_withFlags, List.map_cons, List.flatMap_map, List.map_flatMap]
    congr 1
    exact List.flatMap_congr ih

theorem withFlags_eq_symbol_iff {e : Expr} {name : String} : e.withFlags keep = .symbol name ↔ e = .symbol name := by
  cases e <;> simp [withFlags]

theorem withFlagsOfList_true {es : List Expr} (h : ∀ e ∈ es, e.withFlags true = e) :
    withFlagsOfList true es = es := by
  rw [withFlagsOfList_eq_map, List.map_congr_left h, List.map_id']

theorem withFlags_true (e : Expr) : e.withFlags true = e := by
  induction e using Expr.induction with
  | number _ | symbol _ | boolean _ | undefined => rw [withFlags]
  | unary _ _ ih | transpose _ ih | assignment _ _ ih => rw [withFlags, ih]
  | binary _ _ _ _ ihl ihr => rw [withFlags, ihl, ihr, Bool.and_true]
  | comparison _ _ _ ihl ihr => rw [withFlags, ihl, ihr]
  | call _ _ ih => rw [withFlags, withFlagsOfList_true ih]
  | accessor _ _ iho ihi => rw [withFlags, iho, withFlagsOfList_true ihi]
  | matrix rows ih =>
    have hrow : ∀ row ∈ rows, row.withFlags true = row := by
      intro row hrow
      cases row with
      | element entry => rw [Row.withFlags, ih _ hrow entry List.mem_cons_self]
      | elements entries =>
        rw [Row.withFlags]
        exact congrArg Row.elements (withFlagsOfList_true (ih _ hrow))
    rw [withFlags, Row.withFlagsOfList_eq_map, List.map_congr_left hrow, List.map_id']

/-! ## Evaluation -/

section
variable {V E : Type} {engine : Engine V E}

theorem evaluateList_withFlags {es : List Expr}
    (h : ∀ e ∈ es, (e.withFlags keep).evaluate engine = e.evaluate engine) :
    evaluateList engine (withFlagsOfList keep es) = evaluateList engine es := by
  induction es with
  | nil => rw [withFlagsOfList]
  | cons e es ih =>
    obtain ⟨he, hes⟩ := List.forall_mem_cons.1 h
    rw [withFlagsOfList, evaluateList, evaluateList, he, ih hes]

theorem evaluateRows_withFlags {rows : List Row}
    (h : ∀ row ∈ rows, ∀ e ∈ row.entries, (e.withFlags keep).evaluate engine = e.evaluate engine) :
    Row.evaluateList engine (Row.withFlagsOfList keep rows) = Row.evaluateList engine rows := by
  induction rows with
  | nil => rw [Row.withFlagsOfList]
  | cons row rows ih =>
    obtain ⟨hrow, hrows⟩ := List.forall_mem_cons.1 h
    rw [Row.withFlagsOfList, Row.evaluateList, Row.evaluateList, ih hrows]
    cases row with
    | element entry => rw [Row.withFlags, Row.evaluate, Row.evaluate, hrow entry List.mem_cons_self]
    | elements entries =>
      have he : evaluateList engine (withFlagsOfList keep entries) = evaluateList engine entries :=
        evaluateList_withFlags hrow
      rw [Row.withFlags, Row.evaluate, Row.evaluate, he]

/-- Value, bindings and questions to the engine do not depend on the flags. -/
theorem evaluate_withFlags (e : Expr) : (e.withFlags keep).evaluate engine = e.evaluate engine := by
  induction e using Expr.induction with
  | number _ | symbol _ | boolean _ | undefined => rw [withFlags]
  | unary _ _ ih | transpose _ ih | assignment _ _ ih => rw [withFlags, evaluate, evaluate, ih]
  | binary _ _ _ _ ihl ihr | comparison _ _ _ ihl ihr => rw [withFlags, evaluate, evaluate, ihl, ihr]
  | call _ _ ih => rw [withFlags, evaluate, evaluate, evaluateList_withFlags ih]
  | accessor _ _ iho ihi => rw [withFlags, evaluate, evaluate, iho, evaluateList_withFlags ihi]
  | matrix _ ih => rw [withFlags, evaluate, evaluate, evaluateRows_withFlags ih]

end

/-! ## Counting -/

theorem count_explicit (e : Expr) : e.explicit.count isSignedProduct = e.count (isBinary multiplication) := by
  unfold explicit count
  rw [nodes_withFlags, List.countP_map]
  refine List.countP_congr fun node _ => ?_
  cases node <;> simp [withFlags]

/-- Products have a sign or are flagged, if nothing else is flagged. -/
theorem count_multiplication {e : Expr}
    (h : e.count (fun node => node.isImplicit && !node.isBinary multiplication) = 0) :
    e.count (isBinary multiplication) = e.count isSignedProduct + e.count isImplicit := by
  unfold count at h ⊢
  revert h
  induction e.nodes with
  | nil => exact fun _ => rfl
  | cons node nodes ih =>
    intro h
    rw [List.countP_cons] at h
    rw [List.countP_cons, List.countP_cons, List.countP_cons, ih (by omega)]
    cases node with
    | binary operator left right implicit =>
      by_cases hm : operator = multiplication
      · cases implicit <;> simp [hm] <;> omega
      · cases implicit with
        | true => simp [hm] at h
        | false => simp [hm]
    | _ => simp

end Expr

end

end TexFormula

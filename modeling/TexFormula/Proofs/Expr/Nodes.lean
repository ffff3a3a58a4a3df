import Mathlib.Algebra.BigOperators.Ring.List
import Mathlib.Algebra.Ring.Int.Defs
import TexFormula.Expr.Basic

/-!
# The nodes of a tree

* `Expr.Node e node` : `node` is a node of the tree `e`, at any depth;
* `Expr.nodes e` : all nodes of a tree, each as often as it stands there (`Expr.mem_nodes_iff`);
* `Expr.count p e` : how many nodes of a tree are such that `p`;
* `Expr.total weight e` : what all nodes of a tree weigh together. By `Expr.total_eq` it is what the
  root weighs and what the trees right below it weigh;
* `Expr.isBinary`, `Expr.isRelation`, `Expr.isSignedProduct`, `Expr.rowCount`, `Expr.furtherEntries`,
  `Expr.furtherValues` : what is counted of a node.
-/

namespace TexFormula

theorem sum_map_toInt {α : Type} (p : α → Bool) (xs : List α) : (xs.map fun x => (p x).toInt).sum = xs.countP p := by
  induction xs with
  | nil => rfl
  | cons x xs ih =>
    rw [List.map_cons, List.sum_cons, ih, List.countP_cons]
    cases p x <;> simp [Bool.toInt, Int.add_comm]

/-! ## The nodes of a tree -/

def Expr.children : Expr → List Expr
  | .number _ | .symbol _ | .boolean _ | .undefined => []
  | .unary _ operand | .transpose operand => [operand]
  | .binary _ left right _ | .comparison _ left right => [left, right]
  | .call _ arguments => arguments
  | .matrix rows => rows.flatMap Row.entries
  | .accessor object index => object :: index
  | .assignment _ value => [value]

inductive Expr.Node : Expr → Expr → Prop
  | root {e : Expr} : Node e e
  | inside {e child node : Expr} : child ∈ e.children → Node child node → Node e node

mutual

/-- The nodes below the root of a tree, in the order they are written. -/
def Expr.descendants : Expr → List Expr
  | .number _ | .symbol _ | .boolean _ | .undefined => []
  | .unary _ operand | .transpose operand => operand :: operand.descendants
  | .binary _ left right _ | .comparison _ left right => (left :: left.descendants) ++ (right :: right.descendants)
  | .call _ arguments => Expr.nodesOfList arguments
  | .matrix rows => Row.nodesOfList rows
  | .accessor object index => (object :: object.descendants) ++ Expr.nodesOfList index
  | .assignment _ value => value :: value.descendants

def Expr.nodesOfList : List Expr → List Expr
  | [] => []
  | e :: es => (e :: e.descendants) ++ Expr.nodesOfList es

def Row.nodes : Row → List Expr
  | .element entry => entry :: entry.descendants
  | .elements entries => Expr.nodesOfList entries

def Row.nodesOfList : List Row → List Expr
  | [] => []
  | row :: rows => row.nodes ++ Row.nodesOfList rows

end

def Expr.nodes (e : Expr) : List Expr := e :: e.descendants

theorem Expr.nodes_def (e : Expr) : e :: e.descendants = e.nodes := rfl

theorem Expr.nodesOfList_eq_flatMap (es : List Expr) : nodesOfList es = es.flatMap nodes := by
  induction es with
  | nil => rfl
  | cons e es ih => simp [nodesOfList, nodes, ih]

theorem Row.nodes_eq_flatMap (row : Row) : row.nodes = row.entries.flatMap Expr.nodes := by
  cases row with
  | element entry => simp [nodes, entries, Expr.nodes]
  | elements entries => exact Expr.nodesOfList_eq_flatMap entries

theorem Row.nodesOfList_eq_flatMap (rows : List Row) :
    nodesOfList rows = (rows.flatMap entries).flatMap Expr.nodes := by
  induction rows with
  | nil => rfl
  | cons row rows ih => simp [nodesOfList, nodes_eq_flatMap, ih]

namespace Expr

theorem nodes_eq (e : Expr) : e.nodes = e :: e.children.flatMap nodes := by
  have hbelow : e.descendants = e.children.flatMap nodes := by
    cases e <;>
      simp only [descendants, children, nodes_def, nodesOfList_eq_flatMap, Row.nodesOfList_eq_flatMap,
        List.flatMap_cons, List.flatMap_nil, List.append_nil]
  rw [nodes, hbelow]

/-- What holds of a tree whenever it holds of the trees right below it holds of all trees. -/
theorem induction_on_children {P : Expr → Prop} (h : ∀ e : Expr, (∀ child ∈ e.children, P child) → P e)
    (e : Expr) : P e := by
  induction e using Expr.induction with
  | number _ | symbol _ | boolean _ | undefined => exact h _ (List.forall_mem_nil _)
  | unary _ _ ih | transpose _ ih | assignment _ _ ih => exact h _ (List.forall_mem_singleton.2 ih)
  | binary _ _ _ _ ihl ihr | comparison _ _ _ ihl ihr =>
    exact h _ (List.forall_mem_cons.2 ⟨ihl, List.forall_mem_singleton.2 ihr⟩)
  | call _ _ ih => exact h _ ih
  | accessor _ _ iho ihi => exact h _ (List.forall_mem_cons.2 ⟨iho, ihi⟩)
  | matrix rows ih =>
    refine h _ fun child hchild => ?_
    obtain ⟨row, hrow, hentry⟩ := List.mem_flatMap.1 hchild
    exact ih row hrow child hentry

theorem mem_nodes_iff {e node : Expr} : node ∈ e.nodes ↔ e.Node node := by
  induction e using induction_on_children with
  | h e ih =>
    rw [nodes_eq, List.mem_cons, List.mem_flatMap]
    constructor
    · rintro (rfl | ⟨child, hchild, hnode⟩)
      · exact .root
      · exact .inside hchild ((ih child hchild).1 hnode)
    · intro hn
      cases hn with
      | root => exact .inl rfl
      | inside hchild hn => exact .inr ⟨_, hchild, (ih _ hchild).2 hn⟩

def count (p : Expr → Bool) (e : Expr) : Nat := e.nodes.countP p

def total (weight : Expr → Int) (e : Expr) : Int := (e.nodes.map weight).sum

theorem total_eq (weight : Expr → Int) (e : Expr) :
    e.total weight = weight e + (e.children.map (total weight)).sum := by
  have hbelow : ((e.children.flatMap nodes).map weight).sum = (e.children.map (total weight)).sum := by
    rw [List.map_flatMap, List.flatMap_def, List.sum_flatten, List.map_map]
    rfl
  rw [total, nodes_eq, List.map_cons, List.sum_cons, hbelow]

theorem total_add (f g : Expr → Int) (e : Expr) :
    e.total (fun node => f node + g node) = e.total f + e.total g :=
  List.sum_map_add

theorem total_mul (c : Int) (f : Expr → Int) (e : Expr) :
    e.total (fun node => c * f node) = c * e.total f :=
  List.sum_map_mul_left e.nodes f c

theorem total_toInt (p : Expr → Bool) (e : Expr) : e.total (fun node => (p node).toInt) = e.count p :=
  sum_map_toInt p e.nodes

end Expr

/-! ## What is counted -/

namespace Expr

/-- A node with two operands and the given operator, with or without a sign. -/
@[simp] def isBinary (operator : String) : Expr → Bool
  | binary name _ _ _ => name == operator
  | _ => false

@[simp] def isSignedProduct : Expr → Bool
  | binary name _ _ implicit => name == multiplication && !implicit
  | _ => false

@[simp] def isRelation (operator : String) : Expr → Bool
  | comparison name _ _ => name == operator
  | _ => false

end Expr

/-- How many entries a row has after its first. -/
def Row.further : Row → Int
  | .element _ => 0
  | .elements entries => entries.length - 1

namespace Expr

@[simp] def rowCount : Expr → Int
  | matrix rows => rows.length
  | _ => 0

@[simp] def furtherEntries : Expr → Int
  | matrix rows => (rows.map Row.further).sum
  | _ => 0

/-- How many arguments or dimensions a node has after the first. -/
@[simp] def furtherValues : Expr → Int
  | call _ arguments => arguments.length - 1
  | accessor _ index => index.length - 1
  | _ => 0

end Expr

theorem Row.further_ofEntries (es : List Expr) : (ofEntries es).further = es.length - 1 := by
  match es with
  | [] => rfl
  | [_] => rfl
  | _ :: _ :: _ => rfl

end TexFormula

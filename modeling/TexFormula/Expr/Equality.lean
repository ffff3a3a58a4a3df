import TexFormula.Expr.Basic

/-!
# Equality of expression trees

`Expr.same` compares two trees node by node, flags included. It decides equality, which gives the
`DecidableEq` instance.
-/

namespace TexFormula

mutual

/-- Whether two trees agree in every node. -/
def Expr.same : Expr → Expr → Bool
  | .number a, .number b => a == b
  | .symbol a, .symbol b => a == b
  | .unary o a, .unary p b => o == p && a.same b
  | .binary o a b i, .binary p c d j => o == p && a.same c && b.same d && i == j
  | .comparison o a b, .comparison p c d => o == p && a.same c && b.same d
  | .call n as, .call m bs => n == m && Expr.sameList as bs
  | .matrix rs, .matrix ss => Row.sameList rs ss
  | .accessor a is, .accessor b js => a.same b && Expr.sameList is js
  | .transpose a, .transpose b => a.same b
  | .assignment t a, .assignment u b => t == u && a.same b
  | .boolean a, .boolean b => a == b
  | .undefined, .undefined => true
  | _, _ => false

def Expr.sameList : List Expr → List Expr → Bool
  | [], [] => true
  | a :: as, b :: bs => a.same b && Expr.sameList as bs
  | _, _ => false

def Row.same : Row → Row → Bool
  | .element a, .element b => a.same b
  | .elements as, .elements bs => Expr.sameList as bs
  | _, _ => false

def Row.sameList : List Row → List Row → Bool
  | [], [] => true
  | r :: rs, s :: ss => r.same s && Row.sameList rs ss
  | _, _ => false

end

theorem Expr.sameList_iff {as : List Expr} (h : ∀ a ∈ as, ∀ b, Expr.same a b = true ↔ a = b)
    (bs : List Expr) : Expr.sameList as bs = true ↔ as = bs := by
  induction as generalizing bs with
  | nil => cases bs <;> simp [Expr.sameList]
  | cons a as ih =>
    cases bs with
    | nil => simp [Expr.sameList]
    | cons b bs =>
      simp [Expr.sameList, h a List.mem_cons_self, ih fun x hx => h x (List.mem_cons_of_mem a hx)]

theorem Row.same_iff {r : Row} (h : ∀ a ∈ r.entries, ∀ b, Expr.same a b = true ↔ a = b) (s : Row) :
    r.same s = true ↔ r = s := by
  cases r with
  | element a => cases s <;> simp [Row.same, h a (by simp [Row.entries])]
  | elements as => cases s <;> simp [Row.same, Expr.sameList_iff (show ∀ a ∈ as, _ from h)]

theorem Row.sameList_iff {rs : List Row}
    (h : ∀ r ∈ rs, ∀ a ∈ r.entries, ∀ b, Expr.same a b = true ↔ a = b) (ss : List Row) :
    Row.sameList rs ss = true ↔ rs = ss := by
  induction rs generalizing ss with
  | nil => cases ss <;> simp [Row.sameList]
  | cons r rs ih =>
    cases ss with
    | nil => simp [Row.sameList]
    | cons s ss =>
      simp [Row.sameList, Row.same_iff (h r List.mem_cons_self),
        ih fun x hx => h x (List.mem_cons_of_mem r hx)]

theorem Expr.same_iff (a b : Expr) : a.same b = true ↔ a = b := by
  induction a using Expr.induction generalizing b with
  | number => cases b <;> simp [Expr.same]
  | symbol => cases b <;> simp [Expr.same]
  | unary _ _ ih => cases b <;> simp [Expr.same, ih]
  | binary _ _ _ _ ihl ihr => cases b <;> simp [Expr.same, ihl, ihr, and_assoc]
  | comparison _ _ _ ihl ihr => cases b <;> simp [Expr.same, ihl, ihr, and_assoc]
  | call _ _ ih => cases b <;> simp [Expr.same, Expr.sameList_iff ih]
  | matrix _ ih => cases b <;> simp [Expr.same, Row.sameList_iff ih]
  | accessor _ _ ih ihs => cases b <;> simp [Expr.same, ih, Expr.sameList_iff ihs]
  | transpose _ ih => cases b <;> simp [Expr.same, ih]
  | assignment _ _ ih => cases b <;> simp [Expr.same, ih]
  | boolean => cases b <;> simp [Expr.same]
  | undefined => cases b <;> simp [Expr.same]

instance : DecidableEq Expr := fun a b => decidable_of_iff _ (Expr.same_iff a b)

end TexFormula

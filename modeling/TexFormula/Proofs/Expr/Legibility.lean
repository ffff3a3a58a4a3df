import TexFormula.Proofs.Expr.Flags
import TexFormula.Proofs.Expr.Readback

/-!
# Plain texts can be read in only one way

What the plain text of a tree shows can be read back, and almost always tells which tree it was. Two things do not
show: the flags of products, and whether brackets inside a matrix are a row of several entries or a matrix that is
alone in its row.

* `Expr.shown` : what the plain text shows of a tree. A row of several entries looks like a matrix, and a product
  of neighbours like any other;
* `Expr.Legible` : trees without assignments, truth values and undefined values, in which no matrix is alone in its
  row;
* `readsAs_plain` : the plain text of a well-formed legible tree reads as what it shows of the tree;
* `Expr.restored` : takes every matrix alone in its row for a row of several entries; `restored_shown` : this gives a
  legible tree back, up to flags;
* `read_plain_of_parseFormulaWithin` : the tree of a formula is read back from its plain text;
* `explicit_eq_of_plain_eq` : formulas with the same plain text have the same tree, up to flags.
-/

namespace TexFormula

open Readback

/-! ## What is shown -/

mutual

/-- The tree as its plain text shows it: a row of several entries is a matrix of rows of one entry, and no product is
flagged. -/
def Expr.shown : Expr → Expr
  | .number text => .number text
  | .symbol name => .symbol name
  | .unary operator operand => .unary operator operand.shown
  | .binary operator left right _ => .binary operator left.shown right.shown false
  | .comparison operator left right => .comparison operator left.shown right.shown
  | .call name arguments => .call name (Expr.shownOfList arguments)
  | .matrix rows => .matrix ((Row.shownOfList rows).map .element)
  | .accessor object index => .accessor object.shown (Expr.shownOfList index)
  | .transpose operand => .transpose operand.shown
  | .assignment target value => .assignment target value.shown
  | .boolean value => .boolean value
  | .undefined => .undefined

def Expr.shownOfList : List Expr → List Expr
  | [] => []
  | e :: es => e.shown :: Expr.shownOfList es

def Row.shown : Row → Expr
  | .element entry => entry.shown
  | .elements entries => .matrix ((Expr.shownOfList entries).map .element)

def Row.shownOfList : List Row → List Expr
  | [] => []
  | row :: rows => row.shown :: Row.shownOfList rows

end

theorem Expr.shownOfList_eq_map (es : List Expr) : shownOfList es = es.map shown := by
  induction es with
  | nil => rfl
  | cons e es ih => rw [shownOfList, ih, List.map_cons]

theorem Row.shownOfList_eq_map (rows : List Row) : shownOfList rows = rows.map shown := by
  induction rows with
  | nil => rfl
  | cons row rows ih => rw [shownOfList, ih, List.map_cons]

/-! ## Legible trees -/

/-- What is asked of a single node: a matrix that is alone in its row would look like a row of several entries. -/
def Expr.IsLegible : Expr → Prop
  | .assignment _ _ | .boolean _ | .undefined => False
  | .matrix rows => ∀ row ∈ rows, ∀ inner, row ≠ .element (.matrix inner)
  | _ => True

def Expr.Legible (e : Expr) : Prop := ∀ node, e.Node node → node.IsLegible

theorem Expr.forall_node_below {P : Expr → Prop} {e child : Expr} (h : ∀ node, e.Node node → P node)
    (hchild : child ∈ e.children) : ∀ node, child.Node node → P node :=
  fun node hnode => h node (.inside hchild hnode)

theorem Row.mem_children {rows : List Row} {row : Row} {entry : Expr} (hrow : row ∈ rows)
    (hentry : entry ∈ row.entries) : entry ∈ (Expr.matrix rows).children :=
  List.mem_flatMap.2 ⟨row, hrow, hentry⟩

/-! ## Reading -/

theorem toList_commaSeparated (texts : List String) :
    (commaSeparated texts).toList = [',', ' '].intercalate (texts.map String.toList) := String.toList_intercalate

theorem toList_infixed (operator left right : String) : (infixed operator left right).toList =
    '(' :: (left.toList ++ ' ' :: ((operatorSign operator).toList ++ ' ' :: (right.toList ++ [')']))) := by
  simp [infixed]

theorem toList_commaSeparated_map {α : Type} (plain : α → String) (as : List α) :
    (commaSeparated (as.map plain)).toList = [',', ' '].intercalate (as.map fun a => (plain a).toList) := by
  rw [toList_commaSeparated, List.map_map]
  rfl

theorem readsAs_row {row : Row} (hshaped : row.Shaped)
    (h : ∀ entry ∈ row.entries, ReadsAs entry.plain.toList entry.shown) : ReadsAs row.plain.toList row.shown := by
  cases row with
  | element entry =>
    rw [Row.plain, Row.shown]
    exact h entry List.mem_cons_self
  | elements entries =>
    have hne : entries ≠ [] := by
      rintro rfl
      exact absurd hshaped (by simp [Row.Shaped])
    have hmatrix : ReadsAs _ (.matrix ((entries.map Expr.shown).map .element)) := readsAs_matrix h hne
    rw [Row.plain, Row.shown, Expr.plainList_eq_map, Expr.shownOfList_eq_map]
    simpa [toList_commaSeparated_map] using hmatrix

/-- The plain text of a tree reads as what it shows of the tree. -/
theorem readsAs_plain {e : Expr} (h : ∀ node, e.Node node → node.Shaped ∧ node.IsLegible) :
    ReadsAs e.plain.toList e.shown := by
  induction e using Expr.induction with
  | number text =>
    rw [Expr.plain, Expr.shown]
    exact readsAs_number (h _ .root).1
  | symbol name =>
    rw [Expr.plain, Expr.shown]
    exact readsAs_symbol (h _ .root).1
  | unary operator operand ih =>
    obtain rfl : operator = negation := (h _ .root).1
    have hoperand := ih (Expr.forall_node_below h List.mem_cons_self)
    rw [Expr.plain, Expr.shown]
    simpa [Expr.negate] using hoperand.negate
  | binary operator left right implicit ihl ihr =>
    have hoperator : operator ∈ Readback.operations := (h _ .root).1.1
    have hleft := ihl (Expr.forall_node_below h List.mem_cons_self)
    have hright := ihr (Expr.forall_node_below h (List.mem_cons_of_mem _ List.mem_cons_self))
    rw [Expr.plain, Expr.shown, toList_infixed]
    exact hleft.infixed hright (List.mem_append_left _ hoperator) (infixNode?_operation hoperator _ _)
  | comparison operator left right ihl ihr =>
    have hoperator : operator ∈ Readback.relations := (h _ .root).1
    have hleft := ihl (Expr.forall_node_below h List.mem_cons_self)
    have hright := ihr (Expr.forall_node_below h (List.mem_cons_of_mem _ List.mem_cons_self))
    rw [Expr.plain, Expr.shown, toList_infixed]
    exact hleft.infixed hright (List.mem_append_right _ hoperator) (infixNode?_relation hoperator _ _)
  | call name arguments ih =>
    obtain ⟨hname, hne⟩ := (h _ .root).1
    have harguments := readsAs_call hname (fun e he => ih e he (Expr.forall_node_below h he)) hne
    rw [Expr.plain, Expr.shown, Expr.plainList_eq_map, Expr.shownOfList_eq_map]
    simpa [toList_commaSeparated_map] using harguments
  | matrix rows ih =>
    -- A row is a tree of its own in the text, but not a node of this tree.
    obtain ⟨hne, hshaped⟩ := (h _ .root).1
    have hrow : ∀ row ∈ rows, ReadsAs row.plain.toList row.shown := fun row hrow =>
      readsAs_row (hshaped row hrow) fun entry hentry =>
        ih row hrow entry hentry (Expr.forall_node_below h (Row.mem_children hrow hentry))
    rw [Expr.plain, Expr.shown, Row.plainList_eq_map, Row.shownOfList_eq_map]
    simpa [toList_commaSeparated_map] using readsAs_matrix hrow hne
  | accessor object index iho ihi =>
    have hobject := iho (Expr.forall_node_below h List.mem_cons_self)
    have hindex : ∀ e ∈ index, ReadsAs e.plain.toList e.shown := fun e he =>
      ihi e he (Expr.forall_node_below h (List.mem_cons_of_mem _ he))
    rw [Expr.plain, Expr.shown, Expr.plainList_eq_map, Expr.shownOfList_eq_map]
    simpa [toList_commaSeparated_map] using readsAs_accessor hobject hindex (h _ .root).1
  | transpose operand ih =>
    have hoperand := ih (Expr.forall_node_below h List.mem_cons_self)
    rw [Expr.plain, Expr.shown]
    simpa using hoperand.transpose
  | assignment target value ih => exact absurd (h _ .root).2 id
  | boolean value => exact absurd (h _ .root).2 id
  | undefined => exact absurd (h _ .root).2 id

/-! ## What is shown determines the tree -/

mutual

/-- The tree of which this is shown: a matrix that is alone in its row was a row of several entries. -/
def Expr.restored : Expr → Expr
  | .number text => .number text
  | .symbol name => .symbol name
  | .unary operator operand => .unary operator operand.restored
  | .binary operator left right implicit => .binary operator left.restored right.restored implicit
  | .comparison operator left right => .comparison operator left.restored right.restored
  | .call name arguments => .call name (Expr.restoredOfList arguments)
  | .matrix rows => .matrix (Row.restoredOfList rows)
  | .accessor object index => .accessor object.restored (Expr.restoredOfList index)
  | .transpose operand => .transpose operand.restored
  | .assignment target value => .assignment target value.restored
  | .boolean value => .boolean value
  | .undefined => .undefined

def Expr.restoredOfList : List Expr → List Expr
  | [] => []
  | e :: es => e.restored :: Expr.restoredOfList es

def Row.restored : Row → Row
  | .element (.matrix inner) => .elements (Row.restoredEntries inner)
  | .element entry => .element entry.restored
  | .elements entries => .elements (Expr.restoredOfList entries)

def Row.restoredOfList : List Row → List Row
  | [] => []
  | row :: rows => row.restored :: Row.restoredOfList rows

def Row.restoredEntries : List Row → List Expr
  | [] => []
  | .element entry :: rows => entry.restored :: Row.restoredEntries rows
  | .elements entries :: rows => Expr.restoredOfList entries ++ Row.restoredEntries rows

end

theorem Expr.restoredOfList_eq_map (es : List Expr) : restoredOfList es = es.map restored := by
  induction es with
  | nil => rfl
  | cons e es ih => rw [restoredOfList, ih, List.map_cons]

theorem Row.restoredOfList_eq_map (rows : List Row) : restoredOfList rows = rows.map restored := by
  induction rows with
  | nil => rfl
  | cons row rows ih => rw [restoredOfList, ih, List.map_cons]

theorem Row.restoredEntries_map_element (es : List Expr) :
    restoredEntries (es.map .element) = es.map Expr.restored := by
  induction es with
  | nil => rfl
  | cons e es ih => rw [List.map_cons, restoredEntries, ih, List.map_cons]

theorem Row.restored_element_shown {e : Expr} (h : ∀ inner, e ≠ .matrix inner) :
    (Row.element e.shown).restored = .element e.shown.restored := by
  cases e with
  | matrix rows => exact absurd rfl (h rows)
  | _ => rfl

theorem restoredOfList_shown {es : List Expr} (h : ∀ e ∈ es, e.shown.restored = e.explicit) :
    Expr.restoredOfList (Expr.shownOfList es) = Expr.withFlagsOfList false es := by
  rw [Expr.restoredOfList_eq_map, Expr.shownOfList_eq_map, Expr.withFlagsOfList_eq_map, List.map_map]
  exact List.map_congr_left h

/-- A row of several entries is restored from the matrix it is shown as, and any other entry from itself. -/
theorem restored_row_shown {row : Row} (halone : ∀ inner, row ≠ .element (.matrix inner))
    (h : ∀ e ∈ row.entries, e.shown.restored = e.explicit) :
    (Row.element row.shown).restored = row.withFlags false := by
  cases row with
  | element entry =>
    rw [Row.shown, Row.restored_element_shown fun inner heq => halone inner (heq ▸ rfl), Row.withFlags]
    exact congrArg Row.element (h entry List.mem_cons_self)
  | elements entries =>
    have hentries : (Expr.shownOfList entries).map Expr.restored = Expr.withFlagsOfList false entries := by
      rw [← Expr.restoredOfList_eq_map]
      exact restoredOfList_shown h
    rw [Row.shown, Row.restored, Row.restoredEntries_map_element, hentries, Row.withFlags]

/-- A legible tree is known, up to the flags of products, from what is shown of it. -/
theorem restored_shown {e : Expr} (h : e.Legible) : e.shown.restored = e.explicit := by
  unfold Expr.explicit
  induction e using Expr.induction with
  | number text => rfl
  | symbol name => rfl
  | unary operator operand ih =>
    rw [Expr.shown, Expr.restored, Expr.withFlags, ih (Expr.forall_node_below h List.mem_cons_self)]
  | binary operator left right implicit ihl ihr =>
    rw [Expr.shown, Expr.restored, Expr.withFlags, ihl (Expr.forall_node_below h List.mem_cons_self),
      ihr (Expr.forall_node_below h (List.mem_cons_of_mem _ List.mem_cons_self)), Bool.and_false]
  | comparison operator left right ihl ihr =>
    rw [Expr.shown, Expr.restored, Expr.withFlags, ihl (Expr.forall_node_below h List.mem_cons_self),
      ihr (Expr.forall_node_below h (List.mem_cons_of_mem _ List.mem_cons_self))]
  | call name arguments ih =>
    have harguments := restoredOfList_shown fun e he => ih e he (Expr.forall_node_below h he)
    rw [Expr.shown, Expr.restored, Expr.withFlags, harguments]
  | matrix rows ih =>
    have hrow : ∀ row ∈ rows, (Row.element row.shown).restored = row.withFlags false := fun row hrow =>
      restored_row_shown (h _ .root row hrow) fun e he =>
        ih row hrow e he (Expr.forall_node_below h (Row.mem_children hrow he))
    rw [Expr.shown, Expr.restored, Expr.withFlags, Row.restoredOfList_eq_map, Row.shownOfList_eq_map,
      Row.withFlagsOfList_eq_map, List.map_map, List.map_map]
    exact congrArg Expr.matrix (List.map_congr_left hrow)
  | accessor object index iho ihi =>
    have hindex := restoredOfList_shown fun e he => ihi e he (Expr.forall_node_below h (List.mem_cons_of_mem _ he))
    rw [Expr.shown, Expr.restored, Expr.withFlags, iho (Expr.forall_node_below h List.mem_cons_self), hindex]
  | transpose operand ih =>
    rw [Expr.shown, Expr.restored, Expr.withFlags, ih (Expr.forall_node_below h List.mem_cons_self)]
  | assignment target value ih => exact (h _ .root).elim
  | boolean value => exact (h _ .root).elim
  | undefined => exact (h _ .root).elim

/-! ## Formulas -/

theorem wellFormed_of_parseFormulaWithin {limit : Nat} {source : String} {e : Expr}
    (h : parseFormulaWithin limit source = .ok e) : e.WellFormed := by
  obtain ⟨tokens, htokens, hparse⟩ := exists_tokens_of_parseFormulaWithin h
  obtain ⟨u, hu⟩ := settled_eq_ok_iff.1 hparse
  have hderives := derives_of_wholeInput hu
  refine hderives.wellFormed fun token htoken => ?_
  have hmem : token ∈ tokens := List.takeWhile_subset _ htoken
  exact (lexed_of_tokenize htokens hmem).resolve_left (hderives.kind_ne_eof token htoken)

/-- The tree of a formula, if legible, is read back from its plain text. -/
theorem read_plain_of_parseFormulaWithin {limit : Nat} {source : String} {e : Expr}
    (h : parseFormulaWithin limit source = .ok e) (hlegible : e.Legible) :
    (read e.plain).map Expr.restored = some e.explicit := by
  have hshaped := wellFormed_of_parseFormulaWithin h
  have hreads := readsAs_plain fun node hnode => ⟨hshaped node hnode, hlegible node hnode⟩
  rw [hreads.read_eq, Option.map_some, restored_shown hlegible]

/-- Two formulas whose trees are legible and have the same plain text have the same tree, up to the flags of
products. -/
theorem explicit_eq_of_plain_eq {limit limit' : Nat} {source source' : String} {e e' : Expr}
    (h : parseFormulaWithin limit source = .ok e) (h' : parseFormulaWithin limit' source' = .ok e')
    (hlegible : e.Legible) (hlegible' : e'.Legible) (hplain : e.plain = e'.plain) : e.explicit = e'.explicit := by
  have hread := read_plain_of_parseFormulaWithin h hlegible
  rw [hplain, read_plain_of_parseFormulaWithin h' hlegible'] at hread
  exact (Option.some.inj hread).symm

/-- A matrix of a row of two entries and a row of one, with its product written without a sign and with one. -/
theorem explicit_eq_of_plain_eq_matrix :
    let matrix (implicit : Bool) := Expr.matrix
      [.elements [.binary "multiply" (.number "2") (.symbol "x") implicit, .number "1"], .element (.number "3")]
    parseFormulaWithin 8 "\\begin\x7bbmatrix\x7d 2x & 1 \\\\ 3 \\end\x7bbmatrix\x7d" = .ok (matrix true) ∧
      parseFormulaWithin 8 "\\begin\x7bbmatrix\x7d 2*x & 1 \\\\ 3 \\end\x7bbmatrix\x7d" = .ok (matrix false) ∧
      (∀ implicit, (matrix implicit).Legible) ∧ (matrix true).plain = (matrix false).plain ∧
      (matrix true).explicit = (matrix false).explicit := by
  intro matrix
  have h : parseFormulaWithin 8 "\\begin\x7bbmatrix\x7d 2x & 1 \\\\ 3 \\end\x7bbmatrix\x7d" = .ok (matrix true) :=
    eq_ok_of_toOption (by decide +kernel)
  have h' : parseFormulaWithin 8 "\\begin\x7bbmatrix\x7d 2*x & 1 \\\\ 3 \\end\x7bbmatrix\x7d" = .ok (matrix false) :=
    eq_ok_of_toOption (by decide +kernel)
  have hlegible (implicit : Bool) : (matrix implicit).Legible := by
    intro node hnode
    rw [← Expr.mem_nodes_iff] at hnode
    simp only [matrix, Expr.nodes, Expr.descendants, Row.nodesOfList, Row.nodes, Expr.nodesOfList, List.mem_append,
      List.mem_cons, List.not_mem_nil, or_false] at hnode
    rcases hnode with rfl | ((rfl | rfl | rfl) | rfl) | rfl <;> simp [Expr.IsLegible]
  have hplain : (matrix true).plain = (matrix false).plain := rfl
  exact ⟨h, h', hlegible, hplain, explicit_eq_of_plain_eq h h' (hlegible _) (hlegible _) hplain⟩

end TexFormula

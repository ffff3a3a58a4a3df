import TexFormula.Proofs.Expr.Nodes
import TexFormula.Proofs.Grammar.Balance

/-!
# Words weigh what their trees weigh

A ledger says what each node of a tree weighs and what each token of a word weighs, so that the two
sides agree for every production on its own. Then they agree for whole words.

* `Ledger` : the two weights, with what each production asks of them;
* `Ledger.weigh after w` : what a word weighs when a token of kind `after` follows it;
* `Ledger.worth` : what the trees of a part of the grammar weigh, with the signs that separate them;
* `Derives.weigh_eq` : a word weighs what the trees it is read as weigh.
-/

namespace TexFormula

/-! ## Ledgers -/

/-- The signs that stand for an operation on two operands, each with the operation. -/
def signs : List (Kind × String) :=
  [(.plus, "add"), (.dash, "subtract"), (.star, "multiply"), (.cdot, "multiply"), (.times, "multiply"),
   (.slash, "divide"), (.frac, "divide"), (.caret, "pow")]

def relations : List (Kind × String) :=
  [(.equals, "equal"), (.notEquals, "unequal"), (.less, "smaller"), (.lessEquals, "smaller_eq"),
   (.greater, "larger"), (.greaterEquals, "larger_eq")]

def functions : List Kind :=
  [.sqrt, .sin, .cos, .tan, .csc, .sec, .cot, .arcsin, .arccos, .arctan, .sinh, .cosh, .tanh, .log, .ln, .det]

/-- The kinds that no ledger counts: parts of names, and what only groups. -/
def Kind.quiet : List Kind :=
  [.number, .identifier, .symbol, .transpose, .trueWord, .falseWord, .bmatrix, .question, .mathrm,
   .openParen, .closeParen, .openCurly, .closeCurly, .left, .right, .endEnv]

@[simp] def Kind.one (counted kind : Kind) : Int := if kind = counted then 1 else 0

/--
Weights of nodes and of tokens on which all productions agree. A ledger is given by its weights; what
the productions ask of them can then be computed.
-/
structure Ledger where
  node : Expr → Int
  token : Kind → Int
  /-- What an underscore weighs more if it stands right after a logarithm. -/
  base : Int := 0
  /-- What a break weighs more if it stands right before the end of a matrix. -/
  lastBreak : Int := 0
  leaf : (∀ text, node (.number text) = 0) ∧ (∀ name, node (.symbol name) = 0) ∧
    ∀ value, node (.boolean value) = 0 := by simp [Expr.typeName]
  sign : ∀ left right, ∀ entry ∈ signs, node (.binary entry.2 left right false) = token entry.1 := by
    simp [signs, multiplication_eq, Expr.typeName, Kind.isFunction, Kind.isComparison]
  product : ∀ left right, node (.product left right) = 0 := by simp [Expr.product, multiplication_eq, Expr.typeName]
  relation : ∀ left right, ∀ entry ∈ relations, node (.comparison entry.2 left right) = token entry.1 := by
    simp [relations, Expr.typeName, Kind.isFunction, Kind.isComparison, Kind.operation?]
  negate : ∀ operand, node (.negate operand) = token .dash := by
    simp [Expr.negate, Expr.typeName, Kind.isFunction, Kind.isComparison]
  transpose : ∀ operand, node (.transpose operand) = token .caret := by
    simp [Expr.typeName, Kind.isFunction, Kind.isComparison]
  assignment : ∀ target value, node (.assignment target value) = token .assign := by
    simp [Expr.typeName, Kind.isFunction, Kind.isComparison]
  accessor : ∀ object index,
    node (.accessor object index) = token .underscore + (index.length - 1) * token .comma := by
    simp [Expr.typeName, Kind.isFunction, Kind.isComparison]
  call : ∀ name arguments,
    node (.call name arguments) = token .operatorname + (arguments.length - 1) * token .comma := by
    simp [Expr.typeName, Kind.isFunction, Kind.isComparison]
  function : ∀ kind ∈ functions, token kind = token .operatorname := by
    first | decide | simp [functions, Kind.isFunction, Kind.isComparison]
  bars : 2 * token .bar = token .operatorname := by
    first | decide | simp [Kind.isFunction, Kind.isComparison]
  /-- The base of a logarithm is one more argument. -/
  logarithm : token .underscore + base = token .comma := by
    first | decide | simp [Kind.isFunction, Kind.isComparison]
  undefined : node .undefined = token .mathbf := by
    first | decide | simp [Expr.typeName, Kind.isFunction, Kind.isComparison]
  matrix : ∀ rows, node (.matrix rows) = token .beginEnv + (rows.map Row.further).sum * token .ampersand +
    (rows.length - 1) * token .rowBreak := by simp [Expr.typeName, Kind.isFunction, Kind.isComparison]
  /-- A break after the last row starts no row. -/
  closing : token .rowBreak + lastBreak = 0 := by
    first | decide | simp [Kind.isFunction, Kind.isComparison]
  quiet : ∀ kind ∈ Kind.quiet, token kind = 0 := by
    first | decide | simp [Kind.quiet, Kind.isFunction, Kind.isComparison]

/-! ## Words -/

theorem headKind?_append_eq_or (v w : List Token) : headKind? (v ++ w) = (headKind? v).or (headKind? w) := by
  cases v with
  | nil => rfl
  | cons token v => rfl

namespace Ledger
variable (L : Ledger) {after : Option Kind}

/-- What two neighbours weigh more than each on its own. -/
def joint : Kind → Option Kind → Int
  | .log, some .underscore => L.base
  | .rowBreak, some .endEnv => L.lastBreak
  | _, _ => 0

/-- What the tokens of a word weigh when a token of kind `after` follows them. -/
def weigh (after : Option Kind) : List Token → Int
  | [] => 0
  | token :: w => L.token token.kind + L.joint token.kind ((headKind? w).or after) + weigh after w

theorem joint_eq_zero {kind : Kind} {next : Option Kind} (hlog : kind = .log → next ≠ some .underscore)
    (hbreak : kind = .rowBreak → next ≠ some .endEnv) : L.joint kind next = 0 := by
  unfold joint
  split
  · exact absurd rfl (hlog rfl)
  · exact absurd rfl (hbreak rfl)
  · rfl

theorem weigh_append (v w : List Token) :
    L.weigh after (v ++ w) = L.weigh ((headKind? w).or after) v + L.weigh after w := by
  induction v with
  | nil => simp [weigh]
  | cons token v ih =>
    rw [List.cons_append, weigh, weigh, ih, headKind?_append_eq_or, Option.or_assoc]
    omega

theorem weigh_cons {token : Token} (h : token.kind ≠ .log ∧ token.kind ≠ .rowBreak) (w : List Token) :
    L.weigh after (token :: w) = L.token token.kind + L.weigh after w := by
  rw [weigh, L.joint_eq_zero (absurd · h.1) (absurd · h.2), Int.add_zero]

theorem weigh_infix {sign : Token} (h : sign.kind ≠ .log ∧ sign.kind ≠ .rowBreak) (v w : List Token) :
    L.weigh after (v ++ sign :: w) = L.weigh (some sign.kind) v + L.token sign.kind + L.weigh after w := by
  rw [weigh_append, L.weigh_cons h, headKind?_cons, Option.some_or, Int.add_assoc]

theorem weigh_eq_zero {w : List Token} (h : ∀ token ∈ w, token.kind ∈ Kind.quiet) : L.weigh after w = 0 := by
  induction w with
  | nil => rfl
  | cons token w ih =>
    obtain ⟨hk, hw⟩ := List.forall_mem_cons.1 h
    have hne : token.kind ≠ .log ∧ token.kind ≠ .rowBreak :=
      ⟨ne_of_mem_of_not_mem hk (by decide), ne_of_mem_of_not_mem hk (by decide)⟩
    rw [L.weigh_cons hne, L.quiet _ hk, ih hw]
    rfl

/-! ## Trees -/

def total (e : Expr) : Int := e.total L.node

/-- What trees weigh with the given sign between any two of them. -/
def joined (sign : Kind) (es : List Expr) : Int := (es.map L.total).sum + (es.length - 1) * L.token sign

/-- What the trees of a part of the grammar weigh, with the signs that separate them. -/
def worth : Reading → Int
  | .part _ e => L.total e
  | .list _ es | .group _ es | .argument es | .index es => L.joined .comma es
  | .row es => L.joined .ampersand es
  | .rows rows => ((rows.flatMap Row.entries).map L.total).sum + (rows.map Row.further).sum * L.token .ampersand +
      (rows.length - 1) * L.token .rowBreak

theorem total_eq (e : Expr) : L.total e = L.node e + (e.children.map L.total).sum := Expr.total_eq L.node e

variable {sign : Kind} {e l r : Expr} {es : List Expr}

theorem total_of_leaf (h : e.children = []) : L.total e = L.node e := by
  rw [total_eq, h, List.map_nil, List.sum_nil, Int.add_zero]

theorem total_of_child (h : e.children = [l]) : L.total e = L.node e + L.total l := by
  rw [total_eq, h, List.map_singleton, List.sum_singleton]

theorem total_of_children (h : e.children = [l, r]) : L.total e = L.total l + L.node e + L.total r := by
  rw [total_eq, h]
  simp only [List.map_cons, List.map_nil, List.sum_cons, List.sum_nil]
  omega

@[simp] theorem joined_singleton : L.joined sign [e] = L.total e := by
  simp [joined]

theorem joined_cons : L.joined sign (e :: es) = L.total e + L.token sign + L.joined sign es := by
  simp only [joined, List.map_cons, List.sum_cons, List.length_cons, Int.natCast_add, Int.add_mul, Int.sub_mul]
  omega

theorem joined_append : L.joined sign (es ++ [e]) = L.joined sign es + L.token sign + L.total e := by
  simp only [joined, List.map_append, List.sum_append, List.map_singleton, List.sum_singleton, List.length_append,
    List.length_singleton, Int.natCast_add, Int.add_mul, Int.sub_mul]
  omega

/-- Signs and relations in the form in which derivations have them. -/
theorem node_binary {kind : Kind} {name : String} (hk : kind ∈ signs.map Prod.fst)
    (ho : kind.operation? = some name) (l r : Expr) : L.node (.binary name l r false) = L.token kind := by
  have hmem : (kind, name) ∈ signs := by
    revert hk
    cases kind <;> cases ho <;> decide
  exact L.sign l r _ hmem

theorem node_comparison {kind : Kind} {name : String} (hk : kind.isComparison = true)
    (ho : kind.operation? = some name) (l r : Expr) : L.node (.comparison name l r) = L.token kind := by
  have hmem : (kind, name) ∈ relations := by
    cases kind <;> cases hk <;> cases ho <;> decide
  exact L.relation l r _ hmem

theorem token_function {kind : Kind} (h : kind.isFunction = true) : L.token kind = L.token .operatorname := by
  have hmem : kind ∈ functions := by
    cases kind <;> cases h <;> decide
  exact L.function kind hmem

theorem total_number (text : String) : L.total (.number text) = 0 := by
  rw [L.total_of_leaf rfl, L.leaf.1]

theorem total_symbol (name : String) : L.total (.symbol name) = 0 := by
  rw [L.total_of_leaf rfl, L.leaf.2.1]

theorem total_uprightMeaning (name : String) : L.total (uprightMeaning name) = 0 := by
  unfold uprightMeaning
  split
  · rw [L.total_of_leaf rfl, L.leaf.2.2]
  · split
    · rw [L.total_of_leaf rfl, L.leaf.2.2]
    · exact L.total_symbol name

theorem total_call (name : String) (es : List Expr) :
    L.total (.call name es) = L.token .operatorname + L.joined .comma es := by
  rw [total_eq, L.call, joined, Expr.children]
  omega

theorem total_accessor (object : Expr) (es : List Expr) :
    L.total (.accessor object es) = L.total object + L.token .underscore + L.joined .comma es := by
  rw [total_eq, L.accessor, joined, Expr.children, List.map_cons, List.sum_cons]
  omega

theorem worth_lastRow : L.worth (.rows [.ofEntries es]) = L.worth (.row es) := by
  simp [worth, joined, Row.further_ofEntries, Row.entries_ofEntries]

theorem worth_nextRow (rows : List Row) :
    L.worth (.rows (.ofEntries es :: rows)) = L.worth (.row es) + L.token .rowBreak + L.worth (.rows rows) := by
  simp only [worth, joined, List.flatMap_cons, List.map_append, List.sum_append, List.map_cons, List.sum_cons,
    Row.entries_ofEntries, Row.further_ofEntries, List.length_cons, Int.natCast_add, Int.add_mul, Int.sub_mul]
  omega

section
variable {v w : List Token} {mark : Token} {name : String}

theorem weigh_signed (hk : mark.kind ∈ signs.map Prod.fst) (ho : mark.kind.operation? = some name)
    (hv : L.weigh (some mark.kind) v = L.total l) (hw : L.weigh after w = L.total r) :
    L.weigh after (v ++ mark :: w) = L.total (.binary name l r false) := by
  rw [L.weigh_infix ⟨ne_of_mem_of_not_mem hk (by decide), ne_of_mem_of_not_mem hk (by decide)⟩, hv, hw,
    L.total_of_children (e := .binary _ _ _ _) rfl, L.node_binary hk ho]

theorem weigh_fraction (hk : mark.kind = .frac) (ho : mark.kind.operation? = some name)
    (hv : L.weigh ((headKind? w).or after) v = L.total l) (hw : L.weigh after w = L.total r) :
    L.weigh after (mark :: (v ++ w)) = L.total (.binary name l r false) := by
  rw [L.weigh_cons (by simp [hk]), weigh_append, hv, hw, L.total_of_children (e := .binary _ _ _ _) rfl,
    L.node_binary (by rw [hk]; decide) ho]
  omega

end

/-- Delimiters weigh nothing, but bars weigh a call. -/
theorem joined_enclosed {opening closing : Kind} (h : opening.closing? = some closing) (es : List Expr) :
    L.joined .comma (enclosed opening es) = L.token opening + (L.joined .comma es + L.token closing) := by
  cases opening with
  | openParen | openCurly =>
    cases h
    rw [enclosed, if_neg (by decide), L.quiet _ (by decide), L.quiet _ (by decide)]
    omega
  | bar =>
    cases h
    rw [enclosed, if_pos rfl, joined_singleton, total_call, ← L.bars]
    omega
  | _ => cases h

end Ledger

/-! ## Derivations -/

theorem kind_mem_quiet_of_isSome {token : Token} (h : token.fragment?.isSome = true) : token.kind ∈ Kind.quiet := by
  unfold Token.fragment? at h
  split at h <;> simp_all [Kind.quiet]

theorem BracedName.kind_mem_quiet {name : String} {w : List Token} (h : BracedName name w) :
    ∀ token ∈ w, token.kind ∈ Kind.quiet := by
  obtain ⟨opening, run, closing, rfl, ho, hc, hs, -, -⟩ := h
  refine List.forall_mem_cons.2 ⟨by rw [ho]; decide, List.forall_mem_append.2 ⟨fun token ht => ?_, ?_⟩⟩
  · exact kind_mem_quiet_of_isSome (hs.isSome ht)
  · exact List.forall_mem_singleton.2 (by rw [hc]; decide)

theorem kind_mem_quiet_of_map {w : List Token} {kinds : List Kind} (h : w.map Token.kind = kinds)
    (hk : kinds ⊆ Kind.quiet) : ∀ token ∈ w, token.kind ∈ Kind.quiet := by
  intro token ht
  exact hk (h ▸ List.mem_map_of_mem ht)

theorem ne_of_isComparison {kind : Kind} (h : kind.isComparison = true) : kind ≠ .log ∧ kind ≠ .rowBreak := by
  constructor
  · rintro rfl
    cases h
  · rintro rfl
    cases h

theorem ne_of_closing? {opening closing : Kind} (h : opening.closing? = some closing) :
    (opening ≠ .log ∧ opening ≠ .rowBreak) ∧ closing ≠ .log ∧ closing ≠ .rowBreak := by
  cases opening <;> cases h <;> decide

/-- What may follow the words of a part of the grammar: rows end where their matrix does. -/
def Reading.Admits (after : Option Kind) : Reading → Prop
  | .rows _ => after = some .endEnv
  | _ => True

/-- A word weighs what the trees it is read as weigh. -/
theorem Derives.weigh_eq (L : Ledger) {n : Nat} {b : Bool} {r : Reading} {w : List Token} (h : Derives n b r w)
    {after : Option Kind} (ha : r.Admits after) : L.weigh after w = L.worth r := by
  induction h generalizing after with
  | comparison _ ih | expression _ ih | term _ ih | factor _ ih | power _ ih | subscript _ ih
  | index _ _ ih | parenthesized _ _ ih | primary _ _ ih => exact ih trivial
  | value _ ih | argument _ _ ih | entry _ ih =>
    rw [ih trivial, Ledger.worth, Ledger.worth, L.joined_singleton]
  | grouping _ ih => rw [ih trivial, Ledger.worth, Ledger.worth, L.joined_singleton]
  | relation _ hk ho _ ihv ihw =>
    rw [L.weigh_infix (ne_of_isComparison hk), ihv trivial, ihw trivial, ← L.node_comparison hk ho]
    exact (L.total_of_children rfl).symm
  | sum _ hk ho _ ihv ihw =>
    exact L.weigh_signed ((by decide : [Kind.plus, .dash] ⊆ signs.map Prod.fst) hk) ho (ihv trivial) (ihw trivial)
  | times _ hk ho _ ihv ihw =>
    have hsub : [Kind.star, .cdot, .times, .slash] ⊆ signs.map Prod.fst := by decide
    exact L.weigh_signed (hsub hk) ho (ihv trivial) (ihw trivial)
  | raised _ hk ho _ _ ihv ihw =>
    exact L.weigh_signed (by rw [hk]; decide) ho (ihv trivial) (ihw trivial)
  | transposed _ hk _ ihv ihw =>
    rw [L.weigh_infix (by simp [hk]), ihv trivial, ihw trivial, hk]
    simp only [Ledger.worth, L.total_symbol, L.total_of_child (e := .transpose _) rfl, L.transpose]
    omega
  | assignment _ _ hk _ ihv ihw =>
    rw [L.weigh_infix (by simp [hk]), ihv trivial, ihw trivial, hk]
    simp only [Ledger.worth, L.total_symbol, L.total_of_child (e := .assignment _ _) rfl, L.assignment]
    omega
  | neighbours _ _ _ _ ihv ihw =>
    rw [L.weigh_append, ihv trivial, ihw trivial]
    simp only [Ledger.worth, L.total_of_children (e := .product _ _) rfl, L.product]
    omega
  | minus hk _ ih =>
    rw [L.weigh_cons (by simp [hk]), ih trivial, hk, ← L.negate]
    exact (L.total_of_child rfl).symm
  | indexed _ hk _ ihv ihw =>
    rw [L.weigh_infix (by simp [hk]), ihv trivial, ihw trivial, hk]
    exact (L.total_accessor _ _).symm
  | indexName _ hn => rw [L.weigh_eq_zero hn.kind_mem_quiet, Ledger.worth, L.joined_singleton, L.total_symbol]
  | number hk _ =>
    rw [L.weigh_eq_zero (List.forall_mem_singleton.2 (by rw [hk]; decide)), Ledger.worth, L.total_number]
  | letter hk =>
    have hquiet := (by decide : [Kind.identifier, .transpose] ⊆ Kind.quiet) hk
    rw [L.weigh_eq_zero (List.forall_mem_singleton.2 hquiet), Ledger.worth, L.total_symbol]
  | named hk _ =>
    rw [L.weigh_eq_zero (List.forall_mem_singleton.2 (by rw [hk]; decide)), Ledger.worth, L.total_symbol]
  | mathrm hk hn =>
    rw [L.weigh_eq_zero (List.forall_mem_cons.2 ⟨by rw [hk]; decide, hn.kind_mem_quiet⟩), Ledger.worth,
      L.total_uprightMeaning]
  | mathbf hw =>
    obtain ⟨token, w, rfl, hk, hw⟩ := List.map_eq_cons_iff.1 hw
    rw [L.weigh_cons (by simp [hk]), L.weigh_eq_zero (kind_mem_quiet_of_map hw (by decide)), Int.add_zero, hk,
      ← L.undefined]
    exact (L.total_of_leaf rfl).symm
  | bare ho _ ih =>
    have hne := ne_of_closing? ho
    rw [L.weigh_cons hne.1, L.weigh_infix hne.2, ih trivial, Ledger.weigh, Int.add_zero]
    exact (L.joined_enclosed ho _).symm
  | wrapped hl ho hr _ ih =>
    have hne := ne_of_closing? ho
    rw [L.weigh_cons (by simp [hl]), L.weigh_cons hne.1, L.weigh_infix (by simp [hr]), L.weigh_cons hne.2, ih trivial,
      Ledger.worth, Ledger.worth, L.joined_enclosed ho, Ledger.weigh, hl, hr, L.quiet .left (by decide),
      L.quiet .right (by decide)]
    omega
  | values _ hk _ ihv ihw | entries _ hk _ ihv ihw =>
    rw [L.weigh_infix (by simp [hk]), ihv trivial, ihw trivial, hk]
    exact L.joined_cons.symm
  | matrix ho hu _ hc hw ih =>
    rw [L.weigh_cons (by simp [ho]), L.weigh_append, L.weigh_eq_zero (kind_mem_quiet_of_map hu (by decide)),
      L.weigh_infix (by simp [hc]), L.weigh_eq_zero (kind_mem_quiet_of_map hw (by decide)),
      ih (congrArg some hc), ho, hc, L.quiet .endEnv (by decide), Ledger.worth, Ledger.worth, L.total_eq,
      L.matrix, Expr.children]
    omega
  | lastRow _ ih => rw [ih trivial, L.worth_lastRow]
  | brokenRow _ hk ih =>
    -- The break weighs nothing, since it is the end of the matrix that follows it.
    obtain rfl := ha
    have hclosing := L.closing
    rw [L.weigh_append, ih trivial, L.worth_lastRow, Ledger.weigh, hk, Ledger.weigh]
    change _ + (_ + L.lastBreak + 0) = _
    omega
  | nextRow hv hk hw ihv ihw =>
    have hnext : ∀ after, (headKind? _).or after ≠ some Kind.endEnv := fun after he => by
      rcases Option.or_eq_some_iff.1 he with he | ⟨hnone, -⟩
      · exact hw.headKind?_ne_endEnv he
      · exact hw.ne_nil (by simpa [headKind?] using hnone)
    rw [L.weigh_append, ihv trivial, Ledger.weigh, L.joint_eq_zero (by simp [hk]) fun _ => hnext _, ihw ha, hk,
      L.worth_nextRow]
    omega
  | fraction hk ho _ _ _ _ ihv ihw =>
    exact L.weigh_fraction hk ho ((ihv trivial).trans L.joined_singleton) ((ihw trivial).trans L.joined_singleton)
  | shortFraction hk ho _ _ _ _ ihv ihw =>
    exact L.weigh_fraction hk ho ((ihv trivial).trans L.joined_singleton) (ihw trivial)
  | function hk ho h ih =>
    obtain ⟨kind, hhead, hstart⟩ := h.exists_headKind?_of_argument
    rw [Ledger.weigh, hhead, L.joint_eq_zero, ih trivial, L.token_function hk, Int.add_zero]
    · exact (L.total_call _ _).symm
    · rintro _ ⟨⟩
      cases hstart
    · rintro _ ⟨⟩
      cases hstart
  | logarithm hk ho hs _ _ ihv ihw =>
    have hbase := L.logarithm
    rw [Ledger.weigh, headKind?_cons, hk, hs, L.token_function (by rfl), L.weigh_cons (by simp [hs]), L.weigh_append,
      ihv trivial, ihw trivial, hs]
    change _ + L.base + (_ + (L.total _ + L.joined .comma _)) = L.total _
    rw [L.total_call, L.joined_append]
    omega
  | operatorname hk hn _ ih =>
    rw [L.weigh_cons (by simp [hk]), L.weigh_append, L.weigh_eq_zero hn.kind_mem_quiet, ih trivial, Int.zero_add, hk]
    exact (L.total_call _ _).symm

end TexFormula

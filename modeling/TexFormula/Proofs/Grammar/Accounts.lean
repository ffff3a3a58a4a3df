import TexFormula.Proofs.Grammar.Ledger

/-!
# Nothing written is lost or counted twice

* `countPairs first second w` : how often a token of one kind stands right before one of another;
* `Ledger.sums` and the ledgers after it : one for each sort of node, with the tokens that stand for it;
* `Expr.Accounts e w` : for each of them, the nodes of `e` are as many as the tokens of `w`;
* `accounts_of_parseTokens` : the tree of an accepted stream accounts for all its tokens.
-/

namespace TexFormula

/-! ## Words as sums -/

/-- How often a token of kind `first` stands right before one of kind `second`. -/
def countPairs (first second : Kind) (w : List Token) : Nat :=
  ((w.map Token.kind).zip (w.map Token.kind).tail).count (first, second)

theorem countPairs_cons (first second : Kind) (token next : Token) (w : List Token) :
    countPairs first second (token :: next :: w) =
      countPairs first second (next :: w) + if token.kind = first ∧ next.kind = second then 1 else 0 := by
  unfold countPairs
  simp [List.count_cons]

theorem countKind_eq_countP (kind : Kind) (w : List Token) : countKind kind w = w.countP (·.kind == kind) := by
  unfold countKind List.count
  exact List.countP_map

theorem sum_map_one (kind : Kind) (w : List Token) :
    (w.map fun token => kind.one token.kind).sum = countKind kind w := by
  rw [countKind_eq_countP, ← sum_map_toInt]
  congr 2
  funext token
  simp [Kind.one, Bool.toInt]

namespace Ledger

theorem joint_eq (L : Ledger) (kind next : Kind) :
    L.joint kind (some next) = L.base * ((if kind = .log ∧ next = .underscore then 1 else 0 : Nat) : Int) +
      L.lastBreak * ((if kind = .rowBreak ∧ next = .endEnv then 1 else 0 : Nat) : Int) := by
  by_cases hlog : kind = .log ∧ next = .underscore
  · obtain ⟨rfl, rfl⟩ := hlog
    simp [joint]
  · by_cases hbreak : kind = .rowBreak ∧ next = .endEnv
    · obtain ⟨rfl, rfl⟩ := hbreak
      simp [joint]
    · rw [if_neg hlog, if_neg hbreak, L.joint_eq_zero (by simpa using hlog) (by simpa using hbreak)]
      simp

theorem weigh_eq_sum (L : Ledger) (w : List Token) :
    L.weigh none w = (w.map fun token => L.token token.kind).sum + L.base * countPairs .log .underscore w +
      L.lastBreak * countPairs .rowBreak .endEnv w := by
  induction w with
  | nil => simp [weigh, countPairs]
  | cons token w ih =>
    rw [weigh, ih, List.map_cons, List.sum_cons]
    cases w with
    | nil => simp [L.joint_eq_zero, countPairs]
    | cons next w =>
      rw [countPairs_cons, countPairs_cons, headKind?_cons, Option.some_or, joint_eq]
      simp only [Int.natCast_add, Int.mul_add]
      omega

/-! ## Ledgers for each sort of node -/

def sums : Ledger where
  node e := (e.isBinary "add").toInt
  token kind := Kind.one .plus kind

def minuses : Ledger where
  node e := (e.typeName == "Unary").toInt + (e.isBinary "subtract").toInt
  token kind := Kind.one .dash kind

def products : Ledger where
  node e := e.isSignedProduct.toInt
  token kind := Kind.one .star kind + Kind.one .cdot kind + Kind.one .times kind

def quotients : Ledger where
  node e := (e.isBinary "divide").toInt
  token kind := Kind.one .slash kind + Kind.one .frac kind

def powers : Ledger where
  node e := (e.isBinary "pow").toInt + (e.typeName == "Transpose").toInt
  token kind := Kind.one .caret kind

def comparisons (name : String) : Ledger where
  node e := (e.isRelation name).toInt
  token kind := (kind.isComparison && kind.operation? == some name).toInt

def assignments : Ledger where
  node e := (e.typeName == "Assignment").toInt
  token kind := Kind.one .assign kind

def accessors : Ledger where
  node e := (e.typeName == "Accessor").toInt
  token kind := Kind.one .underscore kind
  base := -1

/-- Calls count twice, since it takes two bars to make one. -/
def calls : Ledger where
  node e := 2 * (e.typeName == "Call").toInt
  token kind := 2 * kind.isFunction.toInt + 2 * Kind.one .operatorname kind + Kind.one .bar kind

def undefineds : Ledger where
  node e := (e.typeName == "Undefined").toInt
  token kind := Kind.one .mathbf kind

def matrices : Ledger where
  node e := (e.typeName == "Matrix").toInt
  token kind := Kind.one .beginEnv kind

def entries : Ledger where
  node := Expr.furtherEntries
  token kind := Kind.one .ampersand kind

/-- Rows; the last one may be broken too. -/
def rows : Ledger where
  node := Expr.rowCount
  token kind := Kind.one .beginEnv kind + Kind.one .rowBreak kind
  lastBreak := -1
  matrix := by
    intro rows
    simp only [Expr.rowCount, Kind.one, reduceCtorEq, if_true, if_false]
    omega

def values : Ledger where
  node := Expr.furtherValues
  token kind := Kind.one .comma kind
  base := 1

end Ledger

/-! ## Accounts -/

/-- The tree accounts for every token of the word: what stands for a token is there as often as the token. -/
structure Expr.Accounts (e : Expr) (w : List Token) : Prop where
  sums : e.count (isBinary "add") = countKind .plus w
  minuses : e.count (·.typeName == "Unary") + e.count (isBinary "subtract") = countKind .dash w
  products : e.count isSignedProduct = countKind .star w + countKind .cdot w + countKind .times w
  quotients : e.count (isBinary "divide") = countKind .slash w + countKind .frac w
  powers : e.count (isBinary "pow") + e.count (·.typeName == "Transpose") = countKind .caret w
  comparisons : ∀ kind name, kind.isComparison = true → kind.operation? = some name →
    e.count (isRelation name) = countKind kind w
  assignments : e.count (·.typeName == "Assignment") = countKind .assign w
  /-- Underscores that give the base of a logarithm stand for no index. -/
  accessors : e.count (·.typeName == "Accessor") + countPairs .log .underscore w = countKind .underscore w
  calls : e.count (·.typeName == "Call") =
    w.countP (·.kind.isFunction) + countKind .operatorname w + countKind .bar w / 2
  bars : 2 ∣ countKind .bar w
  undefineds : e.count (·.typeName == "Undefined") = countKind .mathbf w
  matrices : e.count (·.typeName == "Matrix") = countKind .beginEnv w
  entries : e.total furtherEntries = countKind .ampersand w
  /-- A break right before the end of a matrix starts no row. -/
  rows : e.total rowCount + countPairs .rowBreak .endEnv w = countKind .beginEnv w + countKind .rowBreak w
  /-- The base of a logarithm is an argument without a comma. -/
  values : e.total furtherValues = countKind .comma w + countPairs .log .underscore w

section
variable {n : Nat} {b : Bool} {p : Production} {e : Expr} {w : List Token}

theorem Derives.balance (h : Derives n b (.part p e) w) (L : Ledger) :
    e.total L.node = (w.map fun token => L.token token.kind).sum + L.base * countPairs .log .underscore w +
      L.lastBreak * countPairs .rowBreak .endEnv w := by
  rw [← L.weigh_eq_sum, h.weigh_eq L trivial]
  rfl

theorem countP_comparison {kind : Kind} {name : String} (hk : kind.isComparison = true)
    (ho : kind.operation? = some name) (w : List Token) :
    w.countP (fun token => token.kind.isComparison && token.kind.operation? == some name) = countKind kind w := by
  have hsame (other : Kind) : (other.isComparison && other.operation? == some name) = (other == kind) := by
    cases kind <;> cases hk <;> cases ho <;> cases other <;> decide
  rw [countKind_eq_countP]
  simp only [hsame]

/-- A call is written with a name, or with two bars. -/
theorem Derives.two_mul_count_call (h : Derives n b (.part p e) w) : 2 * e.count (·.typeName == "Call") =
    2 * w.countP (·.kind.isFunction) + 2 * countKind .operatorname w + countKind .bar w := by
  have hs := h.balance .calls
  simp only [Ledger.calls, Expr.total_mul, Expr.total_toInt, List.sum_map_add, List.sum_map_mul_left, sum_map_toInt,
    sum_map_one] at hs
  omega

/-- Every equation is the balance of its own ledger. -/
theorem Derives.accounts (h : Derives n b (.part p e) w) : e.Accounts w where
  sums := by
    have hs := h.balance .sums
    simp only [Ledger.sums, Expr.total_toInt, sum_map_one] at hs
    omega
  minuses := by
    have hs := h.balance .minuses
    simp only [Ledger.minuses, Expr.total_add, Expr.total_toInt, sum_map_one] at hs
    omega
  products := by
    have hs := h.balance .products
    simp only [Ledger.products, Expr.total_toInt, List.sum_map_add, sum_map_one] at hs
    omega
  quotients := by
    have hs := h.balance .quotients
    simp only [Ledger.quotients, Expr.total_toInt, List.sum_map_add, sum_map_one] at hs
    omega
  powers := by
    have hs := h.balance .powers
    simp only [Ledger.powers, Expr.total_add, Expr.total_toInt, sum_map_one] at hs
    omega
  comparisons := by
    intro kind name hk ho
    have hs := h.balance (.comparisons name)
    simp only [Ledger.comparisons, Expr.total_toInt, sum_map_toInt, countP_comparison hk ho] at hs
    omega
  assignments := by
    have hs := h.balance .assignments
    simp only [Ledger.assignments, Expr.total_toInt, sum_map_one] at hs
    omega
  accessors := by
    have hs := h.balance .accessors
    simp only [Ledger.accessors, Expr.total_toInt, sum_map_one] at hs
    omega
  calls := by
    have hs := h.two_mul_count_call
    omega
  bars := by
    have hs := h.two_mul_count_call
    omega
  undefineds := by
    have hs := h.balance .undefineds
    simp only [Ledger.undefineds, Expr.total_toInt, sum_map_one] at hs
    omega
  matrices := by
    have hs := h.balance .matrices
    simp only [Ledger.matrices, Expr.total_toInt, sum_map_one] at hs
    omega
  entries := by
    have hs := h.balance .entries
    simp only [Ledger.entries, sum_map_one] at hs
    omega
  rows := by
    have hs := h.balance .rows
    simp only [Ledger.rows, List.sum_map_add, sum_map_one] at hs
    omega
  values := by
    have hs := h.balance .values
    simp only [Ledger.values, sum_map_one] at hs
    omega

end

/-- The tree of an accepted stream accounts for the tokens before its end. -/
theorem accounts_of_parseTokens {limit : Nat} {tokens : List Token} {e : Expr} (h : parseTokens limit tokens = .ok e) :
    e.Accounts (beforeEnd tokens) := by
  obtain ⟨u, hu⟩ := settled_eq_ok_iff.1 h
  exact (derives_of_wholeInput hu).accounts

/-- The tokens of `\begin{bmatrix}\log_2|x|&-y\\\end{bmatrix}`: a base, bars and a last break. -/
theorem accounts_of_parseTokens_matrix :
    let tokens : List Token := [⟨.beginEnv, "\\begin", .ofBytes 0 6⟩, ⟨.openCurly, "\x7b", .ofBytes 6 1⟩,
      ⟨.bmatrix, "bmatrix", .ofBytes 7 7⟩, ⟨.closeCurly, "\x7d", .ofBytes 14 1⟩, ⟨.log, "\\log", .ofBytes 15 4⟩,
      ⟨.underscore, "_", .ofBytes 19 1⟩, ⟨.number, "2", .ofBytes 20 1⟩, ⟨.bar, "|", .ofBytes 21 1⟩,
      ⟨.identifier, "x", .ofBytes 22 1⟩, ⟨.bar, "|", .ofBytes 23 1⟩, ⟨.ampersand, "&", .ofBytes 24 1⟩,
      ⟨.dash, "-", .ofBytes 25 1⟩, ⟨.identifier, "y", .ofBytes 26 1⟩, ⟨.rowBreak, "\\\\", .ofBytes 27 2⟩,
      ⟨.endEnv, "\\end", .ofBytes 29 4⟩, ⟨.openCurly, "\x7b", .ofBytes 33 1⟩,
      ⟨.bmatrix, "bmatrix", .ofBytes 34 7⟩, ⟨.closeCurly, "\x7d", .ofBytes 41 1⟩]
    let tree : Expr := .matrix [.elements [.call "log" [.call "abs" [.symbol "x"], .number "2"], .negate (.symbol "y")]]
    parseTokens 8 tokens = .ok tree ∧ tree.Accounts (beforeEnd tokens) ∧
      tree.count (·.typeName == "Call") = 2 ∧ tree.total Expr.furtherValues = 1 ∧ tree.total Expr.rowCount = 1 := by
  intro tokens tree
  have h : parseTokens 8 tokens = .ok tree := eq_ok_of_toOption (by decide +kernel)
  exact ⟨h, accounts_of_parseTokens h, by decide +kernel, by decide +kernel, by decide +kernel⟩

end TexFormula

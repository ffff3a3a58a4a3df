import TexFormula.Parser.Productions

/-!
# The grammar as a relation on words of tokens

`Derives n b reading word` says that the tokens `word`, all of them, can be read as `reading`, in at
most `n` levels of nesting, where `b` tells whether the innermost delimiters around them are bare
bars. Nothing here looks at a cursor or counts steps.

* `Reading` : a part of the grammar together with what it means: a tree, a list of trees, or rows;
* `headKind?`, `lastKind?`, `OpensParenthesis` : how a word begins and ends;
* `BracedName`, `BracedRun` : names in braces, and the braces that an index reads as a name;
* `Derives.ne_nil`, `Derives.kind_ne_eof` : no word is empty or holds the end of the input.

Operators group to the left, so sums, products, powers and subscripts are left recursive. Levels are
counted where a parser has to go deeper: at each primary, at each list in parentheses that is an
index or an argument, and at the value of an assignment.
-/

namespace TexFormula

/-- A part of the grammar together with what it means. -/
inductive Reading
  | part (production : Production) (value : Expr)
  /-- What stands between delimiters: one value, or more with commas between them if `allowed`. -/
  | list (allowed : Bool) (values : List Expr)
  /-- Delimiters with what they enclose; parentheses may hold more than one value if `allowList`. -/
  | group (allowList : Bool) (values : List Expr)
  | argument (values : List Expr)
  | index (values : List Expr)
  | row (entries : List Expr)
  | rows (rows : List Row)

def Production.primaries : List Production :=
  [.number, .symbol, .mathrm, .mathbf, .grouping, .matrix, .frac, .function, .operatorname]

/-- What the first token of a primary has to be for each way to read it. -/
def Production.StartsAt (kind : Kind) : Production → Prop
  | .number => kind = .number
  | .symbol => kind ∈ [Kind.identifier, .symbol, .transpose]
  | .mathrm => kind = .mathrm
  | .mathbf => kind = .mathbf
  | .grouping => kind = .left ∨ kind.closing?.isSome = true
  | .matrix => kind = .beginEnv
  | .frac => kind = .frac
  | .function => kind.isFunction = true
  | .operatorname => kind = .operatorname
  | _ => False

/-! ## Words -/

def headKind? (word : List Token) : Option Kind := word.head?.map Token.kind

def lastKind? (word : List Token) : Option Kind := word.getLast?.map Token.kind

@[simp] theorem headKind?_nil : headKind? [] = none := rfl

@[simp] theorem headKind?_cons (token : Token) (word : List Token) :
    headKind? (token :: word) = some token.kind := rfl

/-- The kinds that start a neighbour to be multiplied; in bare bars, a bar does not. -/
def Kind.startsOperand (b : Bool) (kind : Kind) : Bool := kind.production?.isSome && !(kind == .bar && b)

/-- A word that begins with a parenthesis, with or without a `\left` before it. -/
def OpensParenthesis (word : List Token) : Prop :=
  headKind? word = some .openParen ∨ headKind? word = some .left ∧ headKind? word.tail = some .openParen

/-- The tokens `run` are letter-like, and their fragments spell `name`. -/
def Spells (run : List Token) (name : String) : Prop :=
  ∃ fragments, run.map Token.fragment? = fragments.map some ∧ name = String.join fragments

/-- A name in braces. It is not empty and starts with no number. -/
def BracedName (name : String) (word : List Token) : Prop :=
  ∃ opening run closing, word = opening :: (run ++ [closing]) ∧ opening.kind = .openCurly ∧
    closing.kind = .closeCurly ∧ Spells run name ∧ name ≠ "" ∧ headKind? run ≠ some .number

/-- Braces around two or more letter-like tokens, the first of them no number, and nothing else. -/
def BracedRun (word : List Token) : Prop :=
  ∃ opening run closing, word = opening :: (run ++ [closing]) ∧ opening.kind = .openCurly ∧
    closing.kind = .closeCurly ∧ (∃ name, Spells run name) ∧ 2 ≤ run.length ∧ headKind? run ≠ some .number

def EnvironmentName (word : List Token) : Prop :=
  word.map Token.kind = [.openCurly, .bmatrix, .closeCurly]

/-! ## Meanings -/

def uprightMeaning (name : String) : Expr :=
  if name = "True" then .boolean true else if name = "False" then .boolean false else .symbol name

/-- What delimiters make of the values they enclose: bars stand for the absolute value. -/
def enclosed (opening : Kind) (values : List Expr) : List Expr :=
  if opening = .bar then [.call "abs" values] else values

/-! ## Derivations -/

/-- The words that can be read as a part of the grammar, and what they mean. -/
inductive Derives : Nat → Bool → Reading → List Token → Prop
  | comparison {n : Nat} {b : Bool} {e : Expr} {w : List Token} :
    Derives n b (.part .expression e) w → Derives n b (.part .comparison e) w
  | relation {n : Nat} {b : Bool} {l r : Expr} {v w : List Token} {sign : Token} {name : String} :
    Derives n b (.part .expression l) v → sign.kind.isComparison = true →
    sign.kind.operation? = some name → Derives n b (.part .expression r) w →
    Derives n b (.part .comparison (.comparison name l r)) (v ++ sign :: w)
  /-- Only a symbol with nothing around it can be assigned to. -/
  | assignment {n : Nat} {b : Bool} {name : String} {e : Expr} {v w : List Token} {sign : Token} :
    Derives (n + 1) b (.part .primary (.symbol name)) v → (headKind? v).any Kind.isBareSymbol = true →
    sign.kind = .assign → Derives n b (.part .comparison e) w →
    Derives (n + 1) b (.part .comparison (.assignment name e)) (v ++ sign :: w)
  | expression {n : Nat} {b : Bool} {e : Expr} {w : List Token} :
    Derives n b (.part .term e) w → Derives n b (.part .expression e) w
  | sum {n : Nat} {b : Bool} {l r : Expr} {v w : List Token} {sign : Token} {name : String} :
    Derives n b (.part .expression l) v → sign.kind ∈ [Kind.plus, .dash] →
    sign.kind.operation? = some name → Derives n b (.part .term r) w →
    Derives n b (.part .expression (.binary name l r false)) (v ++ sign :: w)
  | term {n : Nat} {b : Bool} {e : Expr} {w : List Token} :
    Derives n b (.part .factor e) w → Derives n b (.part .term e) w
  | times {n : Nat} {b : Bool} {l r : Expr} {v w : List Token} {sign : Token} {name : String} :
    Derives n b (.part .term l) v → sign.kind ∈ [Kind.star, .cdot, .times, .slash] →
    sign.kind.operation? = some name → Derives n b (.part .factor r) w →
    Derives n b (.part .term (.binary name l r false)) (v ++ sign :: w)
  /-- Neighbours are multiplied. In bare bars a bar starts no neighbour, and a number next to a
  number is none. -/
  | neighbours {n : Nat} {b : Bool} {l r : Expr} {v w : List Token} :
    Derives n b (.part .term l) v → Derives n b (.part .power r) w →
    ¬ (b = true ∧ headKind? w = some .bar) →
    ¬ (lastKind? v = some .number ∧ headKind? w = some .number) →
    Derives n b (.part .term (.product l r)) (v ++ w)
  | factor {n : Nat} {b : Bool} {e : Expr} {w : List Token} :
    Derives n b (.part .power e) w → Derives n b (.part .factor e) w
  | minus {n : Nat} {b : Bool} {e : Expr} {w : List Token} {sign : Token} :
    sign.kind = .dash → Derives n b (.part .power e) w →
    Derives n b (.part .factor (.negate e)) (sign :: w)
  | power {n : Nat} {b : Bool} {e : Expr} {w : List Token} :
    Derives n b (.part .subscript e) w → Derives n b (.part .power e) w
  | raised {n : Nat} {b : Bool} {l r : Expr} {v w : List Token} {sign : Token} {name : String} :
    Derives n b (.part .power l) v → sign.kind = .caret → sign.kind.operation? = some name →
    Derives n b (.part .primary r) w → r ≠ .symbol "T" →
    Derives n b (.part .power (.binary name l r false)) (v ++ sign :: w)
  | transposed {n : Nat} {b : Bool} {l : Expr} {v w : List Token} {sign : Token} :
    Derives n b (.part .power l) v → sign.kind = .caret →
    Derives n b (.part .primary (.symbol "T")) w →
    Derives n b (.part .power (.transpose l)) (v ++ sign :: w)
  | subscript {n : Nat} {b : Bool} {e : Expr} {w : List Token} :
    Derives n b (.part .primary e) w → Derives n b (.part .subscript e) w
  | indexed {n : Nat} {b : Bool} {l : Expr} {es : List Expr} {v w : List Token} {sign : Token} :
    Derives n b (.part .subscript l) v → sign.kind = .underscore → Derives n b (.index es) w →
    Derives n b (.part .subscript (.accessor l es)) (v ++ sign :: w)
  | indexName {n : Nat} {b : Bool} {name : String} {w : List Token} :
    BracedRun w → BracedName name w → Derives n b (.index [.symbol name]) w
  | index {n : Nat} {b : Bool} {es : List Expr} {w : List Token} :
    ¬ BracedRun w → Derives n b (.argument es) w → Derives n b (.index es) w
  | parenthesized {n : Nat} {b : Bool} {es : List Expr} {w : List Token} :
    OpensParenthesis w → Derives n b (.group true es) w → Derives (n + 1) b (.argument es) w
  | argument {n : Nat} {b : Bool} {e : Expr} {w : List Token} :
    ¬ OpensParenthesis w → Derives n b (.part .primary e) w → Derives n b (.argument [e]) w
  | primary {n : Nat} {b : Bool} {p : Production} {e : Expr} {w : List Token} :
    p ∈ Production.primaries → Derives n b (.part p e) w → Derives (n + 1) b (.part .primary e) w
  | number {n : Nat} {b : Bool} {token : Token} :
    token.kind = .number → isDecimal token.text = true →
    Derives n b (.part .number (.number token.text)) [token]
  | letter {n : Nat} {b : Bool} {token : Token} :
    token.kind ∈ [Kind.identifier, .transpose] →
    Derives n b (.part .symbol (.symbol token.text)) [token]
  | named {n : Nat} {b : Bool} {token : Token} {name : String} :
    token.kind = .symbol → symbolName? token.text = some name →
    Derives n b (.part .symbol (.symbol name)) [token]
  | mathrm {n : Nat} {b : Bool} {token : Token} {name : String} {w : List Token} :
    token.kind = .mathrm → BracedName name w →
    Derives n b (.part .mathrm (uprightMeaning name)) (token :: w)
  | mathbf {n : Nat} {b : Bool} {w : List Token} :
    w.map Token.kind = [.mathbf, .openCurly, .question, .closeCurly] →
    Derives n b (.part .mathbf .undefined) w
  | grouping {n : Nat} {b : Bool} {e : Expr} {w : List Token} :
    Derives n b (.group false [e]) w → Derives n b (.part .grouping e) w
  /-- Delimiters on their own. Bars open here are bare. -/
  | bare {n : Nat} {b allowList : Bool} {es : List Expr} {w : List Token} {opening closing : Token} :
    opening.kind.closing? = some closing.kind →
    Derives n (opening.kind == .bar) (.list (opening.kind == .openParen && allowList) es) w →
    Derives n b (.group allowList (enclosed opening.kind es)) (opening :: (w ++ [closing]))
  /-- Delimiters that stand after `\left` and `\right`. -/
  | wrapped {n : Nat} {b allowList : Bool} {es : List Expr} {w : List Token}
      {left opening right closing : Token} :
    left.kind = .left → opening.kind.closing? = some closing.kind → right.kind = .right →
    Derives n false (.list (opening.kind == .openParen && allowList) es) w →
    Derives n b (.group allowList (enclosed opening.kind es)) (left :: opening :: (w ++ [right, closing]))
  | value {n : Nat} {b allowed : Bool} {e : Expr} {w : List Token} :
    Derives n b (.part .comparison e) w → Derives n b (.list allowed [e]) w
  | values {n : Nat} {b : Bool} {e : Expr} {es : List Expr} {v w : List Token} {comma : Token} :
    Derives n b (.part .comparison e) v → comma.kind = .comma → Derives n b (.list true es) w →
    Derives n b (.list true (e :: es)) (v ++ comma :: w)
  | matrix {n : Nat} {b : Bool} {rows : List Row} {u v w : List Token} {opening closing : Token} :
    opening.kind = .beginEnv → EnvironmentName u → Derives n false (.rows rows) v →
    closing.kind = .endEnv → EnvironmentName w →
    Derives n b (.part .matrix (.matrix rows)) (opening :: (u ++ (v ++ closing :: w)))
  | entry {n : Nat} {b : Bool} {e : Expr} {w : List Token} :
    Derives n b (.part .expression e) w → Derives n b (.row [e]) w
  | entries {n : Nat} {b : Bool} {e : Expr} {es : List Expr} {v w : List Token} {sign : Token} :
    Derives n b (.part .expression e) v → sign.kind = .ampersand → Derives n b (.row es) w →
    Derives n b (.row (e :: es)) (v ++ sign :: w)
  | lastRow {n : Nat} {b : Bool} {es : List Expr} {w : List Token} :
    Derives n b (.row es) w → Derives n b (.rows [.ofEntries es]) w
  | brokenRow {n : Nat} {b : Bool} {es : List Expr} {w : List Token} {sign : Token} :
    Derives n b (.row es) w → sign.kind = .rowBreak →
    Derives n b (.rows [.ofEntries es]) (w ++ [sign])
  | nextRow {n : Nat} {b : Bool} {es : List Expr} {rows : List Row} {v w : List Token} {sign : Token} :
    Derives n b (.row es) v → sign.kind = .rowBreak → Derives n b (.rows rows) w →
    Derives n b (.rows (.ofEntries es :: rows)) (v ++ sign :: w)
  /-- A fraction with both parts in braces, which add no level of their own. -/
  | fraction {n : Nat} {b : Bool} {l r : Expr} {v w : List Token} {sign : Token} {name : String} :
    sign.kind = .frac → sign.kind.operation? = some name →
    headKind? v = some .openCurly → Derives n b (.group false [l]) v →
    headKind? w = some .openCurly → Derives n b (.group false [r]) w →
    Derives n b (.part .frac (.binary name l r false)) (sign :: (v ++ w))
  | shortFraction {n : Nat} {b : Bool} {l r : Expr} {v w : List Token} {sign : Token} {name : String} :
    sign.kind = .frac → sign.kind.operation? = some name →
    headKind? v = some .openCurly → Derives n b (.group false [l]) v →
    headKind? w ≠ some .openCurly → Derives n b (.part .primary r) w →
    Derives n b (.part .frac (.binary name l r false)) (sign :: (v ++ w))
  | function {n : Nat} {b : Bool} {es : List Expr} {w : List Token} {token : Token} {name : String} :
    token.kind.isFunction = true → token.kind.operation? = some name → Derives n b (.argument es) w →
    Derives n b (.part .function (.call name es)) (token :: w)
  /-- The base of a logarithm comes after its other arguments. -/
  | logarithm {n : Nat} {b : Bool} {base : Expr} {es : List Expr} {v w : List Token}
      {token sign : Token} {name : String} :
    token.kind = .log → token.kind.operation? = some name → sign.kind = .underscore →
    Derives n b (.part .primary base) v → Derives n b (.argument es) w →
    Derives n b (.part .function (.call name (es ++ [base]))) (token :: sign :: (v ++ w))
  | operatorname {n : Nat} {b : Bool} {es : List Expr} {v w : List Token} {token : Token} {name : String} :
    token.kind = .operatorname → BracedName name v → Derives n b (.argument es) w →
    Derives n b (.part .operatorname (.call name es)) (token :: (v ++ w))

/-! ## First facts -/

theorem ne_nil_of_headKind? {w : List Token} {kind : Kind} (h : headKind? w = some kind) : w ≠ [] := by
  rintro rfl
  cases h

theorem Spells.isSome {run : List Token} {name : String} (h : Spells run name) {token : Token}
    (ht : token ∈ run) : token.fragment?.isSome = true := by
  obtain ⟨fragments, hf, -⟩ := h
  have hmem : token.fragment? ∈ fragments.map some := hf ▸ List.mem_map_of_mem ht
  obtain ⟨fragment, -, hs⟩ := List.mem_map.1 hmem
  rw [← hs]
  rfl

theorem kind_ne_of_isSome {token : Token} (h : token.fragment?.isSome = true) {kind : Kind}
    (hk : kind ∉ [Kind.identifier, .number, .transpose, .trueWord, .falseWord, .bmatrix, .symbol]) :
    token.kind ≠ kind := by
  rintro rfl
  unfold Token.fragment? at h
  split at h <;> simp_all

theorem BracedName.kind_ne_eof {name : String} {w : List Token} (h : BracedName name w) :
    ∀ token ∈ w, token.kind ≠ .eof := by
  obtain ⟨opening, run, closing, rfl, ho, hc, hs, -, -⟩ := h
  intro token ht
  rcases List.mem_cons.1 ht with rfl | ht
  · rw [ho]
    decide
  · rcases List.mem_append.1 ht with ht | ht
    · exact kind_ne_of_isSome (hs.isSome ht) (by decide)
    · rw [List.mem_singleton.1 ht, hc]
      decide

theorem kind_ne_of_map (kind : Kind) {w : List Token} {kinds : List Kind} (h : w.map Token.kind = kinds)
    (hk : kind ∉ kinds) : ∀ token ∈ w, token.kind ≠ kind := by
  rintro token ht rfl
  exact hk (h ▸ List.mem_map_of_mem ht)

theorem closing?_ne_eof {opening closing : Kind} (h : opening.closing? = some closing) :
    opening ≠ .eof ∧ closing ≠ .eof := by
  cases opening <;> cases h <;> decide

theorem Derives.ne_nil {n : Nat} {b : Bool} {r : Reading} {w : List Token} (h : Derives n b r w) :
    w ≠ [] := by
  induction h with
  | comparison _ ih | expression _ ih | term _ ih | factor _ ih | power _ ih | subscript _ ih
  | index _ _ ih | parenthesized _ _ ih | argument _ _ ih | primary _ _ ih | grouping _ ih
  | value _ ih | entry _ ih | lastRow _ ih => exact ih
  | indexName _ hn =>
    obtain ⟨_, _, _, rfl, -⟩ := hn
    exact List.cons_ne_nil _ _
  | mathbf hw =>
    rintro rfl
    cases hw
  | _ => simp_all

theorem kind_ne_eof_append {v w : List Token} {sign : Token} (hv : ∀ token ∈ v, token.kind ≠ .eof)
    (hs : sign.kind ≠ .eof) (hw : ∀ token ∈ w, token.kind ≠ .eof) :
    ∀ token ∈ v ++ sign :: w, token.kind ≠ .eof :=
  List.forall_mem_append.2 ⟨hv, List.forall_mem_cons.2 ⟨hs, hw⟩⟩

theorem Derives.kind_ne_eof {n : Nat} {b : Bool} {r : Reading} {w : List Token} (h : Derives n b r w) :
    ∀ token ∈ w, token.kind ≠ .eof := by
  induction h with
  | comparison _ ih | expression _ ih | term _ ih | factor _ ih | power _ ih | subscript _ ih
  | index _ _ ih | parenthesized _ _ ih | argument _ _ ih | primary _ _ ih | grouping _ ih
  | value _ ih | entry _ ih | lastRow _ ih => exact ih
  | relation _ hc _ _ ihv ihw =>
    refine kind_ne_eof_append ihv (fun he => ?_) ihw
    rw [he] at hc
    cases hc
  | sum _ hk _ _ ihv ihw | times _ hk _ _ ihv ihw =>
    refine kind_ne_eof_append ihv (fun he => ?_) ihw
    rw [he] at hk
    exact absurd hk (by decide)
  | assignment _ _ hk _ ihv ihw | raised _ hk _ _ _ ihv ihw | transposed _ hk _ ihv ihw | indexed _ hk _ ihv ihw
  | values _ hk _ ihv ihw | entries _ hk _ ihv ihw | nextRow _ hk _ ihv ihw =>
    exact kind_ne_eof_append ihv (by rw [hk]; decide) ihw
  | brokenRow _ hk ih => exact kind_ne_eof_append ih (by rw [hk]; decide) (List.forall_mem_nil _)
  | neighbours _ _ _ _ ihv ihw => exact List.forall_mem_append.2 ⟨ihv, ihw⟩
  | minus hk _ ih => exact List.forall_mem_cons.2 ⟨by rw [hk]; decide, ih⟩
  | number hk _ | named hk _ => exact List.forall_mem_singleton.2 (by rw [hk]; decide)
  | letter hk =>
    refine List.forall_mem_singleton.2 fun he => ?_
    rw [he] at hk
    exact absurd hk (by decide)
  | indexName _ hn => exact hn.kind_ne_eof
  | mathrm ht hn => exact List.forall_mem_cons.2 ⟨by rw [ht]; decide, hn.kind_ne_eof⟩
  | mathbf hw => exact kind_ne_of_map .eof hw (by decide)
  | bare ho _ ih =>
    have hne := closing?_ne_eof ho
    exact List.forall_mem_cons.2 ⟨hne.1, kind_ne_eof_append ih hne.2 (List.forall_mem_nil _)⟩
  | wrapped hl ho hr _ ih =>
    have hne := closing?_ne_eof ho
    refine List.forall_mem_cons.2 ⟨by rw [hl]; decide, List.forall_mem_cons.2 ⟨hne.1, ?_⟩⟩
    exact kind_ne_eof_append ih (by rw [hr]; decide) (List.forall_mem_singleton.2 hne.2)
  | matrix ho hu _ hc hw ih =>
    have hu := kind_ne_of_map .eof hu (by decide)
    have hw := kind_ne_of_map .eof hw (by decide)
    refine List.forall_mem_cons.2 ⟨by rw [ho]; decide, List.forall_mem_append.2 ⟨hu, ?_⟩⟩
    exact kind_ne_eof_append ih (by rw [hc]; decide) hw
  | fraction hk _ _ _ _ _ ihv ihw | shortFraction hk _ _ _ _ _ ihv ihw =>
    exact List.forall_mem_cons.2 ⟨by rw [hk]; decide, List.forall_mem_append.2 ⟨ihv, ihw⟩⟩
  | function hf _ _ ih =>
    refine List.forall_mem_cons.2 ⟨fun he => ?_, ih⟩
    rw [he] at hf
    cases hf
  | logarithm hk _ hs _ _ ihv ihw =>
    refine List.forall_mem_cons.2 ⟨by rw [hk]; decide, List.forall_mem_cons.2 ⟨by rw [hs]; decide, ?_⟩⟩
    exact List.forall_mem_append.2 ⟨ihv, ihw⟩
  | operatorname ht hn _ ih =>
    exact List.forall_mem_cons.2 ⟨by rw [ht]; decide, List.forall_mem_append.2 ⟨hn.kind_ne_eof, ih⟩⟩

/-! ## What the rules say about each kind -/

section
variable {kind : Kind}

theorem standardLevel_relational : Rules.standardLevel kind = .relational ↔ kind.isComparison = true := by
  cases kind <;> decide

theorem standardLevel_additive : Rules.standardLevel kind = .additive ↔ kind ∈ [Kind.plus, .dash] := by
  cases kind <;> decide

theorem standardLevel_multiplicative :
    Rules.standardLevel kind = .multiplicative ↔ kind ∈ [Kind.star, .cdot, .times, .slash] := by
  cases kind <;> decide

theorem standardLevel_power : Rules.standardLevel kind = .power ↔ kind = .caret := by
  cases kind <;> decide

theorem standardLevel_subscript : Rules.standardLevel kind = .subscript ↔ kind = .underscore := by
  cases kind <;> decide

theorem production?_eq_some_iff {p : Production} : kind.production? = some p ↔ p.StartsAt kind := by
  constructor
  · intro h
    cases kind <;> cases h <;> simp [Production.StartsAt, Kind.isFunction, Kind.closing?]
  · intro h
    cases p with
    | number | mathrm | mathbf | matrix | frac | operatorname =>
      cases h
      rfl
    | symbol =>
      revert h
      cases kind <;> simp [Production.StartsAt, Kind.production?]
    | grouping =>
      revert h
      cases kind <;> simp [Production.StartsAt, Kind.production?, Kind.closing?]
    | function =>
      revert h
      cases kind <;> simp [Production.StartsAt, Kind.production?, Kind.isFunction]
    | _ => cases h

theorem mem_primaries_of_production? {p : Production} (h : kind.production? = some p) : p ∈ Production.primaries := by
  cases kind <;> cases h <;> decide

end

/-! ## Readings that can be taken apart -/

section
variable {n : Nat} {b : Bool} {w : List Token}

theorem headKind?_append {v : List Token} {kind : Kind} (h : headKind? v = some kind) (w : List Token) :
    headKind? (v ++ w) = some kind := by
  obtain ⟨token, v, rfl⟩ := List.exists_cons_of_ne_nil (ne_nil_of_headKind? h)
  exact h

/-- The first token of a primary tells how it is to be read. -/
theorem Derives.bind_headKind? {p : Production} {e : Expr} (h : Derives n b (.part p e) w)
    (hp : p ∈ Production.primaries) : (headKind? w).bind Kind.production? = some p := by
  cases h with
  | number hk _ | mathrm hk _ | fraction hk _ _ _ _ _ | shortFraction hk _ _ _ _ _ | matrix hk _ _ _ _
  | operatorname hk _ _ | function hk _ _ =>
    rw [headKind?_cons, Option.bind_some]
    exact production?_eq_some_iff.2 hk
  | letter hk =>
    rw [headKind?_cons, Option.bind_some]
    revert hk
    cases Token.kind _ <;> decide
  | named hk _ | logarithm hk _ _ _ _ =>
    rw [headKind?_cons, hk]
    rfl
  | mathbf hw =>
    rw [headKind?, ← List.head?_map, hw]
    rfl
  | grouping h =>
    generalize [e] = es at h
    cases h with
    | bare ho _ =>
      rw [headKind?_cons, Option.bind_some]
      exact production?_eq_some_iff.2 (.inr (by rw [ho]; rfl))
    | wrapped hl _ _ _ =>
      rw [headKind?_cons, Option.bind_some]
      exact production?_eq_some_iff.2 (.inl hl)
  | _ => exact absurd hp (by decide)

theorem Derives.exists_headKind? {p : Production} {e : Expr} (h : Derives n b (.part p e) w)
    (hp : p = .power ∨ p = .subscript ∨ p = .primary) :
    ∃ kind, headKind? w = some kind ∧ kind.production?.isSome = true := by
  generalize hr : Reading.part p e = r at h
  induction h generalizing p e with
  | power _ ih | subscript _ ih => exact ih (by simp) rfl
  | raised _ _ _ _ _ ih _ | transposed _ _ _ ih _ | indexed _ _ _ ih _ =>
    obtain ⟨kind, hk, hs⟩ := ih (by simp) rfl
    exact ⟨kind, headKind?_append hk _, hs⟩
  | primary hq h _ =>
    obtain ⟨kind, hk, hs⟩ := Option.bind_eq_some_iff.1 (h.bind_headKind? hq)
    exact ⟨kind, hk, by rw [hs]; rfl⟩
  | _ => cases hr <;> simp at hp

theorem Derives.exists_headKind?_of_argument {es : List Expr} (h : Derives n b (.argument es) w) :
    ∃ kind, headKind? w = some kind ∧ kind.production?.isSome = true := by
  cases h with
  | parenthesized ho _ =>
    rcases ho with hw | ⟨hw, -⟩
    · exact ⟨_, hw, rfl⟩
    · exact ⟨_, hw, rfl⟩
  | argument _ h => exact h.exists_headKind? (.inr (.inr rfl))

/-- A sum that means a symbol is nothing but the symbol. -/
theorem Derives.primary_of_symbol {name : String} (h : Derives n b (.part .expression (.symbol name)) w) :
    Derives n b (.part .primary (.symbol name)) w := by
  cases h with
  | expression h =>
    cases h with
    | term h =>
      cases h with
      | factor h =>
        cases h with
        | power h =>
          cases h with
          | subscript h => exact h

theorem Derives.eq_singleton {es : List Expr} (h : Derives n b (.group false es) w) : ∃ e, es = [e] := by
  cases h with
  | bare _ h | wrapped _ _ _ h =>
    rw [Bool.and_false] at h
    cases h with
    | value _ =>
      unfold enclosed
      split
      · exact ⟨_, rfl⟩
      · exact ⟨_, rfl⟩

theorem Derives.two_le_length_of_group {allowList : Bool} {es : List Expr}
    (h : Derives n b (.group allowList es) w) : 2 ≤ w.length := by
  cases h with
  | bare _ _ => simp
  | wrapped _ _ _ _ => simp

theorem Derives.two_le_length_of_left {e : Expr} (h : Derives n b (.part .primary e) w)
    (hw : headKind? w = some .left) : 2 ≤ w.length := by
  cases h with
  | primary hp h =>
    have hb := h.bind_headKind? hp
    rw [hw] at hb
    cases hb
    cases h with
    | grouping h => exact h.two_le_length_of_group

end

end TexFormula

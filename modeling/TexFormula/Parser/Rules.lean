import TexFormula.Token.Vocabulary

/-!
# What the grammar says about each kind of token

The grammar reads an expression from its loosest operators inwards:

```text
comparison := expression ( relation expression )? | symbol ":=" comparison
expression := term ( (+|-) term )*
term       := factor ( (*|\cdot|\times|/) factor | power )*
factor     := (-)? power
power      := subscript ( ^ primary )*
subscript  := primary ( _ index )*
```

* `Level` : how tightly an operator binds;
* `Production` : the parts of the grammar, the seven above and the nine ways to read a primary;
* `Rules` : the level of each kind, the production that a kind starts, and the nesting limit;
  `Rules.standard` are those of the grammar, and `Rules.addOperator`, `Rules.addPrimary` and
  `Rules.addStandard` change a given set of rules.
-/

namespace TexFormula

/-- How tightly an operator binds, the loosest first. -/
inductive Level
  | default
  | relational | additive | multiplicative | power | subscript
  | primary
deriving DecidableEq, Repr

def Level.name : Level → String
  | default => "Default"
  | relational => "Relational"
  | additive => "Additive"
  | multiplicative => "Multiplicative"
  | power => "Power"
  | subscript => "Subscript"
  | primary => "Primary"

/-- The parts of the grammar. -/
inductive Production
  | comparison | expression | term | factor | power | subscript | primary
  | number | symbol | mathrm | mathbf | grouping | matrix | frac | function | operatorname
deriving DecidableEq, Repr

/-- The level at which the grammar reads a kind as an operator. -/
def Kind.operatorLevel : Kind → Level
  | .plus | .dash => .additive
  | .star | .cdot | .times | .slash => .multiplicative
  | .caret => .power
  | .underscore => .subscript
  | kind => if kind.isComparison then .relational else .default

/-- The production that the grammar reads from a kind on, if a primary starts with it. -/
def Kind.production? : Kind → Option Production
  | .number => some .number
  | .identifier | .symbol | .transpose => some .symbol
  | .mathrm => some .mathrm
  | .mathbf => some .mathbf
  | .openParen | .openCurly | .bar | .left => some .grouping
  | .beginEnv => some .matrix
  | .frac => some .frac
  | .operatorname => some .operatorname
  | kind => if kind.isFunction then some .function else none

/-- What a parser goes by: how each kind binds, what it starts, and how deep expressions may nest. -/
structure Rules where
  level : Kind → Level
  primary? : Kind → Option Production
  limit : Nat

def defaultLimit : Nat := 64

namespace Rules

def bare (limit : Nat) : Rules := ⟨fun _ => .default, fun _ => none, limit⟩

def addOperator (rules : Rules) (kind : Kind) (level : Level) : Rules :=
  { rules with level := fun k => if k = kind then level else rules.level k }

def addPrimary (rules : Rules) (kind : Kind) (production : Production) : Rules :=
  { rules.addOperator kind .primary with
    primary? := fun k => if k = kind then some production else rules.primary? k }

/-- The level the grammar gives a kind; a kind that starts a primary has the level for that. -/
def standardLevel (kind : Kind) : Level :=
  if kind.production?.isSome then .primary else kind.operatorLevel

/-- Lays the rules of the grammar over the given ones; kinds the grammar leaves open stay as they are. -/
def addStandard (rules : Rules) : Rules where
  level kind := if standardLevel kind = .default then rules.level kind else standardLevel kind
  primary? kind := kind.production? <|> rules.primary? kind
  limit := rules.limit

def standard (limit : Nat) : Rules := ⟨standardLevel, Kind.production?, limit⟩

def primaryKinds (rules : Rules) : List Kind := Kind.all.filter fun kind => (rules.primary? kind).isSome

theorem addStandard_bare (limit : Nat) : (bare limit).addStandard = standard limit := by
  simp only [addStandard, bare, standard, mk.injEq, and_true]
  refine ⟨funext fun kind => ?_, funext fun kind => ?_⟩
  · split <;> simp_all
  · cases kind.production? <;> rfl

end Rules

end TexFormula

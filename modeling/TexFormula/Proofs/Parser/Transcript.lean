import TexFormula.Proofs.Parser.Correspondence

/-!
# What the parser did, written down

The parser here does what the parser does and also keeps a transcript: the tokens it passed, the places at which
it multiplied neighbours, and the delimiters it took for a group that no `\left` stands before.

* `Mark` : an entry of a transcript; `Mark.word` : the tokens passed, according to a transcript; `Mark.gather` : what
  makes a group of delimiters and of what stands between them;
* `Scribe` : runs that keep a transcript, as a monad to read in; `Scribe.noting`, `Scribe.mark`, `Scribe.gathered` :
  what they write down;
* `Scribe.erase` : the run without its transcript; by `erase_wholeInput`, what is read then is what the parser reads;
* `transcribe` : the tree of a stream with its transcript; `Transcript limit tokens e marks` : a stream is accepted
  with the tree `e`, and `marks` is its transcript. By `exists_transcript_iff` all accepted streams have one.
-/

namespace TexFormula

open ParseM

/-! ## Marks -/

/-- An entry of a transcript. -/
inductive Mark
  | token (passed : Token)
  /-- Neighbours are multiplied: what was read before this place by what is read after it. -/
  | neighbours
  /-- Parentheses or bars, without `\left` and `\right`, and what was read between them. -/
  | group (opening : Token) (inside : List Mark) (closing : Token)

mutual

def Mark.tokens : Mark → List Token
  | .token passed => [passed]
  | .neighbours => []
  | .group opening inside closing => opening :: (Mark.word inside ++ [closing])

def Mark.word : List Mark → List Token
  | [] => []
  | mark :: marks => mark.tokens ++ Mark.word marks

end

namespace Mark

@[simp] theorem word_nil : word [] = [] := by rw [word]

@[simp] theorem word_cons (mark : Mark) (marks : List Mark) : word (mark :: marks) = mark.tokens ++ word marks := by
  rw [word]

@[simp] theorem tokens_token (token : Token) : (Mark.token token).tokens = [token] := by rw [tokens]

@[simp] theorem tokens_neighbours : Mark.neighbours.tokens = [] := by rw [tokens]

@[simp] theorem tokens_group (opening : Token) (inside : List Mark) (closing : Token) :
    (Mark.group opening inside closing).tokens = opening :: (word inside ++ [closing]) := by rw [tokens]

@[simp] theorem word_append (marks more : List Mark) : word (marks ++ more) = word marks ++ word more := by
  induction marks with
  | nil => rw [List.nil_append, word_nil, List.nil_append]
  | cons mark marks ih => rw [List.cons_append, word_cons, ih, word_cons, List.append_assoc]

@[simp] theorem word_map_token (w : List Token) : word (w.map Mark.token) = w := by
  induction w with
  | nil => rw [List.map_nil, word_nil]
  | cons token w ih => rw [List.map_cons, word_cons, ih, tokens_token, List.singleton_append]

/-- Puts parentheses or bars, which stand first and last, together with what is between them. -/
def gather (marks : List Mark) : List Mark :=
  match marks, marks.getLast? with
  | .token opening :: rest, some (.token closing) =>
    if opening.kind = .openParen ∨ opening.kind = .bar then [.group opening rest.dropLast closing] else marks
  | _, _ => marks

theorem gather_delimited {opening : Token} (ho : opening.kind = .openParen ∨ opening.kind = .bar) (closing : Token)
    (inside : List Mark) :
    gather (.token opening :: (inside ++ [.token closing])) = [.group opening inside closing] := by
  unfold gather
  rw [← List.cons_append, List.getLast?_append]
  simp [ho]

theorem gather_of_not {opening : Token} (ho : ¬ (opening.kind = .openParen ∨ opening.kind = .bar)) (rest : List Mark) :
    gather (.token opening :: rest) = .token opening :: rest := by
  unfold gather
  split
  · next heq _ =>
    cases heq
    rw [if_neg ho]
  · rfl

theorem word_gather (opening closing : Token) (inside : List Mark) :
    word (gather (.token opening :: (inside ++ [.token closing]))) = opening :: (word inside ++ [closing]) := by
  by_cases ho : opening.kind = .openParen ∨ opening.kind = .bar
  · rw [gather_delimited ho, word_cons, tokens_group, word_nil, List.append_nil]
  · rw [gather_of_not ho]
    simp

end Mark

/-! ## Runs that keep a transcript -/

/-- A run of the parser that also returns what it wrote down. -/
def Scribe (α : Type) : Type := ParseM (α × List Mark)

namespace Scribe

variable {α β : Type}

instance : Monad Scribe where
  pure a := (pure (a, []) : ParseM _)
  bind m f := (do
    let (a, first) ← (m : ParseM _)
    let (b, rest) ← (f a : ParseM _)
    return (b, first ++ rest) : ParseM _)

def erase (m : Scribe α) : ParseM α := do return (← (m : ParseM (α × List Mark))).1

def noting (m : ParseM α) : Scribe α := fun s =>
  match m s with
  | .ok a t => .ok (a, (t.cursor.passed.reverse.drop s.cursor.passed.length).map .token) t
  | .error halt t => .error halt t

def mark (mark : Mark) : Scribe Unit := (pure ((), [mark]) : ParseM _)

def deeper (limit : Nat) (m : Scribe α) : Scribe α := ParseM.nested limit m

def barred (bars : Nat → Nat) (m : Scribe α) : Scribe α := ParseM.withBars bars m

/-- Puts the delimiters that a run passes first and last together with what is between them. -/
def gathered (m : Scribe α) : Scribe α := fun s =>
  match m s with
  | .ok (a, marks) t => .ok (a, Mark.gather marks) t
  | .error halt t => .error halt t

/-! ### Leaving the transcript out -/

theorem erase_bind (m : Scribe α) (f : α → Scribe β) : erase (m >>= f) = erase m >>= fun a => erase (f a) := by
  funext s
  show EStateM.bind (EStateM.bind m _) _ s = EStateM.bind (EStateM.bind m _) _ s
  unfold EStateM.bind
  cases m s with
  | error halt t => rfl
  | ok result t =>
    obtain ⟨a, first⟩ := result
    show EStateM.bind (EStateM.bind (f a) _) _ t = EStateM.bind (f a) _ t
    unfold EStateM.bind
    cases f a t with
    | error halt u => rfl
    | ok result u => rfl

theorem erase_noting (m : ParseM α) : erase (noting m) = m := by
  funext s
  show EStateM.bind (noting m) _ s = m s
  unfold EStateM.bind noting
  cases m s with
  | error halt t => rfl
  | ok a t => rfl

theorem erase_deeper (limit : Nat) (m : Scribe α) : erase (deeper limit m) = nested limit (erase m) := by
  have hrun (m : ParseM (α × List Mark)) :
      (do return (← nested limit m).1 : ParseM α) = nested limit (do return (← m).1) := by
    unfold ParseM.nested
    simp only [bind_assoc, pure_bind]
  exact hrun m

theorem erase_barred (bars : Nat → Nat) (m : Scribe α) : erase (barred bars m) = withBars bars (erase m) := by
  have hrun (m : ParseM (α × List Mark)) :
      (do return (← withBars bars m).1 : ParseM α) = withBars bars (do return (← m).1) := by
    unfold ParseM.withBars
    simp only [bind_assoc, pure_bind]
  exact hrun m

theorem erase_eq_ok_iff {m : Scribe α} {a : α} {s t : ParserState} :
    erase m s = .ok a t ↔ ∃ marks, m s = .ok (a, marks) t := by
  show EStateM.bind m _ s = _ ↔ _
  unfold EStateM.bind
  cases m s with
  | error halt u => simp
  | ok result u =>
    obtain ⟨b, marks⟩ := result
    constructor
    · intro h
      cases h
      exact ⟨marks, rfl⟩
    · rintro ⟨marks', h⟩
      cases h
      rfl

theorem erase_gathered (m : Scribe α) : erase (gathered m) = erase m := by
  funext s
  show EStateM.bind (gathered m) _ s = EStateM.bind m _ s
  unfold EStateM.bind gathered
  cases m s with
  | error halt t => rfl
  | ok result t => rfl

end Scribe

/-! ## The parser that keeps a transcript -/

/-- The tokens passed are written down, and what is read in its own way is marked. -/
instance : MonadLiftT ParseM Scribe := ⟨Scribe.noting⟩

instance : Interpretation Scribe where
  deeper := Scribe.deeper
  barred := Scribe.barred
  neighbour inner := do
    Scribe.mark .neighbours
    inner
  delimited := Scribe.gathered
  noOperation token := Scribe.noting (Interpretation.noOperation token)
  noNumber token := Scribe.noting (Interpretation.noNumber token)
  noSymbol token := Scribe.noting (Interpretation.noSymbol token)
  noValue := Scribe.noting Interpretation.noValue

/-- A run that is another one when its transcript is left out ends as that one does. -/
theorem Scribe.mirrors_erase {α β : Type} {V : α → β → Prop} {m : Scribe α} {x : ParseM α} {y : ParseM β}
    (he : m.erase = x) (h : Mirrors Eq Eq V x y) : Mirrors Eq Eq V m.erase y := by
  rw [he]
  exact h

def erasing (rules : Rules) : Correspondence views_eq.mirrors Scribe ParseM rules rules where
  Rel V m m' := Mirrors Eq Eq V m.erase m'
  Turns := Eq
  grammar := .refl rules
  pure h := views_eq.mirrors.pure h
  bind hm hf := Scribe.mirrors_erase (Scribe.erase_bind _ _) (hm.bind hf)
  lift h := Scribe.mirrors_erase (Scribe.erase_noting _) h
  turns_succ := @exists_pred_of_eq
  exhausted h hzero := by
    rw [hzero h.symm]
    exact Scribe.mirrors_erase (Scribe.erase_noting _) fun _ _ hs => .exhausted hs
  deeper h := Scribe.mirrors_erase (Scribe.erase_deeper _ _) (views_eq.mirrors_nested _ h)
  barred bars _ _ h := Scribe.mirrors_erase (Scribe.erase_barred _ _) (views_eq.mirrors_withBars bars h)
  neighbour h := Scribe.mirrors_erase (Scribe.erase_bind _ _) h
  delimited h := Scribe.mirrors_erase (Scribe.erase_gathered _) h
  noOperation ht := Scribe.mirrors_erase (Scribe.erase_noting _) (views_eq.mirrors.unexpectedToken ht)
  noNumber ht := Scribe.mirrors_erase (Scribe.erase_noting _) (views_eq.mirrors.unexpectedToken ht)
  noSymbol ht := Scribe.mirrors_erase (Scribe.erase_noting _) (views_eq.mirrors.unexpectedToken ht)
  noValue := Scribe.mirrors_erase (Scribe.erase_noting _) views_eq.mirrors.unexpected

theorem erase_production (rules : Rules) (steps : Nat) (p : Production) :
    Scribe.erase (Read.production rules steps p) = p.read rules steps :=
  (mirrors_eq_iff.1 ((erasing rules).production rfl p)).symm

/-- Without its transcript this is the parser itself. -/
theorem erase_wholeInput (rules : Rules) : Scribe.erase (Read.wholeInput rules) = wholeInput rules := by
  refine (mirrors_eq_iff.1 ((erasing rules).wholeInput ((erasing rules).run .comparison ?_))).symm
  rintro s _ rfl
  rfl

/-! ## Transcripts -/

/-- The tree of a stream and how the stream was read, if it is accepted. -/
def transcribe (limit : Nat) (tokens : List Token) : Option (Expr × List Mark) :=
  match Read.wholeInput (m := Scribe) (.standard limit) (.ofTokens tokens) with
  | .ok result _ => some result
  | .error _ _ => none

/-- The stream is accepted with the given tree, and this is how it was read. -/
def Transcript (limit : Nat) (tokens : List Token) (e : Expr) (marks : List Mark) : Prop :=
  transcribe limit tokens = some (e, marks)

theorem transcript_iff {limit : Nat} {tokens : List Token} {e : Expr} {marks : List Mark} :
    Transcript limit tokens e marks ↔
      ∃ t, Read.wholeInput (m := Scribe) (.standard limit) (.ofTokens tokens) = .ok (e, marks) t := by
  unfold Transcript transcribe
  cases Read.wholeInput (m := Scribe) (.standard limit) (.ofTokens tokens) with
  | error halt t => simp
  | ok result t => simp

theorem exists_transcript_iff {limit : Nat} {tokens : List Token} {e : Expr} :
    (∃ marks, Transcript limit tokens e marks) ↔ parseTokens limit tokens = .ok e := by
  unfold parseTokens
  rw [settled_eq_ok_iff, ← erase_wholeInput]
  simp only [transcript_iff, Scribe.erase_eq_ok_iff]
  exact exists_comm

end TexFormula

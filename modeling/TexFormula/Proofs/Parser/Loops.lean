import TexFormula.Proofs.Parser.Likeness
import TexFormula.Proofs.Parser.Operations
import TexFormula.Proofs.Parser.Steps

/-!
# Every turn of a loop passes a token

* `Cursor.Nearer` : one cursor is in the same stream as another and further on, so that it is nearer to the end;
* `repeating turn` : a loop that takes one turn after the other until a turn says that it is done;
* `Read.sumTurn`, `Read.productTurn` and so on : one turn of each loop of the grammar;
* `Advances loop turn` : the loop repeats the turn, and every turn after which it goes on comes nearer to the end;
* `LoopsAdvance` : this for all loops, and for the two that go over the letter-like tokens of a name.

A turn mostly begins by passing an operator, which is never the end of the input. The one that does not is the
turn that multiplies neighbours: there the factor itself is what is passed.
-/

namespace TexFormula

open ParseM

/-! ## Coming nearer to the end -/

namespace Cursor

/-- The second cursor is in the same stream as the first, has passed more of it, and is nearer to its end. -/
structure Nearer (c d : Cursor) : Prop where
  tokens : d.tokens = c.tokens
  index : c.index < d.index
  distance : d.distance < c.distance

section
variable {c d e : Cursor}

/-- Whatever is passed is taken from what was before the end. -/
theorem Leads.index_add_distance (h : c.Leads d) : d.index + d.distance = c.index + c.distance := by
  refine h.keeps (P := fun d => d.index + d.distance = c.index + c.distance) (fun d hd => ?_) rfl
  by_cases hk : d.current.kind = .eof
  · rw [advance_of_eof hk]
    exact hd
  · have hdistance := distance_advance hk
    unfold index at hd ⊢
    rw [passed_advance hk, List.length_cons]
    omega

theorem Leads.tokens_eq (h : c.Leads d) : d.tokens = c.tokens :=
  h.keeps (P := fun d => d.tokens = c.tokens) (fun d hd => d.tokens_advance.trans hd) rfl

theorem Leads.nearer (h : c.Leads d) (hd : d.distance < c.distance) : c.Nearer d := by
  have hsum := h.index_add_distance
  exact ⟨h.tokens_eq, by omega, hd⟩

theorem index_add_length_ahead (h : d.tokens = c.tokens) :
    d.index + d.ahead.length = c.index + c.ahead.length := by
  have hlength := congrArg List.length h
  simp only [tokens, List.length_append, List.length_reverse, List.length_singleton] at hlength
  unfold index
  omega

theorem Leads.nearer_of_length (h : c.Leads d) (hd : d.ahead.length < c.ahead.length) : c.Nearer d := by
  have hlength := index_add_length_ahead h.tokens_eq
  have hsum := h.index_add_distance
  exact h.nearer (by omega)

theorem nearer_advance (h : c.current.kind ≠ .eof) : c.Nearer c.advance := by
  have hd := distance_advance h
  exact c.leads_advance.nearer (by omega)

theorem Nearer.leads (h : c.Nearer d) (hd : d.Leads e) : c.Nearer e := by
  have hsum := hd.index_add_distance
  have hindex := hd.index_le
  have h₁ := h.index
  have h₂ := h.distance
  exact ⟨hd.tokens_eq.trans h.tokens, by omega, by omega⟩

theorem Leads.trans_nearer (h : c.Leads d) (hd : d.Nearer e) : c.Nearer e := by
  have hsum := h.index_add_distance
  have hindex := h.index_le
  have h₁ := hd.index
  have h₂ := hd.distance
  exact ⟨hd.tokens.trans h.tokens_eq, by omega, by omega⟩

end

end Cursor

/-! ## Loops as turns -/

/--
Takes one turn after the other, at most `steps` of them. A turn ends with `done`, or with `yield` if the loop is
to go on.
-/
def repeating {α : Type} (turn : Nat → α → ParseM (ForInStep α)) : Nat → α → ParseM α
  | 0, _ => throw .exhausted
  | steps + 1, value => do
    match ← turn steps value with
    | .done result => return result
    | .yield next => repeating turn steps next

namespace Read

section
variable (rules : Rules) (again : Production → ParseM Expr)

def sumTurn (left : Expr) : ParseM (ForInStep Expr) := do
  if (← get).level rules = .additive then
    let operator ← advance
    let right ← again .term
    return .yield (Expr.binary (← operationOf operator) left right false)
  else return .done left

def productTurn (left : Expr) : ParseM (ForInStep Expr) := do
  if (← get).level rules = .multiplicative then
    let operator ← advance
    let right ← again .factor
    return .yield (Expr.binary (← operationOf operator) left right false)
  else if (← get).atImplicitOperand rules then
    refuseSecondNumber
    let right ← again .power
    return .yield (.product left right)
  else return .done left

def powerTurn (left : Expr) : ParseM (ForInStep Expr) := do
  if (← get).level rules = .power then
    let operator ← advance
    let exponent ← again .primary
    return .yield (← raise operator left exponent)
  else return .done left

def subscriptTurn (steps : Nat) (left : Expr) : ParseM (ForInStep Expr) := do
  if (← get).level rules = .subscript then
    let _ ← advance
    return .yield (.accessor left (← index rules again steps))
  else return .done left

def listTurn (allowed : Bool) (values : List Expr) : ParseM (ForInStep (List Expr)) := do
  let token ← current
  if token.kind = .comma then
    refuseIf (!allowed) (.unexpectedList token.text) token
    let _ ← advance
    let value ← again .comparison
    return .yield (values ++ [value])
  else return .done values

def rowTurn (entries : List Expr) : ParseM (ForInStep (List Expr)) := do
  if (← currentKind) = .ampersand then
    let _ ← advance
    let entry ← again .expression
    return .yield (entries ++ [entry])
  else return .done entries

/-- One more row of a matrix; after the last one the loop is done, with or without a row break. -/
def rowsTurn (opening : Token) (steps : Nat) (before : List Row) : ParseM (ForInStep (List Row)) := do
  let next ← row again steps
  match ← currentKind with
  | .endEnv => return .done (before ++ [next])
  | .rowBreak =>
    let _ ← advance
    if (← currentKind) = .endEnv then return .done (before ++ [next])
    else return .yield (before ++ [next])
  | _ => rejectHere (.unmatchedDelimiter opening.text Kind.endEnv.spelling (← current).text)

end

end Read

/-- The loop repeats the turn, and every turn after which it goes on comes nearer to the end. -/
structure Advances {α : Type} (loop : Nat → α → ParseM α) (turn : Nat → α → ParseM (ForInStep α)) : Prop where
  eq_repeating (steps : Nat) (value : α) : loop steps value = repeating turn steps value
  nearer {steps : Nat} {value next : α} {s t : ParserState} :
    turn steps value s = .ok (.yield next) t → s.cursor.Nearer t.cursor

/-! ### What the loops of the grammar repeat -/

section
variable (rules : Rules) (again : Production → ParseM Expr)

theorem sumTail_eq_repeating (steps : Nat) (left : Expr) :
    Read.sumTail rules again steps left = repeating (fun _ => Read.sumTurn rules again) steps left := by
  induction steps generalizing left with
  | zero => rfl
  | succ steps ih =>
    unfold Read.sumTail repeating
    generalize repeating _ steps = rest at ih ⊢
    unfold Read.sumTurn
    rw [bind_assoc]
    refine bind_congr fun s => ?_
    split
    · simp only [bind_assoc, pure_bind, ih]
      rfl
    · rw [pure_bind]

theorem productTail_eq_repeating (steps : Nat) (left : Expr) :
    Read.productTail rules again steps left = repeating (fun _ => Read.productTurn rules again) steps left := by
  induction steps generalizing left with
  | zero => rfl
  | succ steps ih =>
    unfold Read.productTail repeating
    generalize repeating _ steps = rest at ih ⊢
    unfold Read.productTurn
    rw [bind_assoc]
    refine bind_congr fun s => ?_
    split
    · simp only [bind_assoc, pure_bind, ih]
      rfl
    · rw [bind_assoc]
      refine bind_congr fun s => ?_
      split
      · simp only [bind_assoc, pure_bind, ih]
        rfl
      · rw [pure_bind]

theorem powerTail_eq_repeating (steps : Nat) (left : Expr) :
    Read.powerTail rules again steps left = repeating (fun _ => Read.powerTurn rules again) steps left := by
  induction steps generalizing left with
  | zero => rfl
  | succ steps ih =>
    unfold Read.powerTail repeating
    generalize repeating _ steps = rest at ih ⊢
    unfold Read.powerTurn
    rw [bind_assoc]
    refine bind_congr fun s => ?_
    split
    · simp only [bind_assoc, pure_bind, ih]
      rfl
    · rw [pure_bind]

theorem subscriptTail_eq_repeating (steps : Nat) (left : Expr) :
    Read.subscriptTail rules again steps left = repeating (Read.subscriptTurn rules again) steps left := by
  induction steps generalizing left with
  | zero => rfl
  | succ steps ih =>
    unfold Read.subscriptTail repeating
    generalize repeating _ steps = rest at ih ⊢
    unfold Read.subscriptTurn
    rw [bind_assoc]
    refine bind_congr fun s => ?_
    split
    · simp only [bind_assoc, pure_bind, ih]
      rfl
    · rw [pure_bind]

/-- A list is read from the front; repeating keeps the values that were read. -/
theorem listTail_eq_repeating (allowed : Bool) (steps : Nat) (values : List Expr) :
    (values ++ ·) <$> Read.listTail again allowed steps =
      repeating (fun _ => Read.listTurn again allowed) steps values := by
  induction steps generalizing values with
  | zero => rfl
  | succ steps ih =>
    unfold Read.listTail repeating
    generalize repeating _ steps = rest at ih ⊢
    unfold Read.listTurn
    rw [bind_assoc, map_bind]
    refine bind_congr fun token => ?_
    split
    · simp only [bind_assoc, pure_bind, map_eq_pure_bind, ← ih, List.append_assoc, List.singleton_append]
      rfl
    · simp only [pure_bind, map_pure, List.append_nil]

theorem rowTail_eq_repeating (steps : Nat) (entries : List Expr) :
    (entries ++ ·) <$> Read.rowTail again steps = repeating (fun _ => Read.rowTurn again) steps entries := by
  induction steps generalizing entries with
  | zero => rfl
  | succ steps ih =>
    unfold Read.rowTail repeating
    generalize repeating _ steps = rest at ih ⊢
    unfold Read.rowTurn
    rw [bind_assoc, map_bind]
    refine bind_congr fun kind => ?_
    split
    · simp only [bind_assoc, pure_bind, map_eq_pure_bind, ← ih, List.append_assoc, List.singleton_append]
      rfl
    · simp only [pure_bind, map_pure, List.append_nil]

theorem rows_eq_repeating (opening : Token) (steps : Nat) (before : List Row) :
    (before ++ ·) <$> Read.rows again opening steps = repeating (Read.rowsTurn again opening) steps before := by
  induction steps generalizing before with
  | zero => rfl
  | succ steps ih =>
    unfold Read.rows repeating
    generalize repeating _ steps = rest at ih ⊢
    unfold Read.rowsTurn
    rw [bind_assoc, map_bind]
    refine bind_congr fun next => ?_
    rw [bind_assoc, map_bind]
    refine bind_congr fun kind => ?_
    cases kind with
    | endEnv => simp only [pure_bind, map_pure]
    | rowBreak =>
      rw [bind_assoc, map_bind]
      refine bind_congr fun _ => ?_
      rw [bind_assoc, map_bind]
      refine bind_congr fun kind => ?_
      split
      · simp only [pure_bind, map_pure]
      · simp only [bind_assoc, pure_bind, map_eq_pure_bind, ← ih, List.append_assoc, List.singleton_append]
    | _ => rfl

end

/-! ### Turns that come nearer to the end -/

section
variable {α : Type} (limit : Nat) {s t : ParserState}

theorem leads_of_ok {m : ParseM α} (hm : Confined limit m) {a : α} (h : m s = .ok a t) : s.cursor.Leads t.cursor := by
  have hwalks := hm s
  rw [h] at hwalks
  exact hwalks.leads

/-- Whatever comes after it, passing a token that is no end brings the parser nearer to the end. -/
theorem nearer_of_advance {f : Token → ParseM α} (hf : ∀ token, Confined limit (f token))
    (hk : s.cursor.current.kind ≠ .eof) {a : α} (h : (advance >>= f) s = .ok a t) : s.cursor.Nearer t.cursor := by
  obtain ⟨token, u, hu, ha⟩ := bind_eq_ok_iff.1 h
  cases hu
  exact (Cursor.nearer_advance hk).leads (leads_of_ok limit (hf _) ha)

theorem nearer_of_level {level : Level} (hl : level ≠ .default) {value next : α} {f : Token → ParseM (ForInStep α)}
    (hf : ∀ token, Confined limit (f token))
    (h : (get >>= fun s => if ParserState.level s (.standard limit) = level then advance >>= f
      else pure (.done value) : ParseM (ForInStep α)) s = .ok (.yield next) t) : s.cursor.Nearer t.cursor := by
  change (if s.level (.standard limit) = level then _ else _ : ParseM (ForInStep α)) s = _ at h
  split at h
  · next hs => exact nearer_of_advance limit hf ((Rules.grounded_standard limit).ne_eof_of_level hs hl) h
  · cases h

/-- Only running out of steps is excused, at one and the same limit. -/
theorem widens_exhausted (limit : Nat) : Widens (· = .exhausted) limit limit :=
  ⟨Nat.le_refl _, rfl, fun hlt => absurd hlt (Nat.lt_irrefl _)⟩

/-- Whatever stands above the ways to read a primary passes a token, in however many steps it is read. -/
theorem nearer_of_read {p : Production} (hp : p.rank ≠ 1) {steps : Nat} {e : Expr}
    (h : p.read (.standard limit) steps s = .ok e t) : s.cursor.Nearer t.cursor := by
  have huses := reaches_read (Rules.grounded_standard limit) (max steps (8 * s.remaining + p.rank)) p s
    (fun hr => absurd hr hp) (Nat.le_max_right _ _)
  have hread : p.read (.standard limit) (max steps (8 * s.remaining + p.rank)) s = .ok e t := by
    rcases agrees_read (widens_exhausted limit) (Nat.le_max_left steps (8 * s.remaining + p.rank)) p s with ⟨halt, u, he, -⟩ | heq
    · rw [h] at he
      cases he
    · rw [heq, h]
  unfold Uses at huses
  rw [hread] at huses
  exact (leads_of_ok limit (confined_read (.standard limit) steps p) h).nearer_of_length huses

end

/-! ### Letter-like tokens -/

namespace Cursor

variable {c : Cursor}

theorem fragments_zero_cases (c : Cursor) : c.current.fragment? = none ∧ c.fragments 0 = [] ∨
    c.current.fragment?.isSome = true ∧ c.current.kind ≠ .eof ∧
      (c.fragments 0).length = (c.advance.fragments 0).length + 1 := by
  by_cases hk : c.current.kind = .eof
  · left
    have hnone : c.current.fragment? = none := by
      unfold Token.fragment?
      rw [hk]
    rw [fragments_zero, horizon_of_eof hk, fragmentRun, hnone]
    exact ⟨rfl, rfl⟩
  · rw [fragments, List.drop_zero, ahead_eq_cons hk, fragmentRun]
    cases hf : c.current.fragment? with
    | none => exact .inl ⟨rfl, rfl⟩
    | some fragment => exact .inr ⟨rfl, hk, rfl⟩

theorem nearer_of_lt_fragments {i : Nat} (h : i < (c.fragments 0).length) :
    (c.advanceBy i).Nearer (c.advanceBy (i + 1)) := by
  induction i generalizing c with
  | zero =>
    rcases c.fragments_zero_cases with ⟨-, hnil⟩ | ⟨-, hk, -⟩
    · rw [hnil] at h
      cases h
    · exact nearer_advance hk
  | succ i ih =>
    rcases c.fragments_zero_cases with ⟨-, hnil⟩ | ⟨-, -, hlength⟩
    · rw [hnil] at h
      cases h
    · exact ih (c := c.advance) (by omega)

theorem current_ne_eof_of_lt {n : Nat} (h : n < c.distance) : c.current.kind ≠ .eof := by
  intro hk
  rw [distance, beforeEnd_of_current hk] at h
  cases h

/-- A look ahead over letter-like tokens stays before the end. -/
theorem lookahead_lt {n i : Nat} (hn : n ≤ c.distance) (h : i < (c.fragments n).length) :
    (c.peek (n + i)).fragment?.isSome = true ∧ n + i < c.distance := by
  induction n generalizing c with
  | zero =>
    rw [Nat.zero_add]
    induction i generalizing c with
    | zero =>
      rcases c.fragments_zero_cases with ⟨-, hnil⟩ | ⟨hf, hk, -⟩
      · rw [hnil] at h
        cases h
      · exact ⟨hf, distance_pos hk⟩
    | succ i ih =>
      rcases c.fragments_zero_cases with ⟨-, hnil⟩ | ⟨-, hk, hlength⟩
      · rw [hnil] at h
        cases h
      · have hdistance := distance_advance hk
        obtain ⟨hf, hlt⟩ := ih (c := c.advance) (Nat.zero_le _) (by omega)
        rw [peek_succ hk]
        exact ⟨hf, by omega⟩
  | succ n ih =>
    have hk := current_ne_eof_of_lt hn
    have hdistance := distance_advance hk
    rw [fragments_succ hk] at h
    obtain ⟨hf, hlt⟩ := ih (by omega) h
    rw [Nat.succ_add, peek_succ hk]
    exact ⟨hf, by omega⟩

theorem lookahead_end {n : Nat} (hn : n ≤ c.distance) : (c.peek (n + (c.fragments n).length)).fragment? = none := by
  induction n generalizing c with
  | zero =>
    rw [Nat.zero_add]
    generalize hi : (c.fragments 0).length = i
    induction i generalizing c with
    | zero =>
      rcases c.fragments_zero_cases with ⟨hf, -⟩ | ⟨-, -, hlength⟩
      · exact hf
      · omega
    | succ i ih =>
      rcases c.fragments_zero_cases with ⟨-, hnil⟩ | ⟨-, hk, hlength⟩
      · rw [hnil] at hi
        cases hi
      · rw [peek_succ hk]
        exact ih (Nat.zero_le _) (by omega)
  | succ n ih =>
    have hk := current_ne_eof_of_lt hn
    have hdistance := distance_advance hk
    rw [fragments_succ hk, Nat.succ_add, peek_succ hk]
    exact ih (by omega)

end Cursor

/-! ### All loops -/

/--
Every loop of the grammar comes nearer to the end with each turn after which it goes on. The look ahead over a
name, from the place `n` on, does so one token at a time and stays before the end; so does the loop that passes
the tokens of a name.
-/
structure LoopsAdvance (limit : Nat) (again : Production → ParseM Expr) : Prop where
  sum : Advances (Read.sumTail (.standard limit) again) fun _ => Read.sumTurn (.standard limit) again
  product : Advances (Read.productTail (.standard limit) again) fun _ => Read.productTurn (.standard limit) again
  power : Advances (Read.powerTail (.standard limit) again) fun _ => Read.powerTurn (.standard limit) again
  subscript : Advances (Read.subscriptTail (.standard limit) again) (Read.subscriptTurn (.standard limit) again)
  list (allowed : Bool) : Advances (fun steps values => (values ++ ·) <$> Read.listTail again allowed steps)
    fun _ => Read.listTurn again allowed
  row : Advances (fun steps entries => (entries ++ ·) <$> Read.rowTail again steps) fun _ => Read.rowTurn again
  rows (opening : Token) : Advances (fun steps before => (before ++ ·) <$> Read.rows again opening steps)
    (Read.rowsTurn again opening)
  lookahead {c : Cursor} {n i : Nat} : n ≤ c.distance → i < (c.fragments n).length →
    (c.peek (n + i)).fragment?.isSome = true ∧ n + i < c.distance
  lookahead_end {c : Cursor} {n : Nat} : n ≤ c.distance →
    (c.peek (n + (c.fragments n).length)).fragment? = none
  name {c : Cursor} {i : Nat} : i < (c.fragments 0).length → (c.advanceBy i).Nearer (c.advanceBy (i + 1))

section
variable {limit : Nat} {again : Production → ParseM Expr}

theorem confined_operationOf (token : Token) : Confined limit (operationOf token) :=
  confined_of_rel (.standard limit) ((course_walks limit).readings.operationOf rfl)

theorem confined_refuseSecondNumber : Confined limit Read.refuseSecondNumber :=
  confined_of_rel (.standard limit) (course_walks limit).steps.refuseSecondNumber

theorem advances_sum (h : ∀ p, Confined limit (again p)) :
    Advances (Read.sumTail (.standard limit) again) fun _ => Read.sumTurn (.standard limit) again := by
  refine ⟨sumTail_eq_repeating _ again, fun ht => nearer_of_level limit (by decide) (fun operator => ?_) ht⟩
  exact (h .term).bind fun right => (confined_operationOf operator).bind fun name => confined_pure _

/-- Neighbours have no sign between them: there it is the factor that is passed. -/
theorem advances_product (h : ∀ p, Confined limit (again p))
    (hpower : ∀ {e s t}, again .power s = .ok e t → s.cursor.Nearer t.cursor) :
    Advances (Read.productTail (.standard limit) again) fun _ => Read.productTurn (.standard limit) again := by
  refine ⟨productTail_eq_repeating _ again, fun {_ left next s t} ht => ?_⟩
  change (if s.level (.standard limit) = .multiplicative then _ else _ : ParseM (ForInStep Expr)) s = _ at ht
  split at ht
  · next hl =>
    have hk := (Rules.grounded_standard limit).ne_eof_of_level hl (by decide)
    refine nearer_of_advance limit (fun operator => ?_) hk ht
    exact (h .factor).bind fun right => (confined_operationOf operator).bind fun name => confined_pure _
  · change (if s.atImplicitOperand (.standard limit) then _ else _ : ParseM (ForInStep Expr)) s = _ at ht
    split at ht
    · obtain ⟨_, u, hu, ht⟩ := bind_eq_ok_iff.1 ht
      obtain ⟨right, v, hv, ht⟩ := bind_eq_ok_iff.1 ht
      cases ht
      exact (leads_of_ok limit confined_refuseSecondNumber hu).trans_nearer (hpower hv)
    · cases ht

theorem advances_power (h : ∀ p, Confined limit (again p)) :
    Advances (Read.powerTail (.standard limit) again) fun _ => Read.powerTurn (.standard limit) again := by
  refine ⟨powerTail_eq_repeating _ again, fun ht => nearer_of_level limit (by decide) (fun operator => ?_) ht⟩
  refine (h .primary).bind fun exponent => Confined.bind ?_ fun power => confined_pure _
  exact confined_ite (confined_pure _) ((confined_operationOf operator).bind fun name => confined_pure _)

theorem advances_subscript (h : ∀ p, Confined limit (again p)) :
    Advances (Read.subscriptTail (.standard limit) again) (Read.subscriptTurn (.standard limit) again) := by
  refine ⟨subscriptTail_eq_repeating _ again, fun {steps _ _ _ _} ht => nearer_of_level limit (by decide) (fun _ => ?_) ht⟩
  have hindex : Confined limit (Read.index (.standard limit) again steps) :=
    confined_of_rel (.standard limit) ((course_walks limit).readings.index (fun p => (h p).rel) rfl)
  exact hindex.bind fun values => confined_pure _

theorem advances_list (h : ∀ p, Confined limit (again p)) (allowed : Bool) :
    Advances (fun steps values => (values ++ ·) <$> Read.listTail again allowed steps)
      fun _ => Read.listTurn again allowed := by
  refine ⟨listTail_eq_repeating again allowed, fun {_ values next s t} ht => ?_⟩
  change (if s.cursor.current.kind = .comma then _ else _ : ParseM (ForInStep (List Expr))) s = _ at ht
  split at ht
  · next hk =>
    obtain ⟨_, u, hu, hrest⟩ := bind_eq_ok_iff.1 ht
    obtain ⟨w, hw, -, rfl⟩ := takes_refuseIf _ _ _ () u hu
    obtain rfl := hw.unique (Moves.refl s)
    refine nearer_of_advance limit (fun _ => ?_) (by rw [hk]; decide) hrest
    exact (h .comparison).bind fun value => confined_pure _
  · cases ht

theorem advances_row (h : ∀ p, Confined limit (again p)) :
    Advances (fun steps entries => (entries ++ ·) <$> Read.rowTail again steps) fun _ => Read.rowTurn again := by
  refine ⟨rowTail_eq_repeating again, fun {_ entries next s t} ht => ?_⟩
  change (if s.cursor.current.kind = .ampersand then _ else _ : ParseM (ForInStep (List Expr))) s = _ at ht
  split at ht
  · next hk =>
    refine nearer_of_advance limit (fun _ => ?_) (by rw [hk]; decide) ht
    exact (h .expression).bind fun entry => confined_pure _
  · cases ht

/-- After a row the loop goes on only where it has passed a row break. -/
theorem advances_rows (h : ∀ p, Confined limit (again p)) (opening : Token) :
    Advances (fun steps before => (before ++ ·) <$> Read.rows again opening steps) (Read.rowsTurn again opening) := by
  refine ⟨rows_eq_repeating again opening, fun {steps before next s t} ht => ?_⟩
  obtain ⟨row, u, hu, ht⟩ := bind_eq_ok_iff.1 ht
  have hrow : Confined limit (Read.row again steps) :=
    confined_of_rel (.standard limit) ((course_walks limit).readings.row (fun p => (h p).rel) rfl)
  refine (leads_of_ok limit hrow hu).trans_nearer ?_
  obtain ⟨kind, v, hv, hrest⟩ := bind_eq_ok_iff.1 ht
  cases hv
  generalize hk : u.cursor.current.kind = kind at hrest
  split at hrest
  · cases hrest
  · refine nearer_of_advance limit (fun _ => ?_) (by rw [hk]; decide) hrest
    have hkind : Confined limit currentKind := confined_of_eq fun _ => rfl
    exact hkind.bind fun kind => confined_ite (confined_pure _) (confined_pure _)
  · cases hrest

/-- In however many steps the other productions are read, every loop advances. -/
theorem loopsAdvance_read (limit steps : Nat) : LoopsAdvance limit (Production.read (.standard limit) steps) := by
  have h := confined_read (.standard limit) steps
  exact
    { sum := advances_sum h
      product := advances_product h (nearer_of_read limit (by decide))
      power := advances_power h
      subscript := advances_subscript h
      list := advances_list h
      row := advances_row h
      rows := advances_rows h
      lookahead := Cursor.lookahead_lt
      lookahead_end := Cursor.lookahead_end
      name := Cursor.nearer_of_lt_fragments }

end

end TexFormula

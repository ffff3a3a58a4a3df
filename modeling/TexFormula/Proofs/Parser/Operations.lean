import TexFormula.Proofs.Diagnostic.Located
import TexFormula.Proofs.Parser.Confinement

/-!
# A parser that is driven from outside

A caller may do to a parser whatever it likes and in any order: move it, look ahead, go down a level and up
again, change the number of open bars, or read a production at a token that does not start it. It may go on
after an error too, with the state that the error left.

* `Operation` : what a caller may ask for; `Operation.perform` : the state after it, also if it fails;
* `startingRules` : the rules of a new parser, with or without those of the grammar;
* `ParserState.Intact limit tokens` : the parser still holds the tokens it was given, has passed no end, and is
  not deeper than the limit;
* `stands_after_operations` : the steps that the parser is made of keep it there;
* `settles_operation` : nothing that is asked for exhausts the parser;
* `intact_after_operations` : however a new parser is driven, it is intact and does not move backwards.
-/

namespace TexFormula

open ParseM

/-! ## Operations -/

/-- What a caller may ask of a parser. -/
inductive Operation
  | advance
  | peek (n : Nat)
  | expect (kind : Kind)
  /-- With an error of the caller's own. -/
  | expectOr (kind : Kind) (fault : SyntaxFault)
  | enter
  | leave
  | setBars (bars : Nat)
  | grouping (allowList : Bool)
  | production (p : Production)

namespace Operation

def run (rules : Rules) : Operation → ParseM Unit
  | advance => do let _ ← ParseM.advance
  | peek n => do let _ ← ParseM.peek n
  | expect kind => do let _ ← ParseM.expect kind
  | expectOr kind fault => do let _ ← ParseM.expectOr kind fun _ => fault
  | enter => ParseM.enter rules.limit
  | leave => ParseM.leave
  | setBars bars => ParseM.setBars bars
  | grouping allowList => do let _ ← Production.runGrouping rules allowList
  | production p => do let _ ← p.run rules

/-- The state after an operation, whether it succeeds or not. -/
def perform (rules : Rules) (s : ParserState) (operation : Operation) : ParserState :=
  stateAfter (operation.run rules s)

end Operation

/-- The rules of a new parser: none, or those of the grammar if these were filled in. -/
def startingRules (filled : Bool) (limit : Nat) : Rules :=
  if filled then (Rules.bare limit).addStandard else .bare limit

theorem limit_startingRules (filled : Bool) (limit : Nat) : (startingRules filled limit).limit = limit := by
  cases filled <;> rfl

theorem grounded_startingRules (filled : Bool) (limit : Nat) : (startingRules filled limit).Grounded := by
  cases filled with
  | false => exact Rules.grounded_bare limit
  | true =>
    show (Rules.bare limit).addStandard.Grounded
    rw [Rules.addStandard_bare]
    exact Rules.grounded_standard limit

theorem confined_operation (rules : Rules) (operation : Operation) : Confined rules.limit (operation.run rules) := by
  have hc := course_walks rules.limit
  have hstate : Confined rules.limit ParseM.state := confined_of_eq fun _ => rfl
  cases operation with
  | advance => exact confined_advance.bind fun _ => confined_pure _
  | peek n => exact confined_of_eq fun _ => rfl
  | expect kind => exact (confined_iff.2 (hc.steps.expect kind).2).bind fun _ => confined_pure _
  | expectOr kind fault =>
    exact (confined_iff.2 (hc.steps.expectOr kind fun _ _ _ => rfl).2).bind fun _ => confined_pure _
  | enter => exact confined_enter
  | leave => exact confined_leave
  | setBars bars => exact confined_setBars bars
  | grouping allowList =>
    refine (hstate.bind fun s => ?_).bind fun _ => confined_pure _
    exact confined_iff.2 (hc.leadsTo_grouping (hc.leadsTo_read _) allowList _)
  | production p => exact (hstate.bind fun s => confined_read rules _ p).bind fun _ => confined_pure _

/-! ## No operation is exhausted -/

section
variable {rules : Rules} {s : ParserState}

/-- Where the ways to read a primary are asked at the end of the input, they settle too. -/
theorem settles_run_of_eof (hr : rules.Grounded) {p : Production} (hp : p.rank = 1)
    (hk : s.cursor.current.kind = .eof) : Settles (p.run rules s) fun _ _ => True := by
  obtain ⟨k, henough⟩ : ∃ k, Production.enough rules s = k + 1 :=
    ⟨Production.enough rules s - 1, by unfold Production.enough; omega⟩
  have hsteps : 8 * s.remaining ≤ k := by
    unfold Production.enough at henough
    unfold ParserState.remaining
    omega
  have hreaches := reaches_read hr k
  show Settles (p.read rules (Production.enough rules s) s) _
  rw [henough]
  cases p with
  | comparison | expression | term | factor | power | subscript | primary => cases hp
  | number =>
    show Settles ((if isDecimal s.cursor.current.text then _ else _ : ParseM Expr) _) _
    split
    · trivial
    · trivial
  | symbol =>
    show Settles ((if s.cursor.current.kind = .symbol then _ else _ : ParseM Expr) _) _
    rw [hk, if_neg (by decide)]
    trivial
  | mathrm => exact Settles.mono (Reaches.uses_mathrm (s := s)) fun _ _ _ => trivial
  | mathbf => exact Settles.mono (Reaches.uses_mathbf (s := s)) fun _ _ _ => trivial
  | grouping => exact Settles.mono (hreaches.uses_groupingValue (by omega) hsteps) fun _ _ _ => trivial
  | matrix => exact Settles.mono (hreaches.uses_matrix hsteps) fun _ _ _ => trivial
  | frac => exact Settles.mono (hreaches.uses_frac hsteps) fun _ _ _ => trivial
  | function =>
    show Settles (EStateM.bind (operationOf s.cursor.current) _ _) _
    rw [operationOf, hk]
    trivial
  | operatorname => exact Settles.mono (hreaches.uses_operatorname hsteps) fun _ _ _ => trivial

theorem settles_run (hr : rules.Grounded) (p : Production) (s : ParserState) :
    Settles (p.run rules s) fun _ _ => True := by
  by_cases h : p.rank = 1 ∧ s.cursor.current.kind = .eof
  · exact settles_run_of_eof hr h.1 h.2
  · have hp : p.rank = 1 → s.cursor.current.kind ≠ .eof := fun hrank hk => h ⟨hrank, hk⟩
    exact Settles.mono (uses_run hr hp) fun _ _ _ => trivial

theorem settles_runGrouping (hr : rules.Grounded) (allowList : Bool) (s : ParserState) :
    Settles (Production.runGrouping rules allowList s) fun _ _ => True := by
  have hsteps : 8 * s.remaining ≤ Production.enough rules s := by
    unfold Production.enough ParserState.remaining
    omega
  have hgrouping : Uses 3 (Read.grouping (Production.read rules (Production.enough rules s)) allowList
      (Production.enough rules s)) s :=
    (reaches_read hr _).uses_grouping allowList (by omega) hsteps
  exact Settles.mono hgrouping fun _ _ _ => trivial

/-- Every operation comes to a result or to an error. -/
theorem settles_operation (hr : rules.Grounded) (operation : Operation) (s : ParserState) :
    Settles (operation.run rules s) fun _ _ => True := by
  have hexpect (kind : Kind) (fault : Token → SyntaxFault) :
      Settles (ParseM.expectOr kind fault s) fun _ _ => True :=
    (settles_demandOr kind fault).bind fun _ _ _ => trivial
  cases operation with
  | advance => trivial
  | peek n => trivial
  | expect kind => exact (hexpect kind _).bind fun _ _ _ => trivial
  | expectOr kind fault => exact (hexpect kind _).bind fun _ _ _ => trivial
  | enter =>
    show Settles ((if rules.limit ≤ s.depth then _ else _ : ParseM Unit) s) _
    split
    · trivial
    · trivial
  | leave => trivial
  | setBars bars => trivial
  | grouping allowList => exact (settles_runGrouping hr allowList s).bind fun _ _ _ => trivial
  | production p => exact (settles_run hr p s).bind fun _ _ _ => trivial

end

/-! ## What every operation keeps -/

/-- The number of tokens that were passed, which is the index of the current one. -/
def Cursor.index (cursor : Cursor) : Nat := cursor.passed.length

/--
The parser holds the stream it was given, which ends in an end; it has not passed the first end of it, so the
current token and the one before it are where they should be; and it is not deeper than the limit.
-/
structure ParserState.Intact (limit : Nat) (tokens : List Token) (s : ParserState) : Prop where
  tokens_eq : s.cursor.tokens = closed tokens
  ends : s.cursor.tokens.getLast?.map Token.kind = some .eof
  index_le : s.cursor.index ≤ s.cursor.tokens.findIdx (·.kind == .eof)
  current : s.cursor.tokens[s.cursor.index]? = some s.cursor.current
  previous {i : Nat} : s.cursor.index = i + 1 →
    ∃ token, s.cursor.previous? = some token ∧ s.cursor.tokens[i]? = some token
  depth_le : s.depth ≤ limit

namespace Cursor

variable {c : Cursor} {stream : List Token}

theorem getLast?_tokens (c : Cursor) : c.tokens.getLast?.map Token.kind = some .eof := by
  rw [tokens, List.getLast?_concat]
  rfl

theorem getElem?_tokens_index (c : Cursor) : c.tokens[c.index]? = some c.current := by
  obtain ⟨after, heq⟩ := c.exists_tokens_eq
  rw [heq, index, List.getElem?_append_right (by simp)]
  simp

theorem getElem?_tokens_of_index {i : Nat} (h : c.index = i + 1) :
    ∃ token, c.previous? = some token ∧ c.tokens[i]? = some token := by
  unfold index at h
  unfold tokens previous?
  cases hp : c.passed with
  | nil =>
    rw [hp] at h
    cases h
  | cons token passed =>
    rw [hp, List.length_cons, Nat.add_right_cancel_iff] at h
    refine ⟨token, rfl, ?_⟩
    simp [← h]

theorem Stands.index_le (h : c.Stands stream) : c.index ≤ c.tokens.findIdx (·.kind == .eof) := by
  obtain ⟨after, heq⟩ := c.exists_tokens_eq
  have hpassed : c.passed.reverse.findIdx (·.kind == .eof) = c.passed.reverse.length := by
    refine List.findIdx_eq_length.2 fun token hmem => ?_
    simpa using h.passed_ne token (List.mem_reverse.1 hmem)
  rw [heq, List.findIdx_append, hpassed, if_neg (Nat.lt_irrefl _), List.length_reverse, index]
  omega

theorem Leads.index_le {d : Cursor} (h : c.Leads d) : c.index ≤ d.index := by
  refine h.keeps (P := fun d => c.index ≤ d.index) (fun d hd => ?_) (Nat.le_refl _)
  rcases d.advance_cases with heq | ⟨-, hp⟩
  · rwa [heq]
  · unfold index at hd ⊢
    rw [hp, List.length_cons]
    omega

end Cursor

section
variable {limit : Nat} {tokens : List Token} {s t : ParserState}

theorem intact_of_stands (hs : s.cursor.Stands (closed tokens)) (hd : s.depth ≤ limit) : s.Intact limit tokens where
  tokens_eq := hs.tokens_eq
  ends := s.cursor.getLast?_tokens
  index_le := hs.index_le
  current := s.cursor.getElem?_tokens_index
  previous h := Cursor.getElem?_tokens_of_index h
  depth_le := hd

end

/-- However a new parser is driven, it is in the stream that it was given and not deeper than the limit. -/
theorem stands_after_operations (rules : Rules) (tokens : List Token) (operations : List Operation) :
    let s := operations.foldl (Operation.perform rules) (.ofTokens tokens)
    s.cursor.Stands (closed tokens) ∧ s.depth ≤ rules.limit := by
  have hwalks (s : ParserState) : Walks rules.limit s (operations.foldl (Operation.perform rules) s) := by
    induction operations generalizing s with
    | nil => exact .refl s
    | cons operation operations ih => exact (confined_operation rules operation s).trans (ih _)
  have hstart : (Cursor.ofTokens tokens).Stands (closed tokens) := by
    rw [← tokens_ofTokens]
    exact stands_ofTokens tokens
  exact ⟨hstart.leads (hwalks _).leads, (hwalks _).depth_le (Nat.zero_le _)⟩

/--
However a new parser is driven, with the rules of the grammar or without any, it is intact after every
operation, and the next one, whatever it is, comes to a result or an error and does not move backwards.
-/
theorem intact_after_operations (tokens : List Token) (limit : Nat) (filled : Bool) (operations : List Operation) :
    let rules := startingRules filled limit
    let s := operations.foldl (Operation.perform rules) (.ofTokens tokens)
    s.Intact limit tokens ∧ ∀ operation : Operation,
      Settles (operation.run rules s) (fun _ _ => True) ∧ s.cursor.index ≤ (operation.perform rules s).cursor.index := by
  intro rules s
  obtain ⟨hs, hd⟩ := stands_after_operations rules tokens operations
  rw [limit_startingRules] at hd
  refine ⟨intact_of_stands hs hd, fun operation => ⟨?_, ?_⟩⟩
  · exact settles_operation (grounded_startingRules filled limit) operation s
  · exact (confined_operation rules operation s).leads.index_le

end TexFormula

import TexFormula.Parser.Cursor

/-!
# Moving forward in a stream

* `beforeEnd` : the tokens before the first end of a stream;
* `Cursor.Stands stream` : the cursor stands in the stream, and has passed no end of it;
  `Cursor.Leads` : one cursor comes from another by moving forward;
* `Cursor.distance` : how many tokens come before the next end.
-/

namespace TexFormula

/-! ## The end of a stream -/

/-- The tokens before the end of a stream. -/
def beforeEnd (tokens : List Token) : List Token := tokens.takeWhile fun token => token.kind != .eof

/-- Nothing after a first end counts. -/
theorem beforeEnd_append_end {mark : Token} (hk : mark.kind = .eof) (tokens rest : List Token) :
    beforeEnd (tokens ++ mark :: rest) = beforeEnd tokens := by
  induction tokens with
  | nil => simp [beforeEnd, hk]
  | cons token tokens ih =>
    unfold beforeEnd at ih ⊢
    rw [List.cons_append, List.takeWhile_cons, List.takeWhile_cons, ih]

theorem beforeEnd_append {w : List Token} (hw : ∀ token ∈ w, token.kind ≠ .eof) (rest : List Token) :
    beforeEnd (w ++ rest) = w ++ beforeEnd rest :=
  List.takeWhile_append_of_pos fun token ht => bne_iff_ne.2 (hw token ht)

theorem beforeEnd_ahead (tokens : List Token) : beforeEnd (Cursor.ofTokens tokens).ahead = beforeEnd tokens := by
  unfold Cursor.ofTokens
  split
  · next h => rw [List.getLast?_eq_none_iff.1 h]
  · next last h =>
    obtain ⟨init, rfl⟩ := List.getLast?_eq_some_iff.1 h
    split
    · next hk =>
      show beforeEnd (init ++ [last]).dropLast = _
      rw [List.dropLast_concat, beforeEnd_append_end hk]
    · rfl

theorem beforeEnd_of_current {cursor : Cursor} (h : cursor.current.kind = .eof) : beforeEnd cursor.ahead = [] := by
  cases ha : cursor.ahead with
  | nil => rfl
  | cons token rest =>
    have hk : token.kind = .eof := by simpa [Cursor.current, Cursor.peek, ha] using h
    simp [beforeEnd, hk]

/-! ## Cursors -/

namespace Cursor

/-- The cursor stands in the given stream and has passed no end of it. -/
structure Stands (stream : List Token) (cursor : Cursor) : Prop where
  tokens_eq : cursor.tokens = stream
  passed_ne : ∀ token ∈ cursor.passed, token.kind ≠ .eof

/-- The second cursor comes from the first by moving forward. -/
def Leads (cursor cursor' : Cursor) : Prop := ∃ n, cursor' = cursor.advanceBy n

/-- How many tokens come before the next end. -/
def distance (cursor : Cursor) : Nat := (beforeEnd cursor.ahead).length

section
variable {c d e : Cursor} {stream : List Token} {token : Token}

theorem advanceBy_add (n m : Nat) (c : Cursor) : c.advanceBy (n + m) = (c.advanceBy n).advanceBy m := by
  induction n generalizing c with
  | zero => rw [Nat.zero_add, advanceBy]
  | succ n ih => rw [Nat.succ_add, advanceBy, advanceBy, ih]

theorem Leads.refl (c : Cursor) : c.Leads c := ⟨0, rfl⟩

theorem leads_advance (c : Cursor) : c.Leads c.advance := ⟨1, rfl⟩

theorem Leads.trans (h : c.Leads d) (h' : d.Leads e) : c.Leads e := by
  obtain ⟨n, rfl⟩ := h
  obtain ⟨m, rfl⟩ := h'
  exact ⟨n + m, (advanceBy_add n m c).symm⟩

/-- What a move keeps is kept by moving forward. -/
theorem Leads.keeps {P : Cursor → Prop} (hstep : ∀ c : Cursor, P c → P c.advance) (h : c.Leads d) (hc : P c) :
    P d := by
  obtain ⟨n, rfl⟩ := h
  induction n generalizing c with
  | zero => exact hc
  | succ n ih => exact ih (hstep c hc)

theorem advance_cases (c : Cursor) :
    c.advance = c ∨ c.current.kind ≠ .eof ∧ c.advance.passed = c.current :: c.passed := by
  unfold advance
  cases ha : c.ahead with
  | nil => exact .inl rfl
  | cons token tokens =>
    have hc : c.current = token := by simp [current, peek, ha]
    by_cases hk : token.kind = .eof
    · simp [hk]
    · simp [hk, hc]

theorem passed_advance (h : c.current.kind ≠ .eof) : c.advance.passed = c.current :: c.passed := by
  rcases c.advance_cases with heq | ⟨-, hp⟩
  · have hlt := length_ahead_advance_lt h
    rw [heq] at hlt
    exact absurd hlt (Nat.lt_irrefl _)
  · exact hp

theorem Stands.leads (h : c.Stands stream) (hd : c.Leads d) : d.Stands stream := by
  refine hd.keeps (fun c hc => ⟨c.tokens_advance.trans hc.tokens_eq, ?_⟩) h
  rcases c.advance_cases with heq | ⟨hk, hp⟩
  · rw [heq]
    exact hc.passed_ne
  · rw [hp]
    exact List.forall_mem_cons.2 ⟨hk, hc.passed_ne⟩

theorem Leads.mem_passed (h : c.Leads d) (ht : token ∈ c.passed) : token ∈ d.passed := by
  refine h.keeps (P := fun c => token ∈ c.passed) (fun c hc => ?_) ht
  rcases c.advance_cases with heq | ⟨-, hp⟩
  · rwa [heq]
  · rw [hp]
    exact List.mem_cons_of_mem _ hc

theorem exists_tokens_eq (c : Cursor) : ∃ after, c.tokens = c.passed.reverse ++ c.current :: after := by
  unfold tokens current peek
  cases c.ahead with
  | nil => exact ⟨[], by simp⟩
  | cons token rest => exact ⟨rest ++ [c.stop.token], by simp⟩

theorem distance_advance (h : c.current.kind ≠ .eof) : c.advance.distance + 1 = c.distance := by
  unfold distance advance
  cases ha : c.ahead with
  | nil => simp [current, peek, ha, EndMark.token] at h
  | cons token rest =>
    have hk : token.kind ≠ .eof := by simpa [current, peek, ha] using h
    simp [beforeEnd, hk]

theorem distance_advance_le (c : Cursor) : c.advance.distance ≤ c.distance := by
  unfold distance advance
  split
  · exact Nat.le_refl _
  · next token rest ha =>
    split
    · exact Nat.le_refl _
    · next hk => simp [ha, beforeEnd, hk]

theorem Leads.distance_le (h : c.Leads d) : d.distance ≤ c.distance :=
  h.keeps (P := fun d => d.distance ≤ c.distance) (fun d hd => Nat.le_trans d.distance_advance_le hd) (Nat.le_refl _)

theorem distance_pos (h : c.current.kind ≠ .eof) : 0 < c.distance := by
  have hd := distance_advance h
  omega

end

end Cursor

theorem stands_ofTokens (tokens : List Token) :
    (Cursor.ofTokens tokens).Stands (Cursor.ofTokens tokens).tokens := by
  refine ⟨rfl, ?_⟩
  unfold Cursor.ofTokens
  split
  · simp
  · split
    · simp
    · simp

end TexFormula

import TexFormula.Proofs.Parser.Loops
import TexFormula.Proofs.Token.Lexed

/-!
# Looking ahead over a name in braces

Whether an opening brace after an underscore begins a name is found by looking ahead, and the name is then read with
a cursor that advances. The two go over the same tokens, so that what was seen is what is read.

* `Cursor.LooksOver c n r` : looking ahead from the place `n` on, there are `r` letter-like tokens and no more;
  `Cursor.nameAt` : the name that they spell; `LooksOver.exists_run` : the tokens themselves;
* `nameTurn` : one turn of the loop that passes the tokens of a name; `repeating_nameTurn` : the loop passes as many
  tokens as are seen ahead; `takeName_eq_repeating` : this is how a name is taken;
* `Cursor.SeesName` : two or more letter-like tokens, no number first, and the closing brace right after them;
  `atBracedName_iff_seesName` : this is what an index looks for;
* `index_of_seesName`, `index_of_nameless`, `index_of_not_seesName` : what an index does at an opening brace;
* `nameAt_ne_empty` : tokens from a text always spell something;
* `index_agrees_with_lookahead` : all of this for the parser.
-/

namespace TexFormula

open ParseM

/-! ## The run ahead -/

namespace Cursor

/-- From the place `n` on there are `r` letter-like tokens, and then one that is not. -/
structure LooksOver (c : Cursor) (n r : Nat) : Prop where
  isSome {i : Nat} : i < r → (c.peek (n + i)).fragment?.isSome = true
  ends : (c.peek (n + r)).fragment? = none

instance (c : Cursor) (n r : Nat) : Decidable (c.LooksOver n r) :=
  decidable_of_iff ((∀ i < r, (c.peek (n + i)).fragment?.isSome = true) ∧ (c.peek (n + r)).fragment? = none)
    ⟨fun h => ⟨h.1 _, h.2⟩, fun h => ⟨fun _ => h.isSome, h.ends⟩⟩

def nameAt (c : Cursor) (n r : Nat) : String :=
  String.join ((List.range r).filterMap fun i => (c.peek (n + i)).fragment?)

section
variable {c : Cursor} {n r r' : Nat}

theorem LooksOver.unique (h : c.LooksOver n r) (h' : c.LooksOver n r') : r = r' := by
  rcases Nat.lt_trichotomy r r' with hlt | heq | hlt
  · have hsome := h'.isSome hlt
    rw [h.ends] at hsome
    cases hsome
  · exact heq
  · have hsome := h.isSome hlt
    rw [h'.ends] at hsome
    cases hsome

theorem peek_add (c : Cursor) (n i : Nat) : c.peek (n + i) = (c.ahead.drop n)[i]?.getD c.stop.token := by
  rw [peek, List.getElem?_drop]

theorem peek_of_drop_eq {run rest : List Token} (h : c.ahead.drop n = run ++ rest) {i : Nat} (hi : i < run.length) :
    c.peek (n + i) = run[i] := by
  rw [peek_add, h, List.getElem?_append_left hi, List.getElem?_eq_getElem hi, Option.getD_some]

/-- A run of letter-like tokens that goes no further is what the look ahead goes over. -/
theorem looksOver_of_drop_eq {run rest : List Token} {fragments : List String} (h : c.ahead.drop n = run ++ rest)
    (hrun : run.map Token.fragment? = fragments.map some) (hrest : ∀ token ∈ rest.head?, token.fragment? = none) :
    c.LooksOver n run.length ∧ c.nameAt n run.length = String.join fragments := by
  have hpeek {i : Nat} (hi : i < run.length) : (c.peek (n + i)).fragment? = run[i].fragment? := by
    rw [peek_of_drop_eq h hi]
  have hspells : Spells run (String.join fragments) := ⟨fragments, hrun, rfl⟩
  refine ⟨⟨fun hi => ?_, ?_⟩, ?_⟩
  · rw [hpeek hi]
    exact hspells.isSome (List.getElem_mem hi)
  · rw [peek_add, h, List.getElem?_append_right (Nat.le_refl _), Nat.sub_self]
    cases rest with
    | nil => rfl
    | cons token rest => exact hrest token rfl
  · have hmap : (List.range run.length).map (fun i => (c.peek (n + i)).fragment?) = fragments.map some := by
      refine hrun ▸ List.ext_getElem (by simp) fun i hi hi' => ?_
      rw [List.getElem_map, List.getElem_map, List.getElem_range]
      exact hpeek (by simpa using hi)
    have hfilter := congrArg (List.filterMap id) hmap
    rw [List.filterMap_map, List.filterMap_map] at hfilter
    exact congrArg String.join (hfilter.trans List.filterMap_some)

/-- The look ahead always stops, and the tokens it goes over are ahead. -/
theorem exists_looksOver (c : Cursor) (n : Nat) : ∃ run rest, c.ahead.drop n = run ++ rest ∧
    c.LooksOver n run.length ∧ (c.fragments n).length = run.length ∧ Spells run (c.nameAt n run.length) ∧
    ∀ token ∈ rest.head?, token.fragment? = none := by
  obtain ⟨run, rest, heq, hrun, hrest⟩ := exists_run (c.ahead.drop n)
  obtain ⟨hlooks, hname⟩ := looksOver_of_drop_eq heq hrun hrest
  exact ⟨run, rest, heq, hlooks, length_of_fragments hrun, ⟨_, hrun, hname⟩, hrest⟩

theorem LooksOver.exists_run (h : c.LooksOver n r) : ∃ run rest, c.ahead.drop n = run ++ rest ∧ run.length = r ∧
    Spells run (c.nameAt n r) ∧ ∀ token ∈ rest.head?, token.fragment? = none := by
  obtain ⟨run, rest, heq, hlooks, -, hspells, hrest⟩ := c.exists_looksOver n
  obtain rfl := hlooks.unique h
  exact ⟨run, rest, heq, rfl, hspells, hrest⟩

end

end Cursor

/-! ## The loop that takes a name -/

def nameTurn (name : String) : ParseM (ForInStep String) := do
  let token ← current
  match token.fragment? with
  | some fragment =>
    let _ ← advance
    return .yield (name ++ fragment)
  | none => return .done name

section
variable {s t : ParserState} {run : List Token} {token : Token} {fragment name : String} {fragments : List String}

theorem nameTurn_of_none (h : s.cursor.current.fragment? = none) (before : String) :
    nameTurn before s = .ok (.done before) s := by
  show (match s.cursor.current.fragment? with | some _ => _ | none => _ : ParseM (ForInStep String)) s = _
  rw [h]
  rfl

theorem nameTurn_of_some (h : Moves s [token] t) (hf : token.fragment? = some fragment) (before : String) :
    nameTurn before s = .ok (.yield (before ++ fragment)) t := by
  have hk : token.kind ≠ .eof := kind_ne_of_isSome (by rw [hf]; rfl) (by decide)
  obtain ⟨u, hadvance, hsu, -⟩ := advance_of_moves h hk
  obtain rfl := hsu.unique h
  show (match s.cursor.current.fragment? with | some _ => _ | none => _ : ParseM (ForInStep String)) s = _
  rw [h.current, hf]
  exact bind_eq_ok_iff.2 ⟨token, u, hadvance, rfl⟩

/-- The loop passes a run of letter-like tokens, one with each turn, and stops at the token after it. -/
theorem repeating_nameTurn (h : Moves s run t) (hrun : run.map Token.fragment? = fragments.map some)
    (ht : t.cursor.current.fragment? = none) {steps : Nat} (hsteps : run.length < steps) (before : String) :
    repeating (fun _ => nameTurn) steps before s = .ok (before ++ String.join fragments) t := by
  induction run generalizing s fragments steps before with
  | nil =>
    obtain rfl := h.unique (Moves.refl s)
    obtain rfl := List.map_eq_nil_iff.1 hrun.symm
    obtain ⟨steps, rfl⟩ := Nat.exists_eq_succ_of_ne_zero (Nat.ne_of_gt hsteps)
    refine bind_eq_ok_iff.2 ⟨.done before, t, nameTurn_of_none ht before, ?_⟩
    rw [String.join_nil, String.append_empty]
    rfl
  | cons token run ih =>
    cases fragments with
    | nil => cases hrun
    | cons fragment fragments =>
      rw [List.map_cons, List.map_cons, List.cons.injEq] at hrun
      obtain ⟨u, hsu, hut⟩ := Moves.split (v := [token]) h
      obtain ⟨steps, rfl⟩ := Nat.exists_eq_succ_of_ne_zero (Nat.ne_of_gt (Nat.lt_of_le_of_lt (Nat.zero_le _) hsteps))
      refine bind_eq_ok_iff.2 ⟨.yield (before ++ fragment), u, nameTurn_of_some hsu hrun.1 before, ?_⟩
      rw [String.join_cons, ← String.append_assoc]
      exact ih hut hrun.2 (Nat.lt_of_succ_lt_succ hsteps) (before ++ fragment)

theorem exists_takeName (s : ParserState) : ∃ run fragments t, takeName s = .ok (String.join fragments) t ∧ Moves s run t ∧
    run.map Token.fragment? = fragments.map some ∧ t.cursor.current.fragment? = none := by
  obtain ⟨run, rest, heq, hrun, hrest⟩ := exists_run s.cursor.ahead
  have hspells : Spells run (String.join (fragmentRun s.cursor.ahead)) := ⟨_, hrun, rfl⟩
  have hmoves := moves_advanceBy (fun token ht => kind_ne_of_isSome (hspells.isSome ht) (by decide)) heq
  refine ⟨run, _, _, ?_, hmoves, hrun, ?_⟩
  · rw [← length_of_fragments hrun]
    rfl
  · have hahead := hmoves.ahead
    rw [heq] at hahead
    rw [Cursor.current, Cursor.peek, ← List.append_cancel_left hahead]
    cases rest with
    | nil => rfl
    | cons token rest => exact hrest token rfl

/-- A name is taken by a loop that passes one letter-like token after the other. -/
theorem takeName_eq_repeating (s : ParserState) {steps : Nat} (hsteps : s.cursor.ahead.length < steps) :
    takeName s = repeating (fun _ => nameTurn) steps "" s := by
  obtain ⟨run, fragments, t, htake, hmoves, hrun, ht⟩ := exists_takeName s
  have hlength : run.length ≤ s.cursor.ahead.length := by
    rw [hmoves.ahead, List.length_append]
    exact Nat.le_add_right _ _
  rw [htake, repeating_nameTurn hmoves hrun ht (Nat.lt_of_le_of_lt hlength hsteps), String.empty_append]

end

/-! ## Names in braces -/

/--
Looking ahead from an opening brace, there are two or more letter-like tokens, the first of them no number, and then a
closing brace.
-/
structure Cursor.SeesName (c : Cursor) (r : Nat) : Prop where
  looksOver : c.LooksOver 1 r
  two_le : 2 ≤ r
  first : (c.peek 1).kind ≠ .number
  closing : (c.peek (r + 1)).kind = .closeCurly

instance (c : Cursor) (r : Nat) : Decidable (c.SeesName r) :=
  decidable_of_iff (c.LooksOver 1 r ∧ 2 ≤ r ∧ (c.peek 1).kind ≠ .number ∧ (c.peek (r + 1)).kind = .closeCurly)
    ⟨fun h => ⟨h.1, h.2.1, h.2.2.1, h.2.2.2⟩, fun h => ⟨h.looksOver, h.two_le, h.first, h.closing⟩⟩

section
variable {α β : Type} {s t v : ParserState} {c : Cursor} {r : Nat} {opening : Token} {run : List Token} {name : String}

theorem atBracedName_iff_seesName (hc : c.current.kind = .openCurly) :
    Read.atBracedName c = true ↔ ∃ r, c.SeesName r := by
  have hat : Read.atBracedName c = true ↔ 2 ≤ (c.fragments 1).length ∧ (c.peek 1).kind ≠ .number ∧
      (c.peek ((c.fragments 1).length + 1)).kind = .closeCurly := by
    simp [Read.atBracedName, hc, and_assoc]
  obtain ⟨run, rest, -, hlooks, hlength, -⟩ := c.exists_looksOver 1
  rw [hat, hlength]
  constructor
  · rintro ⟨hle, hfirst, hclosing⟩
    exact ⟨run.length, hlooks, hle, hfirst, hclosing⟩
  · rintro ⟨r, h⟩
    obtain rfl := h.looksOver.unique hlooks
    exact ⟨h.two_le, h.first, h.closing⟩

/-- The tokens of a name that is seen: they are ahead, between the braces. -/
theorem Cursor.SeesName.exists_moves (h : s.cursor.SeesName r) (hs : s.cursor.current.kind = .openCurly) :
    ∃ run u v t, Moves s [s.cursor.current] u ∧ Moves u run v ∧ Moves v [s.cursor.peek (r + 1)] t ∧ run.length = r ∧
      Spells run (s.cursor.nameAt 1 r) ∧ headKind? run ≠ some .number := by
  have hk : s.cursor.current.kind ≠ .eof := by
    rw [hs]
    decide
  obtain ⟨run, rest, hdrop, rfl, hspells, -⟩ := h.looksOver.exists_run
  have hopening := moves_advance hk
  have hahead : s.cursor.advance.ahead = run ++ rest := by
    rw [← hdrop, hopening.ahead]
    rfl
  have hclosing : s.cursor.peek (run.length + 1) = rest.head?.getD s.cursor.stop.token := by
    rw [Nat.add_comm, Cursor.peek_add, hdrop, List.getElem?_append_right (Nat.le_refl _), Nat.sub_self,
      List.head?_eq_getElem?]
  have hkind := h.closing
  rw [hclosing] at hkind
  cases rest with
  | nil => cases hkind
  | cons closing rest =>
    let t : ParserState := ⟨⟨(s.cursor.current :: (run ++ [closing])).reverse ++ s.cursor.passed, rest, s.cursor.stop⟩,
      s.depth, s.openBars⟩
    have hmoves : Moves s (s.cursor.current :: (run ++ [closing])) t :=
      ⟨rfl, by rw [hopening.ahead, hahead]; simp [t], rfl, rfl, rfl⟩
    obtain ⟨u, hsu, hut⟩ := Moves.split (v := [s.cursor.current]) hmoves
    obtain ⟨v, huv, hvt⟩ := hut.split
    refine ⟨run, u, v, t, hsu, huv, ?_, rfl, hspells, ?_⟩
    · rw [hclosing]
      exact hvt
    · cases run with
      | nil => exact absurd h.two_le (by decide)
      | cons first run =>
        have hfirst := h.first
        rw [Cursor.peek_of_drop_eq (i := 0) hdrop (Nat.zero_lt_succ _)] at hfirst
        rw [headKind?_cons]
        exact fun heq => hfirst (Option.some.inj heq)

/-- A name in braces, up to the check that it is not empty. -/
theorem bracedName_eq_of_moves (h : Moves s (opening :: run) v) (ho : opening.kind = .openCurly)
    (hspells : Spells run name) (hfirst : headKind? run ≠ some .number)
    (hv : v.cursor.current.kind = .closeCurly) :
    bracedName s = (do refuseName name.isEmpty; let _ ← expect .closeCurly; return name) v := by
  have ⟨fragments, hrun, hname⟩ := hspells
  obtain ⟨x, hopen, -, hxv⟩ := expectOr_of_moves h ho (by decide) fun found =>
    .expectedToken Kind.openCurly.spelling found.text
  have hend : v.cursor.current.fragment? = none := by
    unfold Token.fragment?
    rw [hv]
  have htake : takeName x = .ok name v := by
    have hlength : run.length ≤ x.cursor.ahead.length := by
      rw [hxv.ahead, List.length_append]
      exact Nat.le_add_right _ _
    rw [takeName_eq_repeating x (Nat.lt_succ_self _),
      repeating_nameTurn hxv hrun hend (Nat.lt_succ_of_le hlength), String.empty_append, hname]
  have hnumber : (x.cursor.current.kind == .number) = false := by
    refine beq_eq_false_iff_ne.2 fun hk => hfirst ?_
    have hne : run ≠ [] := by
      rintro rfl
      rw [hxv.unique (Moves.refl x), hk] at hv
      cases hv
    rw [hxv.headKind? hne, hk]
  have hrefuse : (currentKind >>= fun kind => refuseName (kind == .number)) x = .ok () x := refuseName_eq hnumber
  exact (bind_eq_of_ok hopen).trans ((bind_eq_of_ok hrefuse).trans (bind_eq_of_ok htake))

theorem nameAt_ne_empty {source : String} {tokens : List Token} (htokens : tokenize source = .ok tokens)
    (hcursor : s.cursor.tokens = tokens) (hs : s.cursor.current.kind = .openCurly) (h : s.cursor.SeesName r) :
    s.cursor.nameAt 1 r ≠ "" := by
  obtain ⟨run, u, v, t, hsu, huv, -, hlength, ⟨fragments, hrun, hname⟩, hfirst⟩ := h.exists_moves hs
  have hle := h.two_le
  cases run with
  | nil =>
    subst hlength
    exact absurd hle (by decide)
  | cons token run =>
    cases fragments with
    | nil => cases hrun
    | cons fragment fragments =>
      rw [List.map_cons, List.map_cons, List.cons.injEq] at hrun
      have hmem : token ∈ tokens := by
        rw [← hcursor, Cursor.tokens, hsu.ahead, huv.ahead]
        simp
      have hkind : token.kind ≠ .eof := kind_ne_of_isSome (by rw [hrun.1]; rfl) (by decide)
      have hlexed := (lexed_of_tokenize htokens hmem).resolve_left hkind
      have hfragment := (hlexed.fragment hrun.1).2 fun hk => hfirst (by rw [headKind?_cons, hk])
      obtain ⟨c, cs, heq, -, -⟩ := isName_iff.1 hfragment
      intro hempty
      have htext := congrArg String.toList (hname.symm.trans hempty)
      rw [String.join_cons, String.toList_append, heq] at htext
      cases htext

end

/-! ## An index at an opening brace -/

section
variable {rules : Rules} {again : Production → ParseM Expr} {turns : Nat} {s : ParserState} {r : Nat}

theorem index_eq (rules : Rules) (again : Production → ParseM Expr) (turns : Nat) (s : ParserState) :
    Read.index rules again turns s = (if Read.atBracedName s.cursor then (do return [.symbol (← bracedName)])
      else Read.argument rules again turns : ParseM (List Expr)) s := rfl

theorem index_of_seesName (hs : s.cursor.current.kind = .openCurly) (h : s.cursor.SeesName r)
    (hne : s.cursor.nameAt 1 r ≠ "") : ∃ w t, Read.index rules again turns s =
      .ok [.symbol (s.cursor.nameAt 1 r)] t ∧ Moves s w t ∧ w.length = r + 2 := by
  obtain ⟨run, u, v, t, hsu, huv, hvt, rfl, hspells, hfirst⟩ := h.exists_moves hs
  have hmoves := (hsu.trans huv).trans hvt
  have hname : bracedName s = .ok (s.cursor.nameAt 1 run.length) t :=
    bracedName_of_moves hmoves ⟨_, run, _, by simp, hs, h.closing, hspells, hne, hfirst⟩
  refine ⟨_, t, ?_, hmoves, by simp⟩
  rw [index_eq, if_pos ((atBracedName_iff_seesName hs).2 ⟨_, h⟩)]
  exact bind_eq_of_ok hname

/-- Where the tokens that are seen spell nothing, the closing brace is refused. -/
theorem index_of_nameless (hs : s.cursor.current.kind = .openCurly) (h : s.cursor.SeesName r)
    (hempty : s.cursor.nameAt 1 r = "") : ∃ w t, Read.index rules again turns s =
      .error (.rejected ⟨.expectedToken "identifier" (s.cursor.peek (r + 1)).text, s.cursor.peek (r + 1)⟩) t ∧
      Moves s w t ∧ w.length = r + 1 := by
  obtain ⟨run, u, v, t, hsu, huv, hvt, rfl, hspells, hfirst⟩ := h.exists_moves hs
  have hcurrent := hvt.current
  have hname := bracedName_eq_of_moves (hsu.trans huv) hs hspells hfirst (by rw [hcurrent]; exact h.closing)
  refine ⟨_, v, ?_, hsu.trans huv, by simp⟩
  rw [index_eq, if_pos ((atBracedName_iff_seesName hs).2 ⟨_, h⟩), ← hcurrent]
  show EStateM.bind bracedName _ s = _
  rw [EStateM.bind, hname, hempty]
  rfl

theorem index_of_not_seesName (hs : s.cursor.current.kind = .openCurly) (h : ¬ ∃ r, s.cursor.SeesName r) :
    Read.index rules again turns s = ((fun e => [e]) <$> again .primary) s := by
  have hparenthesis : Read.atParenthesis s = .ok false s := by
    show EStateM.Result.ok (s.cursor.current.kind == .openParen || s.cursor.current.kind == .left && _) s = _
    rw [hs]
    rfl
  rw [index_eq, if_neg fun hb => h ((atBracedName_iff_seesName hs).1 hb), map_eq_pure_bind]
  exact bind_eq_of_ok hparenthesis

end

/--
What an index sees at an opening brace is what it reads. If it sees a name of `r` tokens, the loop over these stops at
the closing brace too, with the same name; the index is the symbol of that name, or the closing brace is refused if
the name is empty, which it never is in a text. Otherwise the index is whatever a primary is. This holds under any
rules and in however many steps, at any token, level and number of open bars.
-/
theorem index_agrees_with_lookahead (rules : Rules) (steps turns : Nat) {s : ParserState}
    (hs : s.cursor.current.kind = .openCurly) :
    let index := Read.index rules (Production.read rules steps) turns s
    (∃! r, s.cursor.LooksOver 1 r) ∧
    (∀ r, s.cursor.SeesName r →
      let name := s.cursor.nameAt 1 r
      let closing := s.cursor.peek (r + 1)
      (∃ run u v, Moves s [s.cursor.current] u ∧ Moves u run v ∧ run.length = r ∧ v.cursor.current = closing ∧
        ∀ n, r < n → repeating (fun _ => nameTurn) n "" u = .ok name v) ∧
      (name ≠ "" → ∃ w t, index = .ok [.symbol name] t ∧ Moves s w t ∧ w.length = r + 2) ∧
      (name = "" → ∃ w t, index = .error (.rejected ⟨.expectedToken "identifier" closing.text, closing⟩) t ∧
        Moves s w t ∧ w.length = r + 1) ∧
      ∀ source tokens, tokenize source = .ok tokens → s.cursor.tokens = tokens → name ≠ "") ∧
    ((¬ ∃ r, s.cursor.SeesName r) → index = ((fun e => [e]) <$> Production.read rules steps .primary) s) := by
  intro index
  obtain ⟨seen, -, -, hlooks, -⟩ := s.cursor.exists_looksOver 1
  refine ⟨⟨seen.length, hlooks, fun r h => h.unique hlooks⟩, fun r h => ⟨?_, index_of_seesName hs h,
    index_of_nameless hs h, fun source tokens htokens hcursor => nameAt_ne_empty htokens hcursor hs h⟩,
    index_of_not_seesName hs⟩
  obtain ⟨run, u, v, t, hsu, huv, hvt, rfl, ⟨fragments, hrun, hname⟩, -⟩ := h.exists_moves hs
  refine ⟨run, u, v, hsu, huv, rfl, hvt.current, fun n hn => ?_⟩
  have hend : v.cursor.current.fragment? = none := by
    rw [hvt.current, Token.fragment?, h.closing]
  rw [repeating_nameTurn huv hrun hend hn, String.empty_append, hname]

/-- An index `{x2\alpha}`, two levels deep in bare bars; and one whose tokens spell nothing, as no text has them. -/
theorem index_agrees_with_lookahead_mixed :
    let opening : Token := ⟨.openCurly, "\x7b", .ofBytes 3 1⟩
    let run : List Token := [⟨.identifier, "x", .ofBytes 4 1⟩, ⟨.number, "2", .ofBytes 5 1⟩, ⟨.symbol, "\\alpha", .ofBytes 6 6⟩]
    let closing : Token := ⟨.closeCurly, "\x7d", .ofBytes 12 1⟩
    let s : ParserState := ⟨⟨[], opening :: (run ++ [closing]), .atPosition (.ofOffset 13)⟩, 2, 1⟩
    let blank : Token := ⟨.identifier, "", .ofBytes 4 0⟩
    let s' : ParserState := ⟨⟨[], [opening, blank, blank, closing], .atPosition (.ofOffset 5)⟩, 2, 1⟩
    let index := Read.index (.standard 4) (Production.read (.standard 4) 8) 8
    s.cursor.current.kind = .openCurly ∧ s.cursor.SeesName 3 ∧
      (∃ w t, index s = .ok [.symbol "x2alpha"] t ∧ Moves s w t ∧ w.length = 5) ∧
    s'.cursor.current.kind = .openCurly ∧ s'.cursor.SeesName 2 ∧
      ∃ w t, index s' = .error (.rejected ⟨.expectedToken "identifier" "\x7d", closing⟩) t ∧ Moves s' w t ∧ w.length = 3 := by
  intro opening run closing s blank s' index
  have hs : s.cursor.current.kind = .openCurly := rfl
  have hsees : s.cursor.SeesName 3 := by decide
  have hs' : s'.cursor.current.kind = .openCurly := rfl
  have hsees' : s'.cursor.SeesName 2 := by decide
  obtain ⟨-, hnamed, -⟩ := index_agrees_with_lookahead (.standard 4) 8 8 hs
  obtain ⟨-, hnameless, -⟩ := index_agrees_with_lookahead (.standard 4) 8 8 hs'
  exact ⟨hs, hsees, (hnamed 3 hsees).2.1 (by decide), hs', hsees', (hnameless 2 hsees').2.2.1 (by decide)⟩

end TexFormula

import TexFormula.Proofs.Parser.Confinement
import TexFormula.Proofs.Parser.Likeness
import TexFormula.Proofs.Parser.Soundness

/-!
# What a run that succeeds gives back

Groupings and matrices read with another number of open bars, and primaries, assignments and lists one level
deeper. Where the reading succeeds, both are again what they were, at whatever token it was started.

* `course_moves` : whatever is read with success passes some tokens and does nothing else to the state;
* `ParserState.Restored`, `restored_of_run` : the state after a production or a grouping.

The limit and both tables are in the `Rules` that a run is given, which no run can change.
-/

namespace TexFormula

open ParseM

/-! ## Runs that give back the level and the bars -/

theorem leadsTo_moves_iff {α : Type} {m : ParseM α} :
    LeadsTo (fun s t => ∃ w, Moves s w t) (fun _ _ => True) m ↔ ∀ s, Takes m s fun _ _ => True := by
  refine forall_congr' fun s => ?_
  unfold Takes
  cases m s with
  | ok a t => simp
  | error halt t => simp

/-- Passing tokens is a course: at the end of the input none is passed, and levels and bars come back. -/
theorem course_moves (limit : Nat) : Course limit (fun s t => ∃ w, Moves s w t) fun _ _ => True where
  refl s := ⟨[], Moves.refl s⟩
  trans := fun ⟨_, h⟩ ⟨_, h'⟩ => ⟨_, h.trans h'⟩
  stop _ := trivial
  trans_stop _ _ := trivial
  advance s := by
    by_cases hk : s.cursor.current.kind = .eof
    · rw [Cursor.advance_of_eof hk]
      exact ⟨[], Moves.refl s⟩
    · exact ⟨_, moves_advance hk⟩
  nested h := leadsTo_moves_iff.2 fun _ => takes_nested fun _ => leadsTo_moves_iff.1 h _
  withBars _ h := leadsTo_moves_iff.2 fun _ => takes_withBars (leadsTo_moves_iff.1 h _)

/-! ## The state after a production -/

/-- The stream, the level and the bars that are open are those of the first state. -/
structure ParserState.Restored (s t : ParserState) : Prop where
  tokens : t.cursor.tokens = s.cursor.tokens
  depth : t.depth = s.depth
  openBars : t.openBars = s.openBars

/-- The layers that a comparison is made of, down to its primaries. -/
def Production.layers : List Production :=
  [.comparison, .expression, .term, .factor, .power, .subscript, .primary]

section
variable {limit : Nat} {s t : ParserState} {w : List Token}

theorem Moves.restored (h : Moves s w t) : s.Restored t where
  tokens := by simp [Cursor.tokens, h.passed, h.ahead, h.stop]
  depth := h.depth
  openBars := h.openBars

theorem Production.rank_ne_of_mem_layers {p : Production} (hp : p ∈ layers) : p.rank ≠ 1 := by
  revert p
  decide

theorem within_of_depth_le (h : s.depth ≤ limit) : Within limit (limit - s.depth) (decide (0 < s.openBars)) s :=
  ⟨by omega, rfl⟩

/--
A production that is read with success, at whatever token, leaves the stream, the level and the open bars as they
were, and so does a grouping. A layer of a comparison passes at least one token, and no end. The rules, with the
limit and the tables, are not part of the state, so they are the same afterwards.
-/
theorem restored_of_run (hs : s.depth ≤ limit) :
    (∀ (p : Production) (e : Expr) (t : ParserState), p.run (.standard limit) s = .ok e t →
      s.Restored t ∧ (p ∈ Production.layers →
        ∃ w, Moves s w t ∧ w ≠ [] ∧ ∀ token ∈ w, token.kind ≠ .eof)) ∧
    ∀ (allowList : Bool) (es : List Expr) (t : ParserState),
      Production.runGrouping (.standard limit) allowList s = .ok es t → s.Restored t := by
  have hc : Course (Rules.standard limit).limit (fun s t => ∃ w, Moves s w t) fun _ _ => True := course_moves limit
  refine ⟨fun p e t he => ⟨?_, fun hp => ?_⟩, fun allowList es t hes => ?_⟩
  · obtain ⟨w, hmoves⟩ := (hc.leadsTo_read _ p).of_ok he
    exact hmoves.restored
  · have hrank := Production.rank_ne_of_mem_layers hp
    obtain ⟨w, hmoves, hd⟩ := takes_production (within_of_depth_le hs) _ (fun hr => absurd hr hrank) e t he
    exact ⟨w, hmoves, hd.ne_nil, hd.kind_ne_eof⟩
  · obtain ⟨w, hmoves⟩ := (hc.leadsTo_grouping (hc.leadsTo_read _) allowList _).of_ok hes
    exact hmoves.restored

end

/-- The parser stands in `|(|x|)|` after the first bar, one level deep, and reads up to the last one. -/
theorem restored_of_run_bars :
    let bar : Token := ⟨.bar, "|", .ofBytes 0 1⟩
    let w : List Token := [⟨.openParen, "(", .ofBytes 1 1⟩, ⟨.bar, "|", .ofBytes 2 1⟩, ⟨.identifier, "x", .ofBytes 3 1⟩,
      ⟨.bar, "|", .ofBytes 4 1⟩, ⟨.closeParen, ")", .ofBytes 5 1⟩]
    let last : Token := ⟨.bar, "|", .ofBytes 6 1⟩
    let stop : EndMark := .atPosition (.ofOffset 7)
    let s : ParserState := ⟨⟨[bar], w ++ [last], stop⟩, 1, 1⟩
    let t : ParserState := ⟨⟨w.reverse ++ [bar], [last], stop⟩, 1, 1⟩
    let e := Expr.call "abs" [.symbol "x"]
    s.depth ≤ 4 ∧ Production.run (.standard 4) .comparison s = .ok e t ∧
      Production.runGrouping (.standard 4) true s = .ok [e] t ∧
      s.Restored t ∧ ∃ w, Moves s w t ∧ w ≠ [] ∧ ∀ token ∈ w, token.kind ≠ .eof := by
  intro bar w last stop s t e
  have hd : s.depth ≤ 4 := by decide
  have hrun : Production.run (.standard 4) .comparison s = .ok e t := by rfl
  have hgroup : Production.runGrouping (.standard 4) true s = .ok [e] t := by rfl
  obtain ⟨hproduction, hgrouping⟩ := restored_of_run hd
  exact ⟨hd, hrun, hgroup, hgrouping true [e] t hgroup, (hproduction .comparison e t hrun).2 (by decide)⟩

end TexFormula

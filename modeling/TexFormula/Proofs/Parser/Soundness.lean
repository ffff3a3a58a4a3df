import TexFormula.Expr.Equality
import TexFormula.Proofs.Parser.Faithful
import TexFormula.Proofs.Parser.Forward

/-!
# What the parser accepts is in the grammar

* `Writes.takes` : the tokens that a run wrote down are one way to write its transcript out, so what can be written
  out as a word of the grammar in any way was read as one;
* `takes_production` : whatever a production reads is a word of the grammar with the meaning that the production
  returns;
* `Transcript.rendered` : the transcript of an accepted stream can be written out in any way;
* `derives_of_parseTokens` : an accepted stream is, up to its end, a comparison outside of bars.
-/

namespace TexFormula

open ParseM

/-! ## Productions -/

theorem Reading.withFlags_true (r : Reading) : r.withFlags true = r := by
  have hlist (es : List Expr) : es.map (Expr.withFlags true) = es := by
    rw [List.map_congr_left fun e _ => Expr.withFlags_true e, List.map_id']
  have hrow (row : Row) : row.withFlags true = row := by
    cases row with
    | element entry => rw [Row.withFlags, Expr.withFlags_true]
    | elements entries => rw [Row.withFlags, Expr.withFlagsOfList_eq_map, hlist]
  cases r with
  | part _ e => rw [withFlags, Expr.withFlags_true]
  | list _ es | group _ es | argument es | index es | row es => rw [withFlags, hlist]
  | rows rs => rw [withFlags, List.map_congr_left fun row _ => hrow row, List.map_id']

section
variable {limit n : Nat} {b : Bool} {s : ParserState}

/-- What was passed is one way to write the transcript out. -/
theorem Writes.takes {α : Type} {m : Scribe α} {x : ParseM α} {r : α → Reading}
    (h : Writes m s fun a marks => Rendered .plain n b (r a) marks) (hx : m.erase = x) :
    Takes x s fun a w => Derives n b (r a) w := by
  subst hx
  intro a t ha
  obtain ⟨marks, hm⟩ := Scribe.erase_eq_ok_iff.1 ha
  obtain ⟨_, hw, rfl, hd⟩ := h (a, marks) t hm
  have hplain : Derives n b ((r a).withFlags true) (Mark.word marks) := (hd _ (renders_word marks)).1
  rw [Reading.withFlags_true] at hplain
  exact ⟨_, hw, hplain⟩

/--
Whatever a production reads is a word of the grammar and means what the production returns. The ways to read a
primary are asked only where their first token stands.
-/
theorem takes_production (hs : Within limit n b s) (steps : Nat) {p : Production}
    (hp : p.rank = 1 → s.cursor.current.kind.production? = some p) :
    Takes (p.read (.standard limit) steps) s fun e w => Derives n b (.part p e) w :=
  (faithful_production limit .plain steps p s n b hs hp).takes (erase_production _ _ _)

end

/-! ## Whole streams -/

/-- The transcript of an accepted stream is of all tokens before the end, and can be written out in any way. -/
theorem Transcript.rendered {limit : Nat} {tokens : List Token} {e : Expr} {marks : List Mark}
    (h : Transcript limit tokens e marks) (style : Style) :
    Rendered style limit false (.part .comparison e) marks ∧ Mark.word marks = beforeEnd tokens := by
  have hs : Within limit limit false (ParserState.ofTokens tokens) := ⟨Nat.zero_add limit, rfl⟩
  have hwhole : Writes (Read.wholeInput (.standard limit)) (.ofTokens tokens) fun e marks =>
      Rendered style limit false (.part .comparison e) marks ∧ Mark.word marks = beforeEnd tokens := by
    have hrun : Writes (Read.run (.standard limit) .comparison) (.ofTokens tokens) fun e marks =>
        Rendered style limit false (.part .comparison e) marks :=
      writes_state ((faithful_production limit style _).writes_again hs (p := .comparison) (by decide))
    refine hrun.bind ?_
    intro e first t ht he
    refine writes_currentKind ?_
    split
    · next hk =>
      refine writes_pure ?_
      rw [List.append_nil]
      have hne : ∀ token ∈ Mark.word first, token.kind ≠ .eof := by
        intro token hmem
        obtain ⟨w, hw⟩ := exists_renders style first
        exact (he w hw).1.kind_ne_eof token (hw.mem_of_mem_word hmem)
      have ha : (Cursor.ofTokens tokens).ahead = Mark.word first ++ t.cursor.ahead := ht.ahead
      refine ⟨he, ?_⟩
      rw [← beforeEnd_ahead, ha, beforeEnd_append hne, beforeEnd_of_current hk, List.append_nil]
    · exact writes_of_fails takes_unexpected
  obtain ⟨t, ht⟩ := transcript_iff.1 h
  obtain ⟨w, -, -, hP⟩ := hwhole (e, marks) t ht
  exact hP

/-- Reading a stream to its end passes all tokens before the first end, and they are a comparison. -/
theorem derives_of_wholeInput {limit : Nat} {tokens : List Token} {e : Expr} {u : ParserState}
    (h : wholeInput (.standard limit) (.ofTokens tokens) = .ok e u) :
    Derives limit false (.part .comparison e) (beforeEnd tokens) := by
  obtain ⟨marks, ht⟩ := exists_transcript_iff.2 (settled_eq_ok_iff.2 ⟨u, h⟩)
  obtain ⟨hd, hword⟩ := ht.rendered .plain
  have hplain := (hd _ (renders_word marks)).1
  rwa [show Style.plain.keepsFlags = true from rfl, Reading.withFlags_true, hword] at hplain

/-- A stream is accepted only if its tokens before the end are a comparison that means the result. -/
theorem derives_of_parseTokens {limit : Nat} {tokens : List Token} {e : Expr}
    (h : parseTokens limit tokens = .ok e) : Derives limit false (.part .comparison e) (beforeEnd tokens) := by
  obtain ⟨u, hu⟩ := settled_eq_ok_iff.1 h
  exact derives_of_wholeInput hu

theorem eq_ok_of_toOption {ε α : Type} {x : Except ε α} {a : α} (h : x.toOption = some a) : x = .ok a := by
  cases x with
  | error error => cases h
  | ok b =>
    cases h
    rfl

/-- The tokens of `|x^T|2`, with one more of them after a first end. -/
theorem derives_of_parseTokens_bars :
    let tokens : List Token := [⟨.bar, "|", .ofBytes 0 1⟩, ⟨.identifier, "x", .ofBytes 1 1⟩,
      ⟨.caret, "^", .ofBytes 2 1⟩, ⟨.transpose, "T", .ofBytes 3 1⟩, ⟨.bar, "|", .ofBytes 4 1⟩,
      ⟨.number, "2", .ofBytes 5 1⟩, ⟨.eof, "EOF", .ofBytes 6 0⟩, ⟨.plus, "+", .ofBytes 6 1⟩]
    let e := Expr.product (.call "abs" [.transpose (.symbol "x")]) (.number "2")
    parseTokens 2 tokens = .ok e ∧ Derives 2 false (.part .comparison e) (beforeEnd tokens) := by
  intro tokens e
  have h : parseTokens 2 tokens = .ok e := eq_ok_of_toOption (by decide +kernel)
  exact ⟨h, derives_of_parseTokens h⟩

end TexFormula

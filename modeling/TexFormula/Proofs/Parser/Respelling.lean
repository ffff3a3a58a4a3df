import TexFormula.Proofs.Grammar.Accounts
import TexFormula.Proofs.Parser.Completeness
import TexFormula.Proofs.Parser.Faithful

/-!
# Signs and delimiters that may be written or left out

* `Mark.places marks` : how many times neighbours were multiplied; `Mark.insertAll stars marks` : the tokens passed,
  with a star at each of these places;
* `Delimited` : a group without `\left` and the tokens around it, to be written as it stands or with `\left` and
  `\right`; `Mark.groups after marks` : the groups that were read in this way;
* `fromEnd` : the tokens of a stream from its first end on;
* `parseTokens_of_insertAll` : a star between neighbours changes nothing but the flags, and these change no value;
* `parseTokens_of_wrapped` : `\left` and `\right` change nothing.
-/

namespace TexFormula

/-! ## Edits -/

mutual

def Mark.placesIn : Mark → Nat
  | .token _ => 0
  | .neighbours => 1
  | .group _ inside _ => Mark.places inside

def Mark.places : List Mark → Nat
  | [] => 0
  | mark :: marks => mark.placesIn + Mark.places marks

end

mutual

/-- The tokens that a mark stands for, with the first of the stars where neighbours were multiplied. -/
def Mark.insert (stars : List Token) : Mark → List Token
  | .token passed => [passed]
  | .neighbours => stars.take 1
  | .group opening inside closing => opening :: (Mark.insertAll stars inside ++ [closing])

/-- The tokens passed, with the given stars, in their order, at the places where neighbours were multiplied. -/
def Mark.insertAll (stars : List Token) : List Mark → List Token
  | [] => []
  | mark :: marks => mark.insert stars ++ Mark.insertAll (stars.drop mark.placesIn) marks

end

/-- A group without `\left`: its delimiters, and all tokens before, between and after them. -/
structure Delimited where
  before : List Token
  opening : Token
  inside : List Token
  closing : Token
  after : List Token

namespace Delimited

def written (group : Delimited) : List Token :=
  group.before ++ group.opening :: (group.inside ++ group.closing :: group.after)

/-- The tokens with `left` before the first delimiter and `right` before the other. -/
def wrapped (left right : Token) (group : Delimited) : List Token :=
  group.before ++ left :: group.opening :: (group.inside ++ right :: group.closing :: group.after)

def precededBy (tokens : List Token) (group : Delimited) : Delimited :=
  { group with before := tokens ++ group.before }

theorem written_precededBy (tokens : List Token) (group : Delimited) :
    (group.precededBy tokens).written = tokens ++ group.written := List.append_assoc _ _ _

theorem wrapped_precededBy (left right : Token) (tokens : List Token) (group : Delimited) :
    (group.precededBy tokens).wrapped left right = tokens ++ group.wrapped left right := List.append_assoc _ _ _

end Delimited

mutual

/-- The groups without `\left` in a mark that has the tokens `after` after it. -/
def Mark.groupsIn (after : List Token) : Mark → List Delimited
  | .token _ | .neighbours => []
  | .group opening inside closing => ⟨[], opening, Mark.word inside, closing, after⟩ ::
    (Mark.groups (closing :: after) inside).map (Delimited.precededBy [opening])

/-- The groups without `\left` in a transcript that has the tokens `after` after it. -/
def Mark.groups (after : List Token) : List Mark → List Delimited
  | [] => []
  | mark :: marks => mark.groupsIn (Mark.word marks ++ after) ++
    (Mark.groups after marks).map (Delimited.precededBy mark.tokens)

end

def fromEnd (tokens : List Token) : List Token := tokens.dropWhile fun token => token.kind != .eof

theorem beforeEnd_append_fromEnd (tokens : List Token) : beforeEnd tokens ++ fromEnd tokens = tokens :=
  List.takeWhile_append_dropWhile

theorem beforeEnd_fromEnd {w : List Token} (hw : ∀ token ∈ w, token.kind ≠ .eof) (tokens : List Token) :
    beforeEnd (w ++ fromEnd tokens) = w := by
  have hnone : beforeEnd (fromEnd tokens) = [] := by
    unfold beforeEnd fromEnd
    induction tokens with
    | nil => rfl
    | cons token tokens ih =>
      rw [List.dropWhile_cons]
      split
      · exact ih
      · next hk => rw [List.takeWhile_cons, if_neg hk]
  rw [beforeEnd_append hw, hnone, List.append_nil]

/-! ## The edits are ways to write the transcript out -/

section
variable {marks : List Mark}

theorem renders_insertAll : ∀ (marks : List Mark) {stars : List Token}, (∀ star ∈ stars, star.kind = .star) →
    Mark.places marks ≤ stars.length → Renders .starred marks (Mark.insertAll stars marks)
  | [], _, _, _ => by
    rw [Mark.insertAll]
    exact .nil
  | .token token :: marks, stars, hs, hle => by
    rw [Mark.places, Mark.placesIn, Nat.zero_add] at hle
    rw [Mark.insertAll, Mark.insert, Mark.placesIn, List.drop_zero]
    exact .token (renders_insertAll marks hs hle)
  | .neighbours :: marks, stars, hs, hle => by
    rw [Mark.places, Mark.placesIn] at hle
    rw [Mark.insertAll, Mark.insert, Mark.placesIn]
    cases stars with
    | nil =>
      rw [List.length_nil] at hle
      omega
    | cons star stars =>
      obtain ⟨hstar, hs⟩ := List.forall_mem_cons.1 hs
      rw [List.length_cons] at hle
      rw [List.drop_succ_cons, List.drop_zero]
      exact .neighbours ⟨star, hstar, rfl⟩ (renders_insertAll marks hs (by omega))
  | .group opening inside closing :: marks, stars, hs, hle => by
    rw [Mark.places, Mark.placesIn] at hle
    rw [Mark.insertAll, Mark.insert, Mark.placesIn, List.cons_append, List.append_assoc, List.singleton_append]
    refine .bare (renders_insertAll inside hs (by omega)) (renders_insertAll marks ?_ ?_)
    · exact fun star hmem => hs star (List.mem_of_mem_drop hmem)
    · rw [List.length_drop]
      omega

theorem countKind_append (kind : Kind) (v w : List Token) :
    countKind kind (v ++ w) = countKind kind v + countKind kind w := by
  unfold countKind
  rw [List.map_append, List.count_append]

theorem countKind_cons (kind : Kind) (token : Token) (w : List Token) :
    countKind kind (token :: w) = countKind kind w + if token.kind = kind then 1 else 0 := by
  simp [countKind, List.count_cons]

/-- However the transcript is written out with stars, there is one more star for each place. -/
theorem Renders.countKind_eq {w : List Token} (h : Renders .starred marks w) {kind : Kind}
    (hl : Kind.left ≠ kind) (hr : Kind.right ≠ kind) :
    countKind kind w = countKind kind (Mark.word marks) + Mark.places marks * if Kind.star = kind then 1 else 0 := by
  induction h with
  | nil => simp [Mark.places]
  | token _ ih =>
    rw [Mark.word_cons, Mark.tokens_token, List.singleton_append, countKind_cons, countKind_cons, ih, Mark.places,
      Mark.placesIn, Nat.zero_add]
    omega
  | neighbours hs _ ih =>
    obtain ⟨star, hstar, rfl⟩ := hs
    rw [Mark.word_cons, Mark.tokens_neighbours, List.singleton_append, List.nil_append, countKind_cons, hstar, ih,
      Mark.places, Mark.placesIn, Nat.add_mul]
    omega
  | bare _ _ ihi ih =>
    rw [Mark.word_cons, Mark.tokens_group, List.cons_append, List.append_assoc, List.singleton_append, Mark.places,
      Mark.placesIn, Nat.add_mul]
    simp only [countKind_append, countKind_cons, ihi, ih]
    omega
  | wrapped hleft hright _ _ ihi ih =>
    rw [Mark.word_cons, Mark.tokens_group, List.cons_append, List.append_assoc, List.singleton_append, Mark.places,
      Mark.placesIn, Nat.add_mul]
    simp only [countKind_append, countKind_cons, ihi, ih, hleft, hright, if_neg hl, if_neg hr]
    omega

/-- With `\left` and `\right` at one of its groups, the transcript is written out in one of its ways. -/
theorem exists_renders_of_mem_groups {left right : Token} (hl : left.kind = .left) (hr : right.kind = .right) :
    ∀ (marks : List Mark) {after : List Token} {group : Delimited}, group ∈ Mark.groups after marks →
      group.written = Mark.word marks ++ after ∧
        ∃ w, group.wrapped left right = w ++ after ∧ Renders .plain marks w
  | [], _, _, h => by
    rw [Mark.groups] at h
    cases h
  | mark :: marks, after, group, h => by
    rw [Mark.groups, List.mem_append] at h
    rcases h with h | h
    · cases mark with
      | token token =>
        rw [Mark.groupsIn] at h
        cases h
      | neighbours =>
        rw [Mark.groupsIn] at h
        cases h
      | group opening inside closing =>
        rw [Mark.groupsIn, List.mem_cons, List.mem_map] at h
        rcases h with rfl | ⟨inner, hinner, rfl⟩
        · refine ⟨by simp [Delimited.written], _, ?_, .wrapped hl hr (renders_word inside) (renders_word marks)⟩
          simp [Delimited.wrapped]
        · obtain ⟨hwritten, w, hwrapped, hrender⟩ := exists_renders_of_mem_groups hl hr inside hinner
          refine ⟨?_, _, ?_, .bare hrender (renders_word marks)⟩
          · rw [Delimited.written_precededBy, hwritten]
            simp
          · rw [Delimited.wrapped_precededBy, hwrapped]
            simp
    · obtain ⟨inner, hinner, rfl⟩ := List.mem_map.1 h
      obtain ⟨hwritten, w, hwrapped, hrender⟩ := exists_renders_of_mem_groups hl hr marks hinner
      refine ⟨?_, _, ?_, (renders_word [mark]).append hrender⟩
      · rw [Delimited.written_precededBy, hwritten]
        simp
      · rw [Delimited.wrapped_precededBy, hwrapped]
        simp

end

/-! ## Accepted as before -/

section
variable {limit : Nat} {tokens w : List Token} {e : Expr} {marks : List Mark} {style : Style}

theorem Transcript.derives (h : Transcript limit tokens e marks) (hw : Renders style marks w) :
    Derives limit false (.part .comparison (e.withFlags style.keepsFlags)) w :=
  ((h.rendered style).1 w hw).1

theorem Transcript.parseTokens_eq (h : Transcript limit tokens e marks) (hw : Renders style marks w) :
    parseTokens limit (w ++ fromEnd tokens) = .ok (e.withFlags style.keepsFlags) := by
  have hd := h.derives hw
  refine parseTokens_of_beforeEnd ?_ (Nat.le_refl limit)
  rw [beforeEnd_fromEnd hd.kind_ne_eof]
  exact hd

/-- Flags at any other node than a product; no production makes one. -/
def Ledger.strays : Ledger where
  node e := (e.isImplicit && !e.isBinary multiplication).toInt
  token _ := 0

/-- The tree has a flag for each place where neighbours were multiplied. -/
theorem Transcript.places_eq (h : Transcript limit tokens e marks) : Mark.places marks = e.count Expr.isImplicit := by
  obtain ⟨w, hw⟩ := exists_renders .starred marks
  have hbefore := (h.derives (renders_word marks)).accounts.products
  have hafter := (h.derives hw).accounts.products
  have hstray := (h.derives (renders_word marks)).balance .strays
  simp only [Style.keepsFlags, Expr.withFlags_true] at hbefore hstray
  rw [Style.keepsFlags, ← Expr.explicit, Expr.count_explicit, hw.countKind_eq (by decide) (by decide),
    hw.countKind_eq (by decide) (by decide), hw.countKind_eq (by decide) (by decide)] at hafter
  have hnone : e.count (fun node => node.isImplicit && !node.isBinary multiplication) = 0 := by
    simpa [Ledger.strays, Expr.total_toInt] using hstray
  rw [Expr.count_multiplication hnone, hbefore] at hafter
  simp at hafter
  omega

/--
Neighbours are multiplied as if a star stood between them. There are as many places for a star as the tree has
products of neighbours; with any stars at these places the stream is accepted within the same limit, and its tree is
the same but for the flags. Both trees have the same value, leave the same bindings and put the same questions to an
engine, in the same order.
-/
theorem parseTokens_of_insertAll (h : parseTokens limit tokens = .ok e) :
    ∃ marks, Transcript limit tokens e marks ∧ Mark.word marks = beforeEnd tokens ∧
      Mark.places marks = e.count Expr.isImplicit ∧
      (∀ stars : List Token, stars.length = e.count Expr.isImplicit → (∀ star ∈ stars, star.kind = .star) →
        parseTokens limit (Mark.insertAll stars marks ++ fromEnd tokens) = .ok e.explicit) ∧
      ∀ (V E : Type) (engine : Engine V E) (held : EvalState V),
        e.explicit.evaluate engine held = e.evaluate engine held := by
  obtain ⟨marks, ht⟩ := exists_transcript_iff.2 h
  refine ⟨marks, ht, (ht.rendered .plain).2, ht.places_eq, ?_, ?_⟩
  · intro stars hlength hstars
    refine ht.parseTokens_eq (renders_insertAll marks hstars ?_)
    rw [ht.places_eq, hlength]
  · intro V E engine held
    rw [Expr.explicit, Expr.evaluate_withFlags]

/-- The tokens of `|x_{2k}y|`: neighbours in braces that are no name, and neighbours in bare bars. -/
theorem parseTokens_of_insertAll_bars :
    let tokens : List Token := [⟨.bar, "|", .ofBytes 0 1⟩, ⟨.identifier, "x", .ofBytes 1 1⟩,
      ⟨.underscore, "_", .ofBytes 2 1⟩, ⟨.openCurly, "\x7b", .ofBytes 3 1⟩, ⟨.number, "2", .ofBytes 4 1⟩,
      ⟨.identifier, "k", .ofBytes 5 1⟩, ⟨.closeCurly, "\x7d", .ofBytes 6 1⟩, ⟨.identifier, "y", .ofBytes 7 1⟩,
      ⟨.bar, "|", .ofBytes 8 1⟩, ⟨.eof, "", .ofBytes 9 0⟩, ⟨.star, "*", .ofBytes 9 1⟩]
    let first : Token := ⟨.star, "*", .ofBytes 5 1⟩
    let second : Token := ⟨.star, "", .ofBytes 8 1⟩
    let index := Expr.product (.number "2") (.symbol "k")
    let e := Expr.call "abs" [.product (.accessor (.symbol "x") [index]) (.symbol "y")]
    parseTokens 3 tokens = .ok e ∧ e.count Expr.isImplicit = 2 ∧
      parseTokens 3 ((tokens.insertIdx 7 second).insertIdx 5 first) = .ok e.explicit := by
  intro tokens first second index e
  have h : parseTokens 3 tokens = .ok e := eq_ok_of_toOption (by decide +kernel)
  have hcount : e.count Expr.isImplicit = 2 := by decide +kernel
  obtain ⟨marks, ht, -, -, hstars, -⟩ := parseTokens_of_insertAll h
  have hread : (transcribe 3 tokens).map (fun read => Mark.insertAll [first, second] read.2 ++ fromEnd tokens) =
      some ((tokens.insertIdx 7 second).insertIdx 5 first) := by decide +kernel
  rw [ht, Option.map_some, Option.some.injEq] at hread
  refine ⟨h, hcount, ?_⟩
  rw [← hread]
  exact hstars [first, second] hcount.symm (by decide)

/--
It makes no difference whether `\left` and `\right` stand at a group. Whichever parentheses or bars without them were
taken for a group, with a `\left` before the first and a `\right` before the other the stream is accepted within the
same limit and has the same tree.
-/
theorem parseTokens_of_wrapped {left right : Token} (h : parseTokens limit tokens = .ok e) (hl : left.kind = .left)
    (hr : right.kind = .right) :
    ∃ marks, Transcript limit tokens e marks ∧ ∀ group ∈ Mark.groups (fromEnd tokens) marks,
      group.written = tokens ∧ parseTokens limit (group.wrapped left right) = .ok e := by
  obtain ⟨marks, ht⟩ := exists_transcript_iff.2 h
  refine ⟨marks, ht, fun group hgroup => ?_⟩
  obtain ⟨hwritten, w, hwrapped, hrender⟩ := exists_renders_of_mem_groups hl hr marks hgroup
  constructor
  · rw [hwritten, (ht.rendered .plain).2, beforeEnd_append_fromEnd]
  · rw [hwrapped, ht.parseTokens_eq hrender, Style.keepsFlags, Expr.withFlags_true]

/-- The tokens of `2|x_(1)|`: bare bars, and parentheses in them that are an index. -/
theorem parseTokens_of_wrapped_bars :
    let tokens : List Token := [⟨.number, "2", .ofBytes 0 1⟩, ⟨.bar, "|", .ofBytes 1 1⟩,
      ⟨.identifier, "x", .ofBytes 2 1⟩, ⟨.underscore, "_", .ofBytes 3 1⟩, ⟨.openParen, "(", .ofBytes 4 1⟩,
      ⟨.number, "1", .ofBytes 5 1⟩, ⟨.closeParen, ")", .ofBytes 6 1⟩, ⟨.bar, "|", .ofBytes 7 1⟩]
    let left : Token := ⟨.left, "\\left", .ofBytes 1 5⟩
    let right : Token := ⟨.right, "\\right", .ofBytes 7 6⟩
    let e := Expr.product (.number "2") (.call "abs" [.accessor (.symbol "x") [.number "1"]])
    parseTokens 3 tokens = .ok e ∧ parseTokens 3 ((tokens.insertIdx 7 right).insertIdx 1 left) = .ok e ∧
      parseTokens 3 ((tokens.insertIdx 6 right).insertIdx 4 left) = .ok e := by
  intro tokens left right e
  have h : parseTokens 3 tokens = .ok e := eq_ok_of_toOption (by decide +kernel)
  have hl : left.kind = .left := rfl
  have hr : right.kind = .right := rfl
  obtain ⟨marks, ht, hgroups⟩ := parseTokens_of_wrapped h hl hr
  have hread : (transcribe 3 tokens).map
      (fun read => (Mark.groups (fromEnd tokens) read.2).map (Delimited.wrapped left right)) =
        some [(tokens.insertIdx 7 right).insertIdx 1 left, (tokens.insertIdx 6 right).insertIdx 4 left] := by
    decide +kernel
  rw [ht, Option.map_some, Option.some.injEq] at hread
  have hall : ∀ w ∈ (Mark.groups (fromEnd tokens) marks).map (Delimited.wrapped left right),
      parseTokens 3 w = .ok e := List.forall_mem_map.2 fun group hgroup => (hgroups group hgroup).2
  rw [hread] at hall
  exact ⟨h, hall _ List.mem_cons_self, hall _ (List.mem_cons_of_mem _ List.mem_cons_self)⟩

end

end TexFormula

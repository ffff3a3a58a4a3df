import TexFormula.Proofs.Expr.Flags
import TexFormula.Proofs.Grammar.Basic
import TexFormula.Proofs.Parser.Transcript

/-!
# Writing a transcript out again

A transcript can be written out with a star at each place where neighbours were multiplied, and with `\left` and
`\right` at any of its groups. What was read is then there still, as the grammar sees it.

* `Style` : whether stars are written;
* `Renders style marks w` : the word `w` is one of the ways to write the transcript out;
* `Kept v w` : all that decides how a word is read from the outside: its first tokens, its last one, and whether it
  can be a name in braces;
* `Written style P marks` : `P` holds of the word, in whichever way it is written out, and nothing that counts on the
  outside is changed. `Written.append`, `Written.infixed`, `Written.neighbours` and `Written.group` put parts together.
-/

namespace TexFormula

/-! ## Ways to write -/

/-- Whether stars are written between neighbours. -/
inductive Style
  | plain
  | starred

namespace Style

/-- What may be written between neighbours. -/
def Admits : Style → List Token → Prop
  | plain, sign => sign = []
  | starred, sign => ∃ star : Token, star.kind = .star ∧ sign = [star]

def keepsFlags : Style → Bool
  | plain => true
  | starred => false

theorem exists_admits (style : Style) : ∃ sign, style.Admits sign := by
  cases style with
  | plain => exact ⟨[], rfl⟩
  | starred => exact ⟨_, ⟨.star, "*", .ofBytes 0 1⟩, rfl, rfl⟩

end Style

/-- The words that a transcript can be written out as. -/
inductive Renders (style : Style) : List Mark → List Token → Prop
  | nil : Renders style [] []
  | token {token : Token} {marks : List Mark} {w : List Token} :
    Renders style marks w → Renders style (.token token :: marks) (token :: w)
  | neighbours {sign : List Token} {marks : List Mark} {w : List Token} :
    style.Admits sign → Renders style marks w → Renders style (.neighbours :: marks) (sign ++ w)
  | bare {opening closing : Token} {inside marks : List Mark} {v w : List Token} :
    Renders style inside v → Renders style marks w →
    Renders style (.group opening inside closing :: marks) (opening :: (v ++ closing :: w))
  | wrapped {opening closing left right : Token} {inside marks : List Mark} {v w : List Token} :
    left.kind = .left → right.kind = .right → Renders style inside v → Renders style marks w →
    Renders style (.group opening inside closing :: marks) (left :: opening :: (v ++ right :: closing :: w))

section
variable {style : Style} {marks first rest : List Mark} {v w v' w' : List Token}

theorem Renders.append (h : Renders style first v) (h' : Renders style rest w) :
    Renders style (first ++ rest) (v ++ w) := by
  induction h with
  | nil => exact h'
  | token _ ih => exact .token ih
  | neighbours hs _ ih =>
    rw [List.append_assoc]
    exact .neighbours hs ih
  | bare hi _ _ ih => simpa using Renders.bare hi ih
  | wrapped hl hr hi _ _ ih => simpa using Renders.wrapped hl hr hi ih

theorem exists_of_renders_append (h : Renders style (first ++ rest) w) :
    ∃ v v', w = v ++ v' ∧ Renders style first v ∧ Renders style rest v' := by
  induction first generalizing w with
  | nil => exact ⟨[], w, rfl, .nil, h⟩
  | cons mark first ih =>
    rw [List.cons_append] at h
    cases h with
    | token h =>
      obtain ⟨v, v', rfl, hv, hv'⟩ := ih h
      exact ⟨_, v', rfl, .token hv, hv'⟩
    | neighbours hs h =>
      obtain ⟨v, v', rfl, hv, hv'⟩ := ih h
      exact ⟨_, v', (List.append_assoc _ _ _).symm, .neighbours hs hv, hv'⟩
    | bare hi h =>
      obtain ⟨v, v', rfl, hv, hv'⟩ := ih h
      exact ⟨_, v', by simp, .bare hi hv, hv'⟩
    | wrapped hl hr hi h =>
      obtain ⟨v, v', rfl, hv, hv'⟩ := ih h
      exact ⟨_, v', by simp, .wrapped hl hr hi hv, hv'⟩

theorem Renders.mem_of_mem_word (h : Renders style marks w) {token : Token} (ht : token ∈ Mark.word marks) :
    token ∈ w := by
  induction h with
  | nil => exact ht
  | token _ ih =>
    rw [Mark.word_cons, Mark.tokens_token, List.singleton_append, List.mem_cons] at ht
    exact List.mem_cons.2 (ht.imp_right ih)
  | neighbours _ _ ih =>
    rw [Mark.word_cons, Mark.tokens_neighbours, List.nil_append] at ht
    exact List.mem_append_right _ (ih ht)
  | bare _ _ ihi ih | wrapped _ _ _ _ ihi ih =>
    rw [Mark.word_cons, Mark.tokens_group] at ht
    simp only [List.cons_append, List.append_assoc, List.mem_cons, List.mem_append, List.not_mem_nil, false_or] at ht ⊢
    rcases ht with rfl | ht | rfl | ht
    · simp
    · simp [ihi ht]
    · simp
    · simp [ih ht]

/-- What was passed is one way to write the transcript out. -/
theorem renders_word : ∀ marks, Renders .plain marks (Mark.word marks)
  | [] => by
    rw [Mark.word_nil]
    exact .nil
  | .token token :: marks => by
    rw [Mark.word_cons, Mark.tokens_token]
    exact .token (renders_word marks)
  | .neighbours :: marks => by
    rw [Mark.word_cons, Mark.tokens_neighbours]
    exact .neighbours rfl (renders_word marks)
  | .group opening inside closing :: marks => by
    rw [Mark.word_cons, Mark.tokens_group, List.cons_append, List.append_assoc, List.singleton_append]
    exact .bare (renders_word inside) (renders_word marks)

theorem exists_renders (style : Style) : ∀ marks, ∃ w, Renders style marks w
  | [] => ⟨[], .nil⟩
  | .token _ :: marks => by
    obtain ⟨w, hw⟩ := exists_renders style marks
    exact ⟨_, .token hw⟩
  | .neighbours :: marks => by
    obtain ⟨w, hw⟩ := exists_renders style marks
    obtain ⟨sign, hs⟩ := style.exists_admits
    exact ⟨_, .neighbours hs hw⟩
  | .group _ inside _ :: marks => by
    obtain ⟨v, hv⟩ := exists_renders style inside
    obtain ⟨w, hw⟩ := exists_renders style marks
    exact ⟨_, .bare hv hw⟩

theorem eq_of_renders_tokens (h : Renders style (v.map .token) w) : w = v := by
  induction v generalizing w with
  | nil =>
    cases h
    rfl
  | cons token v ih =>
    cases h with
    | token h => rw [ih h]

end

/-! ## What counts on the outside -/

/-- How a word starts whose first group may have been given a `\left`. -/
inductive Start : List Token → List Token → Prop
  | same {token : Token} {v w : List Token} : token.kind ≠ .left → Start (token :: v) (token :: w)
  | pair {token second : Token} {v w : List Token} : Start (token :: second :: v) (token :: second :: w)
  | wrapped {left opening : Token} {v w : List Token} :
    left.kind = .left → opening.kind = .openParen ∨ opening.kind = .bar → Start (opening :: v) (left :: opening :: w)

/-- Written anew, the word `v` is `w`, and it is read like `v` from the outside. -/
structure Kept (v w : List Token) : Prop where
  start : Start v w
  last : lastKind? w = lastKind? v
  /-- A word that was changed has a token that no name has. -/
  changed : w = v ∨ ∃ token ∈ w, token.kind ∈ [Kind.star, .left, .right]

section
variable {v w v' w' : List Token}

theorem Start.append (h : Start v w) (v' w' : List Token) : Start (v ++ v') (w ++ w') := by
  cases h with
  | same hk => exact .same hk
  | pair => exact .pair
  | wrapped hl ho => exact .wrapped hl ho

theorem Start.ne_nil (h : Start v w) : v ≠ [] ∧ w ≠ [] := by
  cases h <;> simp

theorem Start.two_le_length (h : Start v w) (hv : headKind? v = some .left) : 2 ≤ v.length := by
  cases h with
  | same hk => exact absurd (Option.some.inj hv) hk
  | pair => simp
  | wrapped _ ho =>
    rw [Option.some.inj hv] at ho
    exact absurd ho (by decide)

theorem start_self (hw : w ≠ []) (hk : headKind? w ≠ some .left) : Start w w := by
  obtain ⟨token, w, rfl⟩ := List.exists_cons_of_ne_nil hw
  exact .same fun he => hk (by rw [headKind?_cons, he])

theorem lastKind?_append (v : List Token) (hw : w ≠ []) : lastKind? (v ++ w) = lastKind? w := by
  unfold lastKind?
  rw [List.getLast?_append_of_ne_nil v hw]

namespace Kept

theorem refl (h : Start v v) : Kept v v := ⟨h, rfl, .inl rfl⟩

theorem append (h : Kept v w) (h' : Kept v' w') : Kept (v ++ v') (w ++ w') where
  start := h.start.append v' w'
  last := by rw [lastKind?_append w h'.start.ne_nil.2, lastKind?_append v h'.start.ne_nil.1, h'.last]
  changed := by
    rcases h.changed with rfl | ⟨token, ht, hk⟩
    · rcases h'.changed with rfl | ⟨token, ht, hk⟩
      · exact .inl rfl
      · exact .inr ⟨token, List.mem_append_right _ ht, hk⟩
    · exact .inr ⟨token, List.mem_append_left _ ht, hk⟩

theorem append_sign {style : Style} {sign : List Token} (hs : style.Admits sign) (h : Kept v w) (h' : Kept v' w') :
    Kept (v ++ v') (w ++ (sign ++ w')) := by
  cases style with
  | plain =>
    rw [show sign = [] from hs]
    exact h.append h'
  | starred =>
    obtain ⟨star, hk, rfl⟩ := hs
    refine ⟨h.start.append _ _, ?_, .inr ⟨star, by simp, by simp [hk]⟩⟩
    rw [← List.append_assoc, lastKind?_append _ h'.start.ne_nil.2, lastKind?_append v h'.start.ne_nil.1, h'.last]

theorem headKind?_of_ne_left (h : Kept v w) {kind : Kind} (hw : headKind? w = some kind) (hk : kind ≠ .left) :
    headKind? v = some kind := by
  cases h.start with
  | same | pair => exact hw
  | wrapped hl _ =>
    rw [headKind?_cons, hl] at hw
    exact absurd (Option.some.inj hw).symm hk

theorem headKind?_eq (h : Kept v w) {kind : Kind} (hv : headKind? v = some kind)
    (hk : kind ≠ .openParen ∧ kind ≠ .bar) : headKind? w = some kind := by
  cases h.start with
  | same | pair => exact hv
  | wrapped _ ho =>
    obtain rfl := Option.some.inj hv
    exact absurd ho (not_or.2 hk)

theorem opensParenthesis_iff (h : Kept v w) : OpensParenthesis w ↔ OpensParenthesis v := by
  unfold OpensParenthesis
  cases h.start with
  | same hk => simp [hk]
  | pair => rfl
  | wrapped hl ho => rcases ho with ho | ho <;> simp [hl, ho]

/-- Nothing becomes a name in braces by being written anew. -/
theorem bracedRun (h : Kept v w) (hw : BracedRun w) : BracedRun v := by
  rcases h.changed with rfl | ⟨token, ht, hk⟩
  · exact hw
  · obtain ⟨opening, run, closing, rfl, ho, hc, ⟨name, hs⟩, -, -⟩ := hw
    simp only [List.mem_cons, List.mem_append, List.not_mem_nil, or_false] at ht
    rcases ht with rfl | ht | rfl
    · rw [ho] at hk
      exact absurd hk (by decide)
    · simp only [List.mem_cons, List.not_mem_nil, or_false] at hk
      rcases hk with hk | hk | hk
      · exact absurd hk (kind_ne_of_isSome (hs.isSome ht) (by decide))
      · exact absurd hk (kind_ne_of_isSome (hs.isSome ht) (by decide))
      · exact absurd hk (kind_ne_of_isSome (hs.isSome ht) (by decide))
    · rw [hc] at hk
      exact absurd hk (by decide)

end Kept

end

/-! ## Whichever way it is written -/

/-- In whichever way the transcript is written out, `P` holds of the word, and from the outside it is read alike. -/
def Written (style : Style) (P : List Token → Prop) (marks : List Mark) : Prop :=
  ∀ w, Renders style marks w → P w ∧ Kept (Mark.word marks) w

section
variable {style : Style} {P Q R : List Token → Prop} {marks first rest : List Mark}

theorem Written.mono (h : Written style P marks) (hq : ∀ w, Kept (Mark.word marks) w → P w → Q w) :
    Written style Q marks := by
  intro w hw
  obtain ⟨hP, hk⟩ := h w hw
  exact ⟨hq w hk hP, hk⟩

theorem Written.word_ne_nil (h : Written style P marks) : Mark.word marks ≠ [] := by
  obtain ⟨w, hw⟩ := exists_renders style marks
  exact (h w hw).2.start.ne_nil.1

theorem Written.two_le_length (h : Written style P marks) (hw : headKind? (Mark.word marks) = some .left) :
    2 ≤ (Mark.word marks).length := by
  obtain ⟨w, hr⟩ := exists_renders style marks
  exact (h w hr).2.start.two_le_length hw

theorem written_tokens {w : List Token} (hs : Start w w) (hP : P w) : Written style P (w.map .token) := by
  intro w' hw
  rw [eq_of_renders_tokens hw, Mark.word_map_token]
  exact ⟨hP, .refl hs⟩

theorem written_token {token : Token} (hk : token.kind ≠ .left) : Written style (· = [token]) [.token token] :=
  written_tokens (w := [token]) (.same hk) rfl

theorem Written.append (h : Written style P first) (h' : Written style Q rest)
    (hr : ∀ v w, P v → Q w → R (v ++ w)) : Written style R (first ++ rest) := by
  intro w hw
  obtain ⟨v, v', rfl, hv, hv'⟩ := exists_of_renders_append hw
  obtain ⟨hP, hk⟩ := h v hv
  obtain ⟨hQ, hk'⟩ := h' v' hv'
  rw [Mark.word_append]
  exact ⟨hr v v' hP hQ, hk.append hk'⟩

theorem Written.joined (h : Written style P first) (h' : Written style Q rest) :
    Written style (fun u => ∃ v w, u = v ++ w ∧ P v ∧ Q w) (first ++ rest) :=
  h.append h' fun v w hv hw => ⟨v, w, rfl, hv, hw⟩

theorem Written.cons {token : Token} (hk : token.kind ≠ .left) (h : Written style P marks)
    (hq : ∀ w, P w → Q (token :: w)) : Written style Q (.token token :: marks) := by
  refine (written_token hk).append h ?_
  rintro _ w rfl hw
  exact hq w hw

theorem Written.between (h : Written style P marks) (before after : List Token) (hb : Start before before)
    (ha : Start after after) (hq : ∀ w, P w → Q (before ++ (w ++ after))) :
    Written style Q (before.map .token ++ (marks ++ after.map .token)) := by
  have hbefore : Written style (· = before) (before.map .token) := written_tokens hb rfl
  have hafter : Written style (· = after) (after.map .token) := written_tokens ha rfl
  refine hbefore.append (h.joined hafter) ?_
  rintro _ _ rfl ⟨w, _, rfl, hw, rfl⟩
  exact hq w hw

theorem Written.infixed {sign : Token} (h : Written style P first) (hk : sign.kind ≠ .left)
    (h' : Written style Q rest) (hr : ∀ v w, P v → Q w → R (v ++ sign :: w)) :
    Written style R (first ++ .token sign :: rest) := by
  refine h.append (h'.cons (Q := fun w => ∃ w', w = sign :: w' ∧ Q w') hk fun w hw => ⟨w, rfl, hw⟩) ?_
  rintro v _ hv ⟨w, rfl, hw⟩
  exact hr v w hv hw

theorem Written.neighbours (h : Written style P first) (h' : Written style Q rest)
    (hr : ∀ v sign w, style.Admits sign → Kept (Mark.word first) v → Kept (Mark.word rest) w → P v → Q w →
      R (v ++ (sign ++ w))) :
    Written style R (first ++ .neighbours :: rest) := by
  intro w hw
  obtain ⟨v, v', rfl, hv, hv'⟩ := exists_of_renders_append hw
  cases hv' with
  | neighbours hs hv' =>
    obtain ⟨hP, hk⟩ := h v hv
    obtain ⟨hQ, hk'⟩ := h' _ hv'
    rw [Mark.word_append, Mark.word_cons, Mark.tokens_neighbours, List.nil_append]
    exact ⟨hr v _ _ hs hk hk' hP hQ, hk.append_sign hs hk'⟩

theorem Written.group {opening closing : Token} (h : Written style P marks)
    (ho : opening.kind = .openParen ∨ opening.kind = .bar) (hc : closing.kind ≠ .left)
    (hbare : ∀ w, P w → Q (opening :: (w ++ [closing])))
    (hwrapped : ∀ left right w, left.kind = .left → right.kind = .right → P w →
      Q (left :: opening :: (w ++ [right, closing]))) :
    Written style Q [.group opening marks closing] := by
  have hopen : Start [opening] [opening] := .same (by rcases ho with ho | ho <;> rw [ho] <;> decide)
  have hclose : Kept [closing] [closing] := .refl (.same hc)
  intro w hw
  rw [Mark.word_cons, Mark.word_nil, Mark.tokens_group, List.append_nil]
  cases hw with
  | bare hv hw =>
    cases hw
    obtain ⟨hP, hk⟩ := h _ hv
    exact ⟨hbare _ hP, (Kept.refl hopen).append (hk.append hclose)⟩
  | @wrapped _ _ left right _ _ v _ hl hr hv hw =>
    cases hw
    obtain ⟨hP, hk⟩ := h _ hv
    refine ⟨hwrapped _ _ _ hl hr hP, .wrapped hl ho, ?_, .inr ⟨_, List.mem_cons_self, by simp [hl]⟩⟩
    have hlast (u : List Token) : lastKind? (u ++ [closing]) = lastKind? [closing] :=
      lastKind?_append u (List.cons_ne_nil _ _)
    rw [List.append_cons]
    exact (hlast (left :: opening :: (v ++ [right]))).trans (hlast (opening :: Mark.word marks)).symm

end

/-! ## Readings -/

def Reading.withFlags (keep : Bool) : Reading → Reading
  | .part production value => .part production (value.withFlags keep)
  | .list allowed values => .list allowed (values.map (Expr.withFlags keep))
  | .group allowList values => .group allowList (values.map (Expr.withFlags keep))
  | .argument values => .argument (values.map (Expr.withFlags keep))
  | .index values => .index (values.map (Expr.withFlags keep))
  | .row entries => .row (entries.map (Expr.withFlags keep))
  | .rows rs => .rows (rs.map (Row.withFlags keep))

/-- In whichever way the transcript is written out, it is read the same; stars take flags away. -/
abbrev Rendered (style : Style) (n : Nat) (b : Bool) (r : Reading) (marks : List Mark) : Prop :=
  Written style (Derives n b (r.withFlags style.keepsFlags)) marks

/-- What can be read in bare bars can be read outside of them. -/
theorem Derives.outsideBars {n : Nat} {b : Bool} {r : Reading} {w : List Token} (h : Derives n b r w) :
    Derives n false r w := by
  induction h with
  | comparison _ ih => exact .comparison ih
  | relation _ hc ho _ ihl ihr => exact .relation ihl hc ho ihr
  | assignment _ hv hk _ iht ihe => exact .assignment iht hv hk ihe
  | expression _ ih => exact .expression ih
  | sum _ hk ho _ ihl ihr => exact .sum ihl hk ho ihr
  | term _ ih => exact .term ih
  | times _ hk ho _ ihl ihr => exact .times ihl hk ho ihr
  | neighbours _ _ _ hn ihl ihr => exact .neighbours ihl ihr (by simp) hn
  | factor _ ih => exact .factor ih
  | minus hk _ ih => exact .minus hk ih
  | power _ ih => exact .power ih
  | raised _ hk ho _ ht ihl ihr => exact .raised ihl hk ho ihr ht
  | transposed _ hk _ ihl ihr => exact .transposed ihl hk ihr
  | subscript _ ih => exact .subscript ih
  | indexed _ hk _ ihl ihr => exact .indexed ihl hk ihr
  | indexName hr hn => exact .indexName hr hn
  | index hr _ ih => exact .index hr ih
  | parenthesized ho _ ih => exact .parenthesized ho ih
  | argument ho _ ih => exact .argument ho ih
  | primary hp _ ih => exact .primary hp ih
  | number hk hd => exact .number hk hd
  | letter hk => exact .letter hk
  | named hk hn => exact .named hk hn
  | mathrm hk hn => exact .mathrm hk hn
  | mathbf hw => exact .mathbf hw
  | grouping _ ih => exact .grouping ih
  | bare ho h _ => exact .bare ho h
  | wrapped hl ho hr h _ => exact .wrapped hl ho hr h
  | value _ ih => exact .value ih
  | values _ hk _ ihe ihes => exact .values ihe hk ihes
  | matrix ho hu h hc hw _ => exact .matrix ho hu h hc hw
  | entry _ ih => exact .entry ih
  | entries _ hk _ ihe ihes => exact .entries ihe hk ihes
  | lastRow _ ih => exact .lastRow ih
  | brokenRow _ hk ih => exact .brokenRow ih hk
  | nextRow _ hk _ ihr ihrs => exact .nextRow ihr hk ihrs
  | fraction hk ho hv _ hw _ ihl ihr => exact .fraction hk ho hv ihl hw ihr
  | shortFraction hk ho hv _ hw _ ihl ihr => exact .shortFraction hk ho hv ihl hw ihr
  | function hf ho _ ih => exact .function hf ho ih
  | logarithm hk ho hs _ _ ihb ihes => exact .logarithm hk ho hs ihb ihes
  | operatorname hk hn _ ih => exact .operatorname hk hn ih

section
variable {style : Style} {n : Nat} {b : Bool} {l r : Expr} {es : List Expr} {marks first rest : List Mark}

/-- With a star between them, neighbours are factors of a product with a sign. -/
theorem rendered_neighbours (hl : Rendered style n b (.part .term l) first)
    (hr : Rendered style n b (.part .power r) rest) (hbar : ¬ (b = true ∧ headKind? (Mark.word rest) = some .bar))
    (hnum : ¬ (lastKind? (Mark.word first) = some .number ∧ headKind? (Mark.word rest) = some .number)) :
    Rendered style n b (.part .term (.product l r)) (first ++ .neighbours :: rest) := by
  refine hl.neighbours hr fun v sign w hs hv hw hdl hdr => ?_
  cases style with
  | starred =>
    obtain ⟨star, hk, rfl⟩ := hs
    exact .times hdl (by simp [hk]) (by rw [hk]; rfl) (.factor hdr)
  | plain =>
    obtain rfl : sign = [] := hs
    refine .neighbours hdl hdr (fun ⟨hb, hh⟩ => hbar ⟨hb, ?_⟩) fun ⟨ht, hh⟩ => hnum ⟨hv.last ▸ ht, ?_⟩
    · exact hw.headKind?_of_ne_left hh (by decide)
    · exact hw.headKind?_of_ne_left hh (by decide)

theorem map_enclosed (keep : Bool) (kind : Kind) (es : List Expr) :
    (enclosed kind es).map (Expr.withFlags keep) = enclosed kind (es.map (Expr.withFlags keep)) := by
  unfold enclosed
  split
  · rw [List.map_singleton, Expr.withFlags, Expr.withFlagsOfList_eq_map]
  · rfl

/-- Delimiters on their own; parentheses and bars may be given a `\left` and a `\right`, other than braces. -/
theorem rendered_bare {opening closing : Token} {allowList : Bool} (hc : opening.kind.closing? = some closing.kind)
    (h : Rendered style n (opening.kind == .bar) (.list (opening.kind == .openParen && allowList) es) marks) :
    Rendered style n b (.group allowList (enclosed opening.kind es))
      (Mark.gather (.token opening :: (marks ++ [.token closing]))) := by
  have hclosing : closing.kind ≠ .left := by
    intro he
    rw [he] at hc
    revert hc
    cases opening.kind <;> decide
  rw [Rendered, Reading.withFlags, map_enclosed]
  by_cases ho : opening.kind = .openParen ∨ opening.kind = .bar
  · rw [Mark.gather_delimited ho]
    refine h.group ho hclosing (fun w hw => .bare hc hw) fun left right w hl hr hw => ?_
    exact .wrapped hl hc hr hw.outsideBars
  · have hopening : opening.kind ≠ .left := by
      intro he
      rw [he] at hc
      cases hc
    rw [Mark.gather_of_not ho]
    exact h.between [opening] [closing] (.same hopening) (.same hclosing)
      fun w hw => .bare hc hw

theorem rendered_wrapped {left opening right closing : Token} {allowList : Bool} (hl : left.kind = .left)
    (hc : opening.kind.closing? = some closing.kind) (hr : right.kind = .right)
    (h : Rendered style n false (.list (opening.kind == .openParen && allowList) es) marks) :
    Rendered style n b (.group allowList (enclosed opening.kind es))
      (.token left :: .token opening :: (marks ++ [.token right, .token closing])) := by
  rw [Rendered, Reading.withFlags, map_enclosed]
  exact h.between [left, opening] [right, closing] .pair (.same (by rw [hr]; decide))
    fun w hw => .wrapped hl hc hr hw

theorem rendered_leaf {p : Production} {w : List Token} (hp : p ∈ [Production.number, .symbol, .mathrm, .mathbf])
    (h : Derives n b (.part p r) w) : Rendered style n b (.part p r) (w.map .token) := by
  have hflags : r.withFlags style.keepsFlags = r := by
    cases h with
    | number _ _ | letter _ | named _ _ | mathbf _ => rw [Expr.withFlags]
    | mathrm _ _ =>
      unfold uprightMeaning
      split
      · rw [Expr.withFlags]
      · split
        · rw [Expr.withFlags]
        · rw [Expr.withFlags]
    | _ => exact absurd hp (by decide)
  have hstart : headKind? w ≠ some .left := by
    intro he
    have hb := h.bind_headKind? (by revert hp; cases p <;> decide)
    rw [he] at hb
    cases hb
    exact absurd hp (by decide)
  refine written_tokens (start_self h.ne_nil hstart) ?_
  rw [Reading.withFlags, hflags]
  exact h

end

end TexFormula

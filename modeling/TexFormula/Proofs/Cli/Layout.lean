import TexFormula.Cli.Layout

/-!
# What a layout keeps and how it indents

A layout is read off one character after the other, with a counter of brackets and a flag. It writes every
character but spaces, and where the brackets of a text match, the counter is the number of brackets open.

* `State.step`, `State.written` : what becomes of the counter and the flag at a character, and what is written there;
  `layoutFrom_append` puts two parts of a text together;
* `filter_layout` : but for spaces and newlines, a text is what its layout is;
* `openAfter` : the brackets open after a text; `depth_after` : their number is the counter;
* `Indented` : every line begins with two spaces for each bracket open at its start;
* `Neat` : texts with a space after every brace and comma that opens or goes on a list, and matching brackets;
  `Neat.laidOut` : their layouts are indented, with no closing bracket that finds the counter at zero.
-/

namespace TexFormula

namespace Layout

/-! ## Characters -/

/-- What a layout neither adds nor drops: neither a space nor a newline. -/
def isInk (c : Char) : Bool := c != ' ' && c != '\n'

def opens (c : Char) : Bool := c == '{' || c == '(' || c == '['

def closes (c : Char) : Bool := c == '}' || c == ')' || c == ']'

def closing (c : Char) : Char := if c = '{' then '}' else if c = '(' then ')' else ']'

theorem opens_iff {c : Char} : opens c = true ↔ c = '{' ∨ c = '(' ∨ c = '[' := by
  simp [opens, or_assoc]

/-! ## One character after the other -/

/-- What a layout knows between two characters: how many brackets are open, and whether the next space is dropped. -/
structure State where
  depth : Nat
  dropSpace : Bool

namespace State

def start : State := ⟨0, false⟩

def step (s : State) (c : Char) : State where
  depth := if opens c then s.depth + 1 else if closes c then s.depth - 1 else s.depth
  dropSpace := if c = '{' ∨ c = ',' then true else if c = ' ' then false else s.dropSpace

def after (s : State) (text : List Char) : State := text.foldl step s

def written (s : State) (c : Char) : List Char :=
  if opens c then c :: lineBreak (s.depth + 1)
  else if closes c then lineBreak (s.depth - 1) ++ [c]
  else if c = ',' then c :: lineBreak s.depth
  else if c = ' ' ∧ s.dropSpace = true then []
  else [c]

end State

section
variable {s : State} {c : Char} {text text' : List Char}

theorem layoutFrom_cons (s : State) (c : Char) (text : List Char) : layoutFrom s.depth s.dropSpace (c :: text) =
    s.written c ++ layoutFrom (s.step c).depth (s.step c).dropSpace text := by
  obtain ⟨depth, dropSpace⟩ := s
  rw [layoutFrom.eq_def]
  split
  · contradiction
  all_goals simp_all [State.written, State.step, opens, closes]
  · split <;> simp_all

theorem layoutFrom_append (s : State) (text text' : List Char) : layoutFrom s.depth s.dropSpace (text ++ text') =
    layoutFrom s.depth s.dropSpace text ++ layoutFrom (s.after text).depth (s.after text).dropSpace text' := by
  induction text generalizing s with
  | nil => rfl
  | cons c text ih => rw [List.cons_append, layoutFrom_cons, layoutFrom_cons, ih, List.append_assoc]; rfl

theorem after_append (s : State) (text text' : List Char) : s.after (text ++ text') = (s.after text).after text' :=
  List.foldl_append

/-! ## What a layout keeps -/

theorem filter_lineBreak (depth : Nat) : (lineBreak depth).filter isInk = [] := by
  have hspace : isInk ' ' = false := rfl
  rw [lineBreak, List.filter_cons_of_neg (by decide), List.filter_replicate_of_neg (by simp [hspace])]

theorem filter_written (s : State) (c : Char) : (s.written c).filter isInk = [c].filter isInk := by
  unfold State.written
  split
  · rw [List.filter_cons, List.filter_cons, filter_lineBreak, List.filter_nil]
  split
  · rw [List.filter_append, filter_lineBreak, List.nil_append]
  split
  · rw [List.filter_cons, List.filter_cons, filter_lineBreak, List.filter_nil]
  split
  · next h =>
    rw [h.1]
    rfl
  · rfl

theorem filter_layoutFrom (s : State) (text : List Char) :
    (layoutFrom s.depth s.dropSpace text).filter isInk = text.filter isInk := by
  induction text generalizing s with
  | nil => rfl
  | cons c text ih =>
    rw [layoutFrom_cons, List.filter_append, filter_written, ih, ← List.filter_append, List.singleton_append]

/-- A layout only lays a text out: it adds and drops nothing but spaces and newlines. -/
theorem filter_layout (text : String) : (layout text).toList.filter isInk = text.toList.filter isInk := by
  rw [layout, String.toList_ofList]
  exact filter_layoutFrom .start text.toList

/-! ## Brackets -/

/-- The brackets open after a character; `none` if it closes another bracket than the innermost. -/
def openStep (brackets : List Char) (c : Char) : Option (List Char) :=
  if opens c then some (c :: brackets)
  else if closes c then
    match brackets with
    | innermost :: outer => if closing innermost = c then some outer else none
    | [] => none
  else some brackets

def openAfter (brackets text : List Char) : Option (List Char) := text.foldlM openStep brackets

variable {brackets brackets' : List Char}

theorem openStep_of_opens (h : opens c = true) : openStep brackets c = some (c :: brackets) := if_pos h

theorem openStep_of_neither (ho : opens c = false) (hc : closes c = false) : openStep brackets c = some brackets := by
  simp [openStep, ho, hc]

theorem openStep_closing (h : opens c = true) : openStep (c :: brackets) (closing c) = some brackets := by
  rcases opens_iff.1 h with rfl | rfl | rfl <;> rfl

theorem openStep_of_closes (hc : closes c = true) (h : openStep brackets c = some brackets') :
    ∃ innermost, brackets = innermost :: brackets' := by
  have ho : opens c = false := by
    simp only [closes, Bool.or_eq_true, beq_iff_eq] at hc
    rcases hc with (rfl | rfl) | rfl <;> rfl
  simp only [openStep, ho, hc, Bool.false_eq_true, if_false, if_true] at h
  split at h
  · next innermost outer =>
    split at h
    · cases h
      exact ⟨innermost, rfl⟩
    · cases h
  · cases h

theorem openAfter_cons (h : openStep brackets c = some brackets') :
    openAfter brackets (c :: text) = openAfter brackets' text := by
  rw [openAfter, List.foldlM_cons, h]
  rfl

theorem openAfter_append (h : openAfter brackets text = some brackets') :
    openAfter brackets (text ++ text') = openAfter brackets' text' := by
  unfold openAfter at h ⊢
  rw [List.foldlM_append, h]
  rfl

/-- What stands before a place in a text with matching brackets has matching brackets. -/
theorem exists_openAfter_of_append (h : openAfter brackets (text ++ text') = some brackets') :
    ∃ between, openAfter brackets text = some between ∧ openAfter between text' = some brackets' := by
  unfold openAfter at h ⊢
  rw [List.foldlM_append] at h
  exact Option.bind_eq_some_iff.1 h

theorem depth_step (hs : s.depth = brackets.length) (h : openStep brackets c = some brackets') :
    (s.step c).depth = brackets'.length := by
  by_cases ho : opens c = true
  · rw [openStep_of_opens ho] at h
    cases h
    simp [State.step, ho, hs]
  by_cases hc : closes c = true
  · obtain ⟨innermost, rfl⟩ := openStep_of_closes hc h
    simp [State.step, ho, hc, hs]
  · rw [openStep_of_neither (by simpa using ho) (by simpa using hc)] at h
    cases h
    simp [State.step, ho, hc, hs]

/-- As long as the brackets match, the counter is the number of brackets open. -/
theorem depth_after (hs : s.depth = brackets.length) (h : openAfter brackets text = some brackets') :
    (s.after text).depth = brackets'.length := by
  induction text generalizing s brackets with
  | nil =>
    cases h
    exact hs
  | cons c text ih =>
    obtain ⟨between, hstep, hrest⟩ := Option.bind_eq_some_iff.1 (List.foldlM_cons.symm.trans h)
    exact ih (depth_step hs hstep) hrest

theorem depth_pos_of_closes (hs : s.depth = brackets.length) (hc : closes c = true)
    (h : openAfter brackets (text ++ c :: text') = some brackets') : 0 < (s.after text).depth := by
  obtain ⟨between, htext, hrest⟩ := exists_openAfter_of_append h
  obtain ⟨outer, hstep, -⟩ := Option.bind_eq_some_iff.1 (List.foldlM_cons.symm.trans hrest)
  obtain ⟨innermost, rfl⟩ := openStep_of_closes hc hstep
  rw [depth_after hs htext]
  exact Nat.zero_lt_succ _

/-! ## Indented texts -/

/--
Every line break is followed by two spaces for each bracket open there, and then by neither a space nor a newline. A
closing bracket at the beginning of a line counts as closed there. The given brackets are open before the text.
-/
def IndentedFrom (brackets text : List Char) : Prop :=
  ∀ before after, text = before ++ '\n' :: after →
    ∃ c rest stack, after = List.replicate (2 * stack.length) ' ' ++ c :: rest ∧ isInk c = true ∧
      openAfter brackets (if closes c then before ++ [c] else before) = some stack

def Indented (text : List Char) : Prop := IndentedFrom [] text

theorem indentedFrom_nil : IndentedFrom brackets [] := by
  intro before after h
  exact absurd h (by simp)

theorem IndentedFrom.cons (h : IndentedFrom brackets' text) (hstep : openStep brackets c = some brackets')
    (hc : c ≠ '\n') : IndentedFrom brackets (c :: text) := by
  rintro (_ | ⟨x, before⟩) after heq
  · exact absurd (List.cons.inj heq).1 hc
  · obtain ⟨rfl, htext⟩ := List.cons.inj heq
    obtain ⟨first, rest, stack, hafter, hink, hopen⟩ := h before after htext
    refine ⟨first, rest, stack, hafter, hink, ?_⟩
    rw [List.cons_append, ← apply_ite (List.cons c), openAfter_cons hstep]
    exact hopen

theorem IndentedFrom.spaces (h : IndentedFrom brackets text) (n : Nat) :
    IndentedFrom brackets (List.replicate n ' ' ++ text) := by
  induction n with
  | zero => exact h
  | succ n ih => exact ih.cons (openStep_of_neither rfl rfl) (by decide)

theorem IndentedFrom.newLine (h : IndentedFrom brackets (c :: text)) (hink : isInk c = true) {stack : List Char}
    (hopen : openAfter brackets (if closes c then [c] else []) = some stack) :
    IndentedFrom brackets (lineBreak stack.length ++ c :: text) := by
  rintro (_ | ⟨x, before⟩) after heq
  · exact ⟨c, text, stack, (List.cons.inj heq).2.symm, hink, hopen⟩
  · obtain ⟨rfl, htext⟩ := List.cons.inj heq
    obtain ⟨first, rest, stack, hafter, hink, hopen⟩ := h.spaces _ before after htext
    refine ⟨first, rest, stack, hafter, hink, ?_⟩
    rw [List.cons_append, ← apply_ite (List.cons '\n'), openAfter_cons (openStep_of_neither rfl rfl)]
    exact hopen

/-! ## Neat texts -/

/-- A character that a layout writes as it stands if it drops no space. -/
def isPlain (c : Char) : Bool := !opens c && !closes c && c != ',' && c != '\n'

/-- The text may stand at the beginning of a line: it begins with neither a space nor a closing bracket. -/
def Led (text : List Char) : Prop := ∃ c rest, text = c :: rest ∧ isInk c = true ∧ closes c = false

def padding (c : Char) : List Char := if c = '{' then [' '] else []

/-- The brackets match, none is empty, and there is a space after each brace that opens and each comma. -/
inductive Neat : List Char → Prop
  | nil : Neat []
  | plain {c : Char} {text : List Char} : isPlain c = true → Neat text → Neat (c :: text)
  | comma {text : List Char} : Led text → Neat text → Neat (',' :: ' ' :: text)
  | bracketed {c : Char} {inner text : List Char} : opens c = true → Led inner → Neat inner → Neat text →
      Neat (c :: (padding c ++ (inner ++ closing c :: text)))

theorem isPlain_iff : isPlain c = true ↔ opens c = false ∧ closes c = false ∧ c ≠ ',' ∧ c ≠ '\n' := by
  simp [isPlain, and_assoc]

theorem Neat.append (h : Neat text) (h' : Neat text') : Neat (text ++ text') := by
  induction h with
  | nil => exact h'
  | plain hc _ ih => exact .plain hc ih
  | comma hled _ ih =>
    obtain ⟨c, rest, rfl, hink, hc⟩ := hled
    exact .comma ⟨c, rest ++ text', rfl, hink, hc⟩ ih
  | bracketed hc hled hinner _ _ ih =>
    have hneat := Neat.bracketed hc hled hinner ih
    simpa using hneat

theorem neat_of_isPlain (h : ∀ c ∈ text, isPlain c = true) : Neat text := by
  induction text with
  | nil => exact .nil
  | cons c text ih =>
    obtain ⟨hc, htext⟩ := List.forall_mem_cons.1 h
    exact .plain hc (ih htext)

/-! ### What a layout does at each part of a neat text -/

theorem step_plain (hc : isPlain c = true) (depth : Nat) : State.step ⟨depth, false⟩ c = ⟨depth, false⟩ := by
  obtain ⟨ho, hcl, hcomma, -⟩ := isPlain_iff.1 hc
  have hbrace : c ≠ '{' := by
    rintro rfl
    cases ho
  simp [State.step, ho, hcl, hcomma, hbrace]

theorem layoutFrom_plain (hc : isPlain c = true) (depth : Nat) (text : List Char) :
    layoutFrom depth false (c :: text) = c :: layoutFrom depth false text := by
  obtain ⟨ho, hcl, hcomma, -⟩ := isPlain_iff.1 hc
  have h := layoutFrom_cons ⟨depth, false⟩ c text
  rw [step_plain hc] at h
  simpa [State.written, ho, hcl, hcomma] using h

theorem after_opening (hc : opens c = true) (depth : Nat) :
    State.after ⟨depth, false⟩ (c :: padding c) = ⟨depth + 1, false⟩ := by
  rcases opens_iff.1 hc with rfl | rfl | rfl <;> rfl

theorem openAfter_opening (hc : opens c = true) (brackets : List Char) :
    openAfter brackets (c :: padding c) = some (c :: brackets) := by
  rcases opens_iff.1 hc with rfl | rfl | rfl <;> rfl

theorem layoutFrom_opening (hc : opens c = true) (depth : Nat) (text : List Char) :
    layoutFrom depth false (c :: (padding c ++ text)) = c :: (lineBreak (depth + 1) ++ layoutFrom (depth + 1) false text) := by
  rcases opens_iff.1 hc with rfl | rfl | rfl <;> simp [padding, layoutFrom]

theorem step_closing (hc : opens c = true) (depth : Nat) :
    State.step ⟨depth + 1, false⟩ (closing c) = ⟨depth, false⟩ := by
  rcases opens_iff.1 hc with rfl | rfl | rfl <;> rfl

theorem layoutFrom_closing (hc : opens c = true) (depth : Nat) (text : List Char) :
    layoutFrom (depth + 1) false (closing c :: text) = lineBreak depth ++ closing c :: layoutFrom depth false text := by
  rcases opens_iff.1 hc with rfl | rfl | rfl <;> rfl

theorem Neat.after_eq (h : Neat text) (depth : Nat) : State.after ⟨depth, false⟩ text = ⟨depth, false⟩ := by
  induction h generalizing depth with
  | nil => rfl
  | plain hc _ ih =>
    show State.after (State.step _ _) _ = _
    rw [step_plain hc, ih]
  | comma _ _ ih => exact ih depth
  | bracketed hc _ _ _ ihInner ih =>
    rw [← List.cons_append, after_append, after_opening hc, after_append, ihInner]
    show State.after (State.step _ _) _ = _
    rw [step_closing hc, ih]

theorem Neat.openAfter_eq (h : Neat text) (brackets : List Char) : openAfter brackets text = some brackets := by
  induction h generalizing brackets with
  | nil => rfl
  | plain hc _ ih =>
    obtain ⟨ho, hcl, -⟩ := isPlain_iff.1 hc
    rw [openAfter_cons (openStep_of_neither ho hcl), ih]
  | comma _ _ ih => exact ih brackets
  | bracketed hc _ _ _ ihInner ih =>
    rw [← List.cons_append, openAfter_append (openAfter_opening hc brackets), openAfter_append (ihInner _),
      openAfter_cons (openStep_closing hc), ih]

theorem Neat.layoutFrom_append (h : Neat text) (depth : Nat) (text' : List Char) :
    layoutFrom depth false (text ++ text') = layoutFrom depth false text ++ layoutFrom depth false text' := by
  have happend := Layout.layoutFrom_append ⟨depth, false⟩ text text'
  rw [h.after_eq] at happend
  exact happend

/-- What may stand at the beginning of a line does so in its layout. -/
theorem Led.exists_layoutFrom (h : Led text) (hneat : Neat text) (depth : Nat) :
    ∃ c rest, layoutFrom depth false text = c :: rest ∧ isInk c = true ∧ closes c = false := by
  obtain ⟨c, rest, rfl, hink, hc⟩ := h
  cases hneat with
  | plain hplain _ => exact ⟨c, _, layoutFrom_plain hplain depth rest, hink, hc⟩
  | comma _ _ => exact ⟨',', _, rfl, hink, hc⟩
  | bracketed ho _ _ _ => exact ⟨c, _, layoutFrom_opening ho depth _, hink, hc⟩

theorem IndentedFrom.newLine_led {rest : List Char} (hled : Led text) (hneat : Neat text)
    (h : IndentedFrom brackets (layoutFrom brackets.length false text ++ rest)) :
    IndentedFrom brackets (lineBreak brackets.length ++ (layoutFrom brackets.length false text ++ rest)) := by
  obtain ⟨c, tail, heq, hink, hc⟩ := hled.exists_layoutFrom hneat brackets.length
  rw [heq, List.cons_append] at h ⊢
  exact h.newLine hink (by rw [hc]; rfl)

theorem IndentedFrom.newLine_closing (hc : opens c = true) (h : IndentedFrom brackets text) :
    IndentedFrom (c :: brackets) (lineBreak brackets.length ++ closing c :: text) := by
  have hspec : isInk (closing c) = true ∧ closes (closing c) = true ∧ closing c ≠ '\n' := by
    rcases opens_iff.1 hc with rfl | rfl | rfl <;> decide
  refine (h.cons (openStep_closing hc) hspec.2.2).newLine hspec.1 ?_
  rw [hspec.2.1, if_pos rfl, openAfter_cons (openStep_closing hc)]
  rfl

/-- The layout of a neat text is indented, inside however many brackets. -/
theorem Neat.indentedFrom (h : Neat text) {rest : List Char} (hrest : IndentedFrom brackets rest) :
    IndentedFrom brackets (layoutFrom brackets.length false text ++ rest) := by
  induction h generalizing brackets rest with
  | nil => exact hrest
  | plain hc _ ih =>
    obtain ⟨ho, hcl, -, hnewline⟩ := isPlain_iff.1 hc
    rw [layoutFrom_plain hc, List.cons_append]
    exact (ih hrest).cons (openStep_of_neither ho hcl) hnewline
  | @comma text hled hneat ih =>
    have heq : layoutFrom brackets.length false (',' :: ' ' :: text) =
        ',' :: (lineBreak brackets.length ++ layoutFrom brackets.length false text) := rfl
    rw [heq, List.cons_append, List.append_assoc]
    exact ((ih hrest).newLine_led hled hneat).cons (openStep_of_neither rfl rfl) (by decide)
  | @bracketed c inner text hc hled hinner _ ihInner ih =>
    have hafter : IndentedFrom (c :: brackets) _ := (ih hrest).newLine_closing hc
    have hbrackets := (ihInner hafter).newLine_led hled hinner
    have hnewline : c ≠ '\n' := by
      rintro rfl
      cases hc
    rw [layoutFrom_opening hc, hinner.layoutFrom_append, layoutFrom_closing hc]
    simpa using hbrackets.cons (openStep_of_opens hc) hnewline

/-! ## Neat texts as a whole -/

/--
The layout of the text is indented. The counter is above zero before every closing bracket, so that it never stays
at zero there, and it ends at zero.
-/
structure LaidOut (text : List Char) : Prop where
  indented : Indented (layoutFrom 0 false text)
  counted (before after : List Char) (c : Char) : text = before ++ c :: after → closes c = true →
    0 < (State.start.after before).depth
  closed : (State.start.after text).depth = 0

theorem Neat.laidOut (h : Neat text) : LaidOut text where
  indented := by
    have hindented : IndentedFrom [] (layoutFrom 0 false text ++ []) := h.indentedFrom indentedFrom_nil
    rwa [List.append_nil] at hindented
  counted before after c heq hc := by
    have hdepth : State.start.depth = ([] : List Char).length := rfl
    have hopen := h.openAfter_eq []
    rw [heq] at hopen
    exact depth_pos_of_closes hdepth hc hopen
  closed := congrArg State.depth (h.after_eq 0)

end

end Layout

end TexFormula

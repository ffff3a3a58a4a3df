import TexFormula.Expr.Printer
import TexFormula.Proofs.Expr.WellFormed

/-!
# Reading plain texts

A machine with a stack reads the plain text of a tree character by character. It has a frame for each bracket that
is open, and what has been read since the latest bracket, blank or comma is pending.

* `State.step`, `feed` : what the machine does at a character, and at several;
* `read` : the tree that a text reads as;
* `ReadsAs text e` : wherever a tree may stand, the text takes the machine to the tree `e`. There is one rule for
  each sort of node: `readsAs_number`, `readsAs_symbol`, `ReadsAs.negate`, `ReadsAs.infixed`, `ReadsAs.transpose`,
  `readsAs_call`, `readsAs_matrix` and `readsAs_accessor`;
* `feed_list` : the members of a list up to the bracket that closes it.

A tree may go on after its text, as `x` does in `x[1]` and in `x^T`. That is why a name or number stays pending as a
word, and a text reads as a tree without anything being said of what follows it.
-/

namespace TexFormula

namespace Readback

/-! ## Signs -/

def operations : List String := ["add", "subtract", "multiply", "divide", "pow"]

def relations : List String := ["equal", "unequal", "smaller", "smaller_eq", "larger", "larger_eq"]

/-- The tree of two operands with a sign between them. -/
def infixNode? (sign : String) (left right : Expr) : Option Expr :=
  match operations.find? (operatorSign · == sign) with
  | some operator => some (.binary operator left right false)
  | none => (relations.find? (operatorSign · == sign)).map fun operator => .comparison operator left right

section
variable {operator : String}

theorem infixNode?_operation (h : operator ∈ operations) (left right : Expr) :
    infixNode? (operatorSign operator) left right = some (.binary operator left right false) := by
  simp only [operations, List.mem_cons, List.not_mem_nil, or_false] at h
  rcases h with rfl | rfl | rfl | rfl | rfl <;> rfl

theorem infixNode?_relation (h : operator ∈ relations) (left right : Expr) :
    infixNode? (operatorSign operator) left right = some (.comparison operator left right) := by
  simp only [relations, List.mem_cons, List.not_mem_nil, or_false] at h
  rcases h with rfl | rfl | rfl | rfl | rfl | rfl <;> rfl

end

/-! ## The machine -/

/-- What a list in brackets belongs to. -/
inductive Holder
  | call (name : String)
  | matrix
  | accessor (object : Expr)

def Holder.closing : Holder → Char
  | .call _ => ')'
  | .matrix | .accessor _ => ']'

def Holder.node : Holder → List Expr → Expr
  | .call name, es => .call name es
  | .matrix, es => .matrix (es.map .element)
  | .accessor object, es => .accessor object es

/-- What has been read since an opening bracket. -/
inductive Frame
  | group
  | minus
  | operand (left : Expr)
  | sign (left : Expr) (sign : String)
  | list (holder : Holder) (before : List Expr)

/-- What has been read since the last bracket, blank or comma. -/
inductive Pending
  | nothing
  | word (characters : List Char)
  | tree (e : Expr)
  /-- A tree and the beginning of the mark of a transpose. -/
  | raised (e : Expr)

/-- A number starts with a digit, a name does not. -/
def leaf (characters : List Char) : Expr :=
  if (characters.head?.any Char.isDigit) = true then .number (String.ofList characters)
  else .symbol (String.ofList characters)

def Pending.tree? : Pending → Option Expr
  | .word characters => some (leaf characters)
  | .tree e => some e
  | .nothing | .raised _ => none

/-- The open brackets, the innermost first, and what has been read since. -/
structure State where
  frames : List Frame
  pending : Pending

namespace State

/-- A character of a number, a name or a sign, or the end of the mark of a transpose. -/
def write (s : State) (c : Char) : Option State :=
  match s.pending with
  | .nothing => some ⟨s.frames, .word [c]⟩
  | .word characters => some ⟨s.frames, .word (characters ++ [c])⟩
  | .raised e => if c = 'T' then some ⟨s.frames, .tree e.transpose⟩ else none
  | .tree _ => none

/-- A parenthesis after a name opens the arguments of a call. -/
def openParenthesis (s : State) : Option State :=
  match s.pending with
  | .nothing => some ⟨.group :: s.frames, .nothing⟩
  | .word characters => some ⟨.list (.call (String.ofList characters)) [] :: s.frames, .nothing⟩
  | _ => none

def openBracket (s : State) : Option State :=
  match s.pending with
  | .nothing => some ⟨.list .matrix [] :: s.frames, .nothing⟩
  | pending => pending.tree?.map fun object => ⟨.list (.accessor object) [] :: s.frames, .nothing⟩

/-- The sign of a power, or after a tree the beginning of the mark of a transpose. -/
def raise (s : State) : Option State :=
  match s.pending with
  | .nothing => s.write '^'
  | pending => pending.tree?.map fun e => ⟨s.frames, .raised e⟩

/-- A minus sign right after a parenthesis stands before its operand. -/
def dash (s : State) : Option State :=
  match s with
  | ⟨.group :: frames, .nothing⟩ => some ⟨.minus :: frames, .nothing⟩
  | _ => s.write '-'

def blank (s : State) : Option State :=
  match s with
  | ⟨.operand left :: frames, .word sign⟩ => some ⟨.sign left (String.ofList sign) :: frames, .nothing⟩
  | ⟨.group :: frames, pending⟩ => pending.tree?.map fun left => ⟨.operand left :: frames, .nothing⟩
  | ⟨.list holder before :: frames, .nothing⟩ => some ⟨.list holder before :: frames, .nothing⟩
  | _ => none

def comma (s : State) : Option State :=
  match s.frames with
  | .list holder before :: frames => s.pending.tree?.map fun e => ⟨.list holder (before ++ [e]) :: frames, .nothing⟩
  | _ => none

def close (s : State) (c : Char) : Option State := do
  let last ← s.pending.tree?
  match s.frames with
  | .minus :: frames => some ⟨frames, .tree last.negate⟩
  | .sign left sign :: frames => (infixNode? sign left last).map fun e => ⟨frames, .tree e⟩
  | .list holder before :: frames =>
    if c = holder.closing then some ⟨frames, .tree (holder.node (before ++ [last]))⟩ else none
  | _ => none

def step (s : State) (c : Char) : Option State :=
  match c with
  | '(' => s.openParenthesis
  | '[' => s.openBracket
  | '^' => s.raise
  | '-' => s.dash
  | ' ' => s.blank
  | ',' => s.comma
  | ')' | ']' => s.close c
  | c => s.write c

end State

def feed (s : State) (text : List Char) : Option State := text.foldlM State.step s

/-- The tree that a text reads as. -/
def read (text : String) : Option Expr :=
  match feed ⟨[], .nothing⟩ text.toList with
  | some ⟨[], pending⟩ => pending.tree?
  | _ => none

section
variable {s t : State} {text text' : List Char} {e : Expr}

theorem feed_cons {c : Char} (h : s.step c = some t) : feed s (c :: text) = feed t text := by
  unfold feed
  rw [List.foldlM_cons, h]
  rfl

theorem feed_append (h : feed s text = some t) : feed s (text ++ text') = feed t text' := by
  unfold feed at h ⊢
  rw [List.foldlM_append, h]
  rfl

theorem step_of_isNameChar {c : Char} (h : isNameChar c = true) : s.step c = s.write c := by
  unfold State.step
  split
  case h_9 => rfl
  all_goals exact absurd h (by decide)

theorem feed_characters {frames : List Frame} {characters : List Char} (h : ∀ c ∈ text, isNameChar c = true) :
    feed ⟨frames, .word characters⟩ text = some ⟨frames, .word (characters ++ text)⟩ := by
  induction text generalizing characters with
  | nil =>
    rw [List.append_nil]
    rfl
  | cons c text ih =>
    obtain ⟨hc, htext⟩ := List.forall_mem_cons.1 h
    rw [feed_cons (t := ⟨frames, .word (characters ++ [c])⟩) (step_of_isNameChar hc), ih htext, List.append_assoc]
    rfl

theorem feed_word (frames : List Frame) (hne : text ≠ []) (h : ∀ c ∈ text, isNameChar c = true) :
    feed ⟨frames, .nothing⟩ text = some ⟨frames, .word text⟩ := by
  obtain ⟨c, text, rfl⟩ := List.exists_cons_of_ne_nil hne
  obtain ⟨hc, htext⟩ := List.forall_mem_cons.1 h
  rw [feed_cons (t := ⟨frames, .word [c]⟩) (step_of_isNameChar hc), feed_characters htext]
  rfl

theorem feed_sign {operator : String} (h : operator ∈ operations ++ relations) (frames : List Frame) (left : Expr) :
    feed ⟨.operand left :: frames, .nothing⟩ (operatorSign operator).toList =
      some ⟨.operand left :: frames, .word (operatorSign operator).toList⟩ := by
  simp only [operations, relations, List.cons_append, List.nil_append, List.mem_cons, List.not_mem_nil, or_false] at h
  rcases h with rfl | rfl | rfl | rfl | rfl | rfl | rfl | rfl | rfl | rfl | rfl <;> rfl

/-! ### Where a tree may end -/

variable {frames : List Frame} {pending : Pending}

theorem step_openBracket (h : pending.tree? = some e) :
    State.step ⟨frames, pending⟩ '[' = some ⟨.list (.accessor e) [] :: frames, .nothing⟩ := by
  cases pending <;> cases h <;> rfl

theorem step_raise (h : pending.tree? = some e) : State.step ⟨frames, pending⟩ '^' = some ⟨frames, .raised e⟩ := by
  cases pending <;> cases h <;> rfl

theorem step_operand (h : pending.tree? = some e) :
    State.step ⟨.group :: frames, pending⟩ ' ' = some ⟨.operand e :: frames, .nothing⟩ := by
  cases pending <;> cases h <;> rfl

theorem step_comma {holder : Holder} {before : List Expr} (h : pending.tree? = some e) :
    State.step ⟨.list holder before :: frames, pending⟩ ',' =
      some ⟨.list holder (before ++ [e]) :: frames, .nothing⟩ := by
  show pending.tree?.map _ = _
  rw [h]
  rfl

theorem close_eq (h : pending.tree? = some e) (c : Char) :
    State.close ⟨frames, pending⟩ c = State.close ⟨frames, .tree e⟩ c := by
  unfold State.close
  rw [h]
  rfl

theorem step_closing {holder : Holder} {before : List Expr} (h : pending.tree? = some e) :
    State.step ⟨.list holder before :: frames, pending⟩ holder.closing =
      some ⟨frames, .tree (holder.node (before ++ [e]))⟩ := by
  have hstep : State.step ⟨.list holder before :: frames, pending⟩ holder.closing =
      State.close ⟨.list holder before :: frames, pending⟩ holder.closing := by
    cases holder <;> rfl
  rw [hstep, close_eq h]
  exact if_pos rfl

/-! ### Texts that read as trees -/

/-- Wherever a tree may stand, the text reads as this one. -/
def ReadsAs (text : List Char) (e : Expr) : Prop :=
  ∀ frames, ∃ pending, feed ⟨frames, .nothing⟩ text = some ⟨frames, pending⟩ ∧ pending.tree? = some e

theorem ReadsAs.read_eq {text : String} (h : ReadsAs text.toList e) : read text = some e := by
  obtain ⟨pending, hfeed, htree⟩ := h []
  rw [read, hfeed]
  exact htree

theorem readsAs_of_feed (h : ∀ frames, feed ⟨frames, .nothing⟩ text = some ⟨frames, .tree e⟩) : ReadsAs text e :=
  fun frames => ⟨.tree e, h frames, rfl⟩

theorem readsAs_number {text : String} (h : Numeral text.toList) : ReadsAs text.toList (.number text) := by
  intro frames
  refine ⟨.word text.toList, feed_word frames h.ne_nil h.isNameChar, ?_⟩
  obtain ⟨c, cs, heq⟩ := List.exists_cons_of_ne_nil h.ne_nil
  have hdigit : (text.toList.head?.any Char.isDigit) = true := by
    rw [heq] at h ⊢
    exact h.isDigit_head
  rw [Pending.tree?, leaf, if_pos hdigit, String.ofList_toList]

theorem toList_ne_nil_of_isName {name : String} (h : isName name = true) : name.toList ≠ [] := by
  obtain ⟨c, cs, heq, -⟩ := isName_iff.1 h
  rw [heq]
  exact List.cons_ne_nil c cs

theorem readsAs_symbol {name : String} (h : isName name = true) : ReadsAs name.toList (.symbol name) := by
  intro frames
  refine ⟨.word name.toList, feed_word frames (toList_ne_nil_of_isName h) (isNameChar_of_isName h), ?_⟩
  obtain ⟨c, cs, heq, hc, -⟩ := isName_iff.1 h
  have hdigit : ¬ (name.toList.head?.any Char.isDigit) = true := by
    rw [heq]
    simp [isDigit_of_isAlpha hc]
  rw [Pending.tree?, leaf, if_neg hdigit, String.ofList_toList]

theorem ReadsAs.negate (h : ReadsAs text e) : ReadsAs ('(' :: '-' :: (text ++ [')'])) e.negate := by
  refine readsAs_of_feed fun frames => ?_
  obtain ⟨pending, hfeed, htree⟩ := h (.minus :: frames)
  rw [feed_cons (t := ⟨.group :: frames, .nothing⟩) rfl, feed_cons (t := ⟨.minus :: frames, .nothing⟩) rfl,
    feed_append hfeed]
  exact feed_cons (close_eq htree ')')

theorem ReadsAs.transpose (h : ReadsAs text e) : ReadsAs (text ++ ['^', 'T']) e.transpose := by
  refine readsAs_of_feed fun frames => ?_
  obtain ⟨pending, hfeed, htree⟩ := h frames
  rw [feed_append hfeed, feed_cons (step_raise htree)]
  rfl

theorem ReadsAs.infixed {left right : Expr} {operator : String} (h : ReadsAs text left) (h' : ReadsAs text' right)
    (hoperator : operator ∈ operations ++ relations)
    (hnode : infixNode? (operatorSign operator) left right = some e) :
    ReadsAs ('(' :: (text ++ ' ' :: ((operatorSign operator).toList ++ ' ' :: (text' ++ [')'])))) e := by
  refine readsAs_of_feed fun frames => ?_
  obtain ⟨pending, hfeed, htree⟩ := h (.group :: frames)
  obtain ⟨pending', hfeed', htree'⟩ := h' (.sign left (operatorSign operator) :: frames)
  have hsign : State.step ⟨.operand left :: frames, .word (operatorSign operator).toList⟩ ' ' =
      some ⟨.sign left (operatorSign operator) :: frames, .nothing⟩ := by
    show some _ = _
    rw [String.ofList_toList]
  rw [feed_cons (t := ⟨.group :: frames, .nothing⟩) rfl, feed_append hfeed, feed_cons (step_operand htree),
    feed_append (feed_sign hoperator frames left), feed_cons hsign, feed_append hfeed']
  refine feed_cons ((close_eq htree' ')').trans ?_)
  show (infixNode? _ _ _).map _ = _
  rw [hnode]
  rfl

/-- The members of a list, with commas between them, up to the bracket that closes it. -/
theorem feed_list {α : Type} {f : α → List Char} {g : α → Expr} {as : List α} (h : ∀ a ∈ as, ReadsAs (f a) (g a))
    (hne : as ≠ []) (holder : Holder) (before : List Expr) (frames : List Frame) :
    feed ⟨.list holder before :: frames, .nothing⟩ ([',', ' '].intercalate (as.map f) ++ [holder.closing]) =
      some ⟨frames, .tree (holder.node (before ++ as.map g))⟩ := by
  -- On the members still to come; those that have been read are in the frame.
  induction as generalizing before with
  | nil => exact absurd rfl hne
  | cons a as ih =>
    obtain ⟨ha, has⟩ := List.forall_mem_cons.1 h
    obtain ⟨pending, hfeed, htree⟩ := ha (.list holder before :: frames)
    cases as with
    | nil =>
      rw [List.map_singleton, List.intercalate_singleton, feed_append hfeed]
      exact feed_cons (step_closing htree)
    | cons b bs =>
      have hrest := ih has (List.cons_ne_nil _ _) (before ++ [g a])
      rw [List.map_cons, List.map_cons, List.intercalate_cons_cons, List.append_assoc, List.append_assoc,
        feed_append hfeed, List.cons_append, feed_cons (step_comma htree), List.cons_append,
        feed_cons (t := ⟨.list holder (before ++ [g a]) :: frames, .nothing⟩) rfl, List.nil_append]
      rw [List.append_assoc] at hrest
      exact hrest

section
variable {α : Type} {f : α → List Char} {g : α → Expr} {as : List α}

theorem readsAs_call {name : String} (hname : isName name = true) (h : ∀ a ∈ as, ReadsAs (f a) (g a)) (hne : as ≠ []) :
    ReadsAs (name.toList ++ '(' :: ([',', ' '].intercalate (as.map f) ++ [')'])) (.call name (as.map g)) := by
  refine readsAs_of_feed fun frames => ?_
  have hcall : State.step ⟨frames, .word name.toList⟩ '(' = some ⟨.list (.call name) [] :: frames, .nothing⟩ := by
    show some _ = _
    rw [String.ofList_toList]
  rw [feed_append (feed_word frames (toList_ne_nil_of_isName hname) (isNameChar_of_isName hname)), feed_cons hcall]
  exact feed_list h hne (.call name) [] frames

theorem readsAs_matrix (h : ∀ a ∈ as, ReadsAs (f a) (g a)) (hne : as ≠ []) :
    ReadsAs ('[' :: ([',', ' '].intercalate (as.map f) ++ [']'])) (.matrix ((as.map g).map .element)) := by
  refine readsAs_of_feed fun frames => ?_
  rw [feed_cons (t := ⟨.list .matrix [] :: frames, .nothing⟩) rfl]
  exact feed_list h hne .matrix [] frames

theorem readsAs_accessor (hobject : ReadsAs text e) (h : ∀ a ∈ as, ReadsAs (f a) (g a)) (hne : as ≠ []) :
    ReadsAs (text ++ '[' :: ([',', ' '].intercalate (as.map f) ++ [']'])) (.accessor e (as.map g)) := by
  refine readsAs_of_feed fun frames => ?_
  obtain ⟨pending, hfeed, htree⟩ := hobject frames
  rw [feed_append hfeed, feed_cons (step_openBracket htree)]
  exact feed_list h hne (.accessor e) [] frames

end

end

end Readback

end TexFormula

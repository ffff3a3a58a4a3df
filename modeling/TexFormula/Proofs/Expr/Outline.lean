import TexFormula.Expr.Outline
import TexFormula.Proofs.Cli.Layout
import TexFormula.Proofs.Diagnostic.Caret
import TexFormula.Proofs.Expr.Legibility

/-!
# Outlines are neat

The outline of the tree of a formula is a neat text: its brackets are those of the records, nodes and lists, no
list is empty, and what stands in quotes are names, numbers and operators, in which there is no bracket, comma or
space. So its layout indents every line by the brackets open there.

* `isWordChar` : the characters of names, numbers and operators; they are quoted as they stand;
* `Entry` : a neat text that may stand at the beginning of a line, with one rule for each way to put an outline
  together: `entry_quoteString`, `entry_recordText`, `entry_nodeText` and `entry_listText`;
* `entry_outline` : the outline of a well-formed tree;
* `layout_keeps_and_indents` : what a layout does to any text, and to the outline of a formula.
-/

namespace TexFormula

open Layout
open Text (enquote escape_of_plain quoteString)

/-! ## Words -/

def isWordChar (c : Char) : Bool := isNameChar c || c == '_'

theorem isPlainAscii_of_isWordChar {c : Char} (h : isWordChar c = true) : Text.isPlainAscii c = true := by
  simp only [isWordChar, isNameChar, Char.isAlphanum, Bool.or_eq_true, beq_iff_eq] at h
  rcases h with ((h | h) | rfl) | rfl
  · exact isPlainAscii_of_isAlpha h
  · exact isPlainAscii_of_isDigit h
  · rfl
  · rfl

theorem ne_of_isWordChar {c d : Char} (h : isWordChar c = true) (hd : isWordChar d = false) : c ≠ d := by
  rintro rfl
  rw [h] at hd
  cases hd

theorem escape_of_isWordChar {c : Char} (h : isWordChar c = true) : Text.escape '"' c = [c] :=
  escape_of_plain (isPlainAscii_of_isWordChar h) (ne_of_isWordChar h rfl) (ne_of_isWordChar h rfl)

theorem isPlain_of_isWordChar {c : Char} (h : isWordChar c = true) : isPlain c = true := by
  have hne {d : Char} (hd : isWordChar d = false) : (c == d) = false := beq_eq_false_iff_ne.2 (ne_of_isWordChar h hd)
  simp [isPlain, opens, closes, bne, hne (d := '{') rfl, hne (d := '(') rfl, hne (d := '[') rfl, hne (d := '}') rfl,
    hne (d := ')') rfl, hne (d := ']') rfl, hne (d := ',') rfl, hne (d := '\n') rfl]

theorem isWordChar_of_isNameChar {c : Char} (h : isNameChar c = true) : isWordChar c = true := by
  rw [isWordChar, h, Bool.true_or]

theorem isWordChar_of_isName {name : String} (h : isName name = true) : ∀ c ∈ name.toList, isWordChar c = true :=
  fun c hc => isWordChar_of_isNameChar (isNameChar_of_isName h c hc)

theorem isWordChar_of_numeral {text : List Char} (h : Numeral text) : ∀ c ∈ text, isWordChar c = true :=
  fun c hc => isWordChar_of_isNameChar (h.isNameChar c hc)

/-- The operations and relations of well-formed trees are words. -/
theorem isWordChar_of_operator {operator : String} (h : operator ∈ Readback.operations ++ Readback.relations) :
    ∀ c ∈ operator.toList, isWordChar c = true := by
  have hall : ((Readback.operations ++ Readback.relations).all fun operator => operator.toList.all isWordChar) = true := by
    decide
  exact List.all_eq_true.1 (List.all_eq_true.1 hall operator h)

/-! ## Entries -/

/-- A neat text that may stand at the beginning of a line. -/
structure Entry (text : String) : Prop where
  neat : Neat text.toList
  led : Led text.toList

section
variable {text text' name : String} {texts : List String} {fields : List (String × String)}

theorem Entry.extend {rest : List Char} (h : Entry text) (hrest : Neat rest) (heq : text'.toList = text.toList ++ rest) :
    Entry text' := by
  obtain ⟨c, tail, htext, hink, hc⟩ := h.led
  refine ⟨?_, c, tail ++ rest, ?_, hink, hc⟩
  · rw [heq]
    exact h.neat.append hrest
  · rw [heq, htext, List.cons_append]

theorem Entry.led_append (h : Entry text) (rest : List Char) : Led (text.toList ++ rest) := by
  obtain ⟨c, tail, htext, hink, hc⟩ := h.led
  exact ⟨c, tail ++ rest, by rw [htext, List.cons_append], hink, hc⟩

theorem entry_of_isName (h : isName name = true) : Entry name := by
  have hword := isWordChar_of_isName h
  obtain ⟨c, cs, heq, -, -⟩ := isName_iff.1 h
  refine ⟨neat_of_isPlain fun c hc => isPlain_of_isWordChar (hword c hc), c, cs, heq, ?_⟩
  rw [heq] at hword
  have hc := hword c List.mem_cons_self
  have hplain := isPlain_iff.1 (isPlain_of_isWordChar hc)
  refine ⟨?_, hplain.2.1⟩
  rw [isInk, Bool.and_eq_true, bne_iff_ne, bne_iff_ne]
  exact ⟨ne_of_isWordChar hc rfl, hplain.2.2.2⟩

theorem entry_quoteString (h : ∀ c ∈ text.toList, isWordChar c = true) : Entry (quoteString text) := by
  have hescape : text.toList.flatMap (Text.escape '"') = text.toList := by
    rw [List.flatMap_congr fun c hc => escape_of_isWordChar (h c hc), List.flatMap_singleton']
  have heq : (quoteString text).toList = '"' :: (text.toList ++ ['"']) := by
    rw [quoteString, String.toList_ofList, enquote, hescape, List.cons_append]
  refine ⟨?_, '"', text.toList ++ ['"'], heq, rfl, rfl⟩
  rw [heq]
  refine .plain rfl (Neat.append (neat_of_isPlain fun c hc => isPlain_of_isWordChar (h c hc)) ?_)
  exact .plain rfl .nil

theorem entry_commaSeparated (h : ∀ text ∈ texts, Entry text) (hne : texts ≠ []) : Entry (commaSeparated texts) := by
  suffices hlist : Neat ([',', ' '].intercalate (texts.map String.toList)) ∧
      Led ([',', ' '].intercalate (texts.map String.toList)) by
    rw [← toList_commaSeparated] at hlist
    exact ⟨hlist.1, hlist.2⟩
  induction texts with
  | nil => exact absurd rfl hne
  | cons text texts ih =>
    obtain ⟨htext, htexts⟩ := List.forall_mem_cons.1 h
    cases texts with
    | nil =>
      rw [List.map_singleton, List.intercalate_singleton]
      exact ⟨htext.neat, htext.led⟩
    | cons next texts =>
      obtain ⟨hneat, hled⟩ := ih htexts (List.cons_ne_nil _ _)
      rw [List.map_cons] at hneat hled
      rw [List.map_cons, List.map_cons, List.intercalate_cons_cons, List.append_assoc]
      exact ⟨htext.neat.append (.comma hled hneat), htext.led_append _⟩

def Fields (fields : List (String × String)) : Prop := ∀ field ∈ fields, isName field.1 = true ∧ Entry field.2

theorem Fields.nil : Fields [] := List.forall_mem_nil _

theorem Fields.cons (hname : isName name = true) (h : Entry text) (hfields : Fields fields) :
    Fields ((name, text) :: fields) := List.forall_mem_cons.2 ⟨⟨hname, h⟩, hfields⟩

theorem entry_recordText (hname : isName name = true) {field : String × String} (hfields : Fields (field :: fields)) :
    Entry (recordText name (field :: fields)) := by
  have hinner : Entry (commaSeparated ((field :: fields).map fun field => field.1 ++ ": " ++ field.2)) := by
    refine entry_commaSeparated (List.forall_mem_map.2 fun field hfield => ?_) (List.cons_ne_nil _ _)
    obtain ⟨hlabel, hvalue⟩ := hfields field hfield
    have hcolon : Neat (':' :: ' ' :: field.2.toList) := .plain rfl (.plain rfl hvalue.neat)
    exact (entry_of_isName hlabel).extend hcolon (by simp)
  have hbraces := Neat.bracketed (c := '{') rfl (hinner.led_append [' ']) (hinner.neat.append (.plain rfl .nil)) .nil
  exact (entry_of_isName hname).extend (.plain (c := ' ') rfl hbraces) (by simp [recordText, padding, closing])

theorem entry_parenthesized (hname : isName name = true) (h : Entry text) : Entry (name ++ "(" ++ text ++ ")") :=
  (entry_of_isName hname).extend (.bracketed (c := '(') rfl h.led h.neat .nil) (by simp [padding, closing])

theorem entry_nodeText (hname : isName name = true) (hrecord : isName (name ++ "Expr") = true) {field : String × String}
    (hfields : Fields (field :: fields)) : Entry (nodeText name (field :: fields)) :=
  entry_parenthesized hname (entry_recordText hrecord hfields)

theorem entry_listText (h : ∀ text ∈ texts, Entry text) (hne : texts ≠ []) : Entry (listText texts) := by
  have hinner := entry_commaSeparated h hne
  have heq : (listText texts).toList = '[' :: (padding '[' ++ ((commaSeparated texts).toList ++ [closing '['])) := by
    simp [listText, padding, closing]
  refine ⟨?_, '[', _, heq, rfl, rfl⟩
  rw [heq]
  exact .bracketed rfl hinner.led hinner.neat .nil

theorem entry_truthText (value : Bool) : Entry (truthText value) := by
  cases value
  · exact entry_of_isName (by decide)
  · exact entry_of_isName (by decide)

end

/-! ## Trees -/

theorem entry_outlineList {es : List Expr} (h : ∀ e ∈ es, Entry e.outline) (hne : es ≠ []) :
    Entry (listText (Expr.outlineList es)) := by
  rw [Expr.outlineList_eq_map]
  exact entry_listText (List.forall_mem_map.2 h) (by simpa using hne)

theorem entry_rowOutline {row : Row} (hshaped : row.Shaped) (h : ∀ entry ∈ row.entries, Entry entry.outline) :
    Entry row.outline := by
  cases row with
  | element entry =>
    have hname : isName "Element" = true := by decide
    rw [Row.outline]
    exact entry_parenthesized hname (h entry List.mem_cons_self)
  | elements entries =>
    have hne : entries ≠ [] := by
      rintro rfl
      exact absurd hshaped (by simp [Row.Shaped])
    have hname : isName "Elements" = true := by decide
    rw [Row.outline]
    exact entry_parenthesized hname (entry_outlineList h hne)

/-- The outline of a well-formed tree is neat. -/
theorem entry_outline {e : Expr} (h : e.WellFormed) : Entry e.outline := by
  unfold Expr.WellFormed at h
  induction e using Expr.induction with
  | number text =>
    have htext := entry_quoteString (isWordChar_of_numeral (h _ .root))
    rw [Expr.outline]
    exact entry_nodeText (by decide) (by decide) (.cons (by decide) htext .nil)
  | symbol name =>
    have hname := entry_quoteString (isWordChar_of_isName (h _ .root))
    rw [Expr.outline]
    exact entry_nodeText (by decide) (by decide) (.cons (by decide) hname .nil)
  | unary operator operand ih =>
    obtain rfl : operator = "unary_minus" := h _ .root
    have hoperand := ih (Expr.forall_node_below h List.mem_cons_self)
    have hoperator : Entry (quoteString "unary_minus") := entry_quoteString (List.all_eq_true.1 rfl)
    rw [Expr.outline]
    exact entry_nodeText (by decide) (by decide) (.cons (by decide) hoperator (.cons (by decide) hoperand .nil))
  | binary operator left right implicit ihl ihr =>
    have hleft := ihl (Expr.forall_node_below h List.mem_cons_self)
    have hright := ihr (Expr.forall_node_below h (List.mem_cons_of_mem _ List.mem_cons_self))
    have hoperator := entry_quoteString (isWordChar_of_operator (List.mem_append_left _ (h _ .root).1))
    rw [Expr.outline]
    refine entry_nodeText (by decide) (by decide) (.cons (by decide) hoperator (.cons (by decide) hleft ?_))
    exact .cons (by decide) hright (.cons (by decide) (entry_truthText implicit) .nil)
  | comparison operator left right ihl ihr =>
    have hleft := ihl (Expr.forall_node_below h List.mem_cons_self)
    have hright := ihr (Expr.forall_node_below h (List.mem_cons_of_mem _ List.mem_cons_self))
    have hoperator := entry_quoteString (isWordChar_of_operator (List.mem_append_right _ (h _ .root)))
    rw [Expr.outline]
    refine entry_nodeText (by decide) (by decide) (.cons (by decide) hoperator (.cons (by decide) hleft ?_))
    exact .cons (by decide) hright .nil
  | call name arguments ih =>
    obtain ⟨hname, hne⟩ := h _ .root
    have hquoted := entry_quoteString (isWordChar_of_isName hname)
    have harguments := entry_outlineList (fun e he => ih e he (Expr.forall_node_below h he)) hne
    rw [Expr.outline]
    exact entry_nodeText (by decide) (by decide) (.cons (by decide) hquoted (.cons (by decide) harguments .nil))
  | matrix rows ih =>
    obtain ⟨hne, hshaped⟩ := h _ .root
    have hrow : ∀ row ∈ rows, Entry row.outline := fun row hrow =>
      entry_rowOutline (hshaped row hrow) fun entry hentry =>
        ih row hrow entry hentry (Expr.forall_node_below h (Row.mem_children hrow hentry))
    have hrows : Entry (listText (Row.outlineList rows)) := by
      rw [Row.outlineList_eq_map]
      exact entry_listText (List.forall_mem_map.2 hrow) (by simpa using hne)
    rw [Expr.outline]
    exact entry_nodeText (by decide) (by decide) (.cons (by decide) hrows .nil)
  | accessor object index iho ihi =>
    have hobject := iho (Expr.forall_node_below h List.mem_cons_self)
    have hindex := entry_outlineList
      (fun e he => ihi e he (Expr.forall_node_below h (List.mem_cons_of_mem _ he))) (h _ .root)
    have hfields : Fields [("dimensions", listText (Expr.outlineList index))] := .cons (by decide) hindex .nil
    have hpath : Entry (recordText "IndexPath" _) := entry_recordText (by decide) hfields
    rw [Expr.outline]
    exact entry_nodeText (by decide) (by decide) (.cons (by decide) hobject (.cons (by decide) hpath .nil))
  | transpose operand ih =>
    have hoperand := ih (Expr.forall_node_below h List.mem_cons_self)
    rw [Expr.outline]
    exact entry_nodeText (by decide) (by decide) (.cons (by decide) hoperand .nil)
  | assignment target value ih =>
    have hvalue := ih (Expr.forall_node_below h List.mem_cons_self)
    have hquoted := entry_quoteString (isWordChar_of_isName (h _ .root))
    have hfields : Fields [("name", quoteString target)] := .cons (by decide) hquoted .nil
    have htarget : Entry (recordText "SymbolExpr" _) := entry_recordText (by decide) hfields
    rw [Expr.outline]
    exact entry_nodeText (by decide) (by decide) (.cons (by decide) htarget (.cons (by decide) hvalue .nil))
  | boolean value =>
    rw [Expr.outline]
    exact entry_nodeText (by decide) (by decide) (.cons (by decide) (entry_truthText value) .nil)
  | undefined =>
    have hname : isName "Undefined" = true := by decide
    exact entry_of_isName hname

/-! ## Formulas -/

/--
A layout adds and drops nothing but spaces and newlines, and it is made part by part, with a counter of brackets and a
flag. The layout of the outline of a formula is indented, and the counter counts the brackets without fail.
-/
theorem layout_keeps_and_indents :
    (∀ text : String, (layout text).toList.filter isInk = text.toList.filter isInk) ∧
    (∀ text text' : List Char, layoutFrom 0 false (text ++ text') = layoutFrom 0 false text ++
      layoutFrom (State.start.after text).depth (State.start.after text).dropSpace text') ∧
    ∀ (limit : Nat) (source : String) (e : Expr), parseFormulaWithin limit source = .ok e → LaidOut e.outline.toList :=
  ⟨filter_layout, layoutFrom_append .start, fun _ _ _ h => (entry_outline (wellFormed_of_parseFormulaWithin h)).neat.laidOut⟩

/-- A transposed absolute value, whose outline has brackets of all three kinds. -/
theorem layout_keeps_and_indents_bars :
    let e := Expr.transpose (.call "abs" [.symbol "x"])
    parseFormulaWithin 8 "|x|^T" = .ok e ∧
      layout e.outline = "\n".intercalate ["Transpose(", "  TransposeExpr \x7b", "    operand: Call(",
        "      CallExpr \x7b", "        name: \"abs\",", "        arguments: [", "          Symbol(",
        "            SymbolExpr \x7b", "              name: \"x\" ", "            \x7d", "          )", "        ] ",
        "      \x7d", "    ) ", "  \x7d", ")"] ∧
      (layout e.outline).toList.filter isInk = e.outline.toList.filter isInk ∧ LaidOut e.outline.toList := by
  intro e
  have h : parseFormulaWithin 8 "|x|^T" = .ok e := eq_ok_of_toOption (by decide +kernel)
  obtain ⟨hkeeps, -, hindents⟩ := layout_keeps_and_indents
  exact ⟨h, by decide +kernel, hkeeps e.outline, hindents 8 "|x|^T" e h⟩

end TexFormula

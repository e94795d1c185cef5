import Mathlib.Data.List.Pairwise
import RealMode.Proofs.ListingSymbols

/-!
# Operands of data declarations

A text in the data segment stands between single quotes, with the quotes in it written
twice. Here it is read again, by the rule of the assembler: behind the opening quote, two
quotes are one character, and a quote that no other follows closes the operand.

- `readCharacters` is this rule. It looks one character ahead, and yields what remains of
  the line.
- `readOperand?_quoteData`: a quoted text is read as the text itself. What comes behind it
  must not begin with a quote, which would be taken for the second of two.
- `Line.Declares`: what a line declares under its label, as it is read from the text of
  the line.
- `declares_texts` puts this together for the data segment of a program.
-/

namespace RealMode

/-! ## Character operands -/

/-- Reads the characters of an operand, behind its opening quote, and yields them with the
text that remains behind the closing quote. -/
def readCharacters : List Char → Option (List Char × List Char)
  | [] => none
  | '\'' :: '\'' :: rest => (readCharacters rest).map (Prod.map ('\'' :: ·) id)
  | '\'' :: rest => some ([], rest)
  | c :: rest => (readCharacters rest).map (Prod.map (c :: ·) id)

/-- Reads a character operand. -/
def readOperand? : List Char → Option (List Char × List Char)
  | '\'' :: rest => readCharacters rest
  | _ => none

theorem readCharacters_quote_quote (rest : List Char) :
    readCharacters ('\'' :: '\'' :: rest) =
      (readCharacters rest).map (Prod.map ('\'' :: ·) id) := rfl

/-- A quote that no other follows closes the operand. -/
theorem readCharacters_quote {rest : List Char} (hrest : rest.head? ≠ some '\'') :
    readCharacters ('\'' :: rest) = some ([], rest) := by
  cases rest with
  | nil => rfl
  | cons c rest =>
    have hc : c ≠ '\'' := fun h => hrest (congrArg some h)
    simp [readCharacters, hc]

theorem readCharacters_of_ne {c : Char} (hc : c ≠ '\'') (rest : List Char) :
    readCharacters (c :: rest) = (readCharacters rest).map (Prod.map (c :: ·) id) := by
  simp [readCharacters, hc]

/-- A quoted text is read as the text, with any quotes in it, and nothing behind it is
touched. -/
theorem readOperand?_quoteData (text : List Char) {rest : List Char}
    (hrest : rest.head? ≠ some '\'') :
    readOperand? (quoteData text ++ rest) = some (text, rest) := by
  show readCharacters (text.flatMap _ ++ ['\''] ++ rest) = _
  rw [List.append_assoc]
  induction text with
  | nil => exact readCharacters_quote hrest
  | cons c text ih =>
    rw [List.flatMap_cons, List.append_assoc]
    by_cases hc : c = '\''
    · -- The two quotes are taken together, whatever comes next.
      rw [if_pos hc, List.cons_append, List.cons_append, List.nil_append,
        readCharacters_quote_quote, ih, hc]
      rfl
    · rw [if_neg hc, List.cons_append, List.nil_append, readCharacters_of_ne hc, ih]
      rfl

example :
    readOperand? "'''a'''' $' , 0".toList =
      some ("'a'' $".toList, " , 0".toList) := by decide

/-! ## Lines -/

namespace Line

/-- The line declares bytes under the label, and its first operand is read as these
characters, with this text behind it. -/
def Declares (line : Line) (label : String) (characters rest : List Char) : Prop :=
  line.symbol? = some label ∧ ∃ operand : String,
    line.text = label ++ " DB " ++ operand ∧
    readOperand? operand.toList = some (characters, rest)

/-- There is one way to read a line. -/
theorem Declares.unique {line : Line} {label : String}
    {characters characters' rest rest' : List Char}
    (h : line.Declares label characters rest)
    (h' : line.Declares label characters' rest') :
    characters = characters' ∧ rest = rest' := by
  obtain ⟨-, operand, htext, hread⟩ := h
  obtain ⟨-, operand', htext', hread'⟩ := h'
  obtain rfl : operand = operand' :=
    (String.append_right_inj _).mp (htext.symm.trans htext')
  exact Prod.mk.inj (Option.some.inj (hread.symm.trans hread'))

theorem declares_message (label name : String) :
    (message label name).Declares label (name ++ " is $").toList [] := by
  refine ⟨rfl, dataOperand (name ++ " is $"), rfl, ?_⟩
  have hread : readOperand? (quoteData (name ++ " is $").toList ++ []) = _ :=
    readOperand?_quoteData (name ++ " is $").toList (by simp)
  rw [List.append_nil] at hread
  rw [dataOperand, String.toList_ofList, hread]

theorem declares_literal (label text : String) :
    (literal label text).Declares label (text ++ " $").toList " , 0".toList := by
  refine ⟨rfl, dataOperand (text ++ " $") ++ " , 0", String.append_assoc, ?_⟩
  rw [String.toList_append, dataOperand, String.toList_ofList]
  exact readOperand?_quoteData (text ++ " $").toList (by simp)

end Line

/-! ## The data segment of a program -/

namespace StaticData

/-- No two lines of the data segment declare the same symbol. -/
theorem eq_of_symbol?_eq {data : StaticData} {line line' : Line} {symbol : String}
    (hline : line ∈ data.segment data.labels) (hline' : line' ∈ data.segment data.labels)
    (hsymbol : line.symbol? = some symbol) (hsymbol' : line'.symbol? = some symbol) :
    line = line' := by
  have hsymm : Std.Symm fun line line' : Line => ∀ x, line.symbol? = some x →
      ∀ x', line'.symbol? = some x' → x ≠ x' :=
    ⟨fun _ _ h x hx x' hx' => (h x' hx' x hx).symm⟩
  have hnodup := data.nodup_definedSymbols_segment
  rw [definedSymbols, List.Nodup, List.pairwise_filterMap] at hnodup
  by_contra hne
  exact hnodup.forall hline hline' hne symbol hsymbol symbol hsymbol' rfl

theorem exists_string?_iff {tree : Node} {text : String} :
    (∃ label, (collect tree).labels.string? text = some label) ↔
      text ∈ tree.literals := by
  rw [← mem_literals_collect, ← Option.isSome_iff_exists]
  exact isSome_label?_labels (collect tree) (.literal text)

theorem exists_message?_iff {tree : Node} {name : String} :
    (∃ label, (collect tree).labels.message? name = some label) ↔ name ∈ tree.names := by
  rw [← mem_identifiers_collect, ← Option.isSome_iff_exists]
  exact isSome_label?_labels (collect tree) (.message name)

/-- The line of an item is the one that stands under its label. -/
theorem mem_segment_and_symbol?_iff {data : StaticData} {item : DataItem} {label : String}
    (hlabel : data.labels.label? item = some label) (line : Line) :
    line ∈ data.segment data.labels ∧ line.symbol? = some label ↔
      line = item.line label := by
  have hmem := line_mem_segment hlabel
  have hsymbol : (item.line label).symbol? = some label := by
    cases item <;> rfl
  constructor
  · rintro ⟨hline, hline_symbol⟩
    exact eq_of_symbol?_eq hline hmem hline_symbol hsymbol
  · rintro rfl
    exact ⟨hmem, hsymbol⟩

/-- What is read under the label of a literal is this literal. -/
theorem characters_of_declares {data : StaticData} {text label : String} {line : Line}
    {characters rest : List Char} (hlabel : data.labels.string? text = some label)
    (hline : line ∈ data.segment data.labels) (h : line.Declares label characters rest) :
    characters = (text ++ " $").toList := by
  have hitem : data.labels.label? (.literal text) = some label := hlabel
  obtain rfl : line = .literal label text :=
    (mem_segment_and_symbol?_iff hitem line).mp ⟨hline, h.1⟩
  exact (h.unique (Line.declares_literal label text)).1

/-- **Data operands are read as their texts.** In the data segment of a program, exactly
one line is labelled for each string literal and for the message of each variable. Its
first operand is read as the literal with a blank and a dollar sign, in front of the final
zero, or as the name with ` is $`, at the end of the line. So two literals that are
declared alike are the same. -/
theorem declares_texts (tree : Node) :
    (∀ text ∈ tree.literals, ∃ label line,
      (collect tree).labels.string? text = some label ∧
      (∀ line', line' ∈ (collect tree).segment (collect tree).labels ∧
        line'.symbol? = some label ↔ line' = line) ∧
      line.Declares label (text ++ " $").toList " , 0".toList) ∧
    (∀ name ∈ tree.names, ∃ label line,
      (collect tree).labels.message? name = some label ∧
      (∀ line', line' ∈ (collect tree).segment (collect tree).labels ∧
        line'.symbol? = some label ↔ line' = line) ∧
      line.Declares label (name ++ " is $").toList []) ∧
    ∀ text text' label label' line line' characters rest,
      (collect tree).labels.string? text = some label →
      (collect tree).labels.string? text' = some label' →
      line ∈ (collect tree).segment (collect tree).labels →
        line.Declares label characters rest →
      line' ∈ (collect tree).segment (collect tree).labels →
        line'.Declares label' characters rest →
      text = text' := by
  refine ⟨fun text htext => ?_, fun name hname => ?_, ?_⟩
  · obtain ⟨label, hlabel⟩ := exists_string?_iff.mpr htext
    have hitem : (collect tree).labels.label? (.literal text) = some label := hlabel
    exact ⟨label, _, hlabel, mem_segment_and_symbol?_iff hitem,
      Line.declares_literal label text⟩
  · obtain ⟨label, hlabel⟩ := exists_message?_iff.mpr hname
    have hitem : (collect tree).labels.label? (.message name) = some label := hlabel
    exact ⟨label, _, hlabel, mem_segment_and_symbol?_iff hitem,
      Line.declares_message label name⟩
  · intro text text' label label' line line' characters rest hlabel hlabel' hline hread
      hline' hread'
    have htext := characters_of_declares hlabel hline hread
    have htext' := characters_of_declares hlabel' hline' hread'
    exact (String.append_left_inj _).mp (String.toList_inj.mp (htext.symm.trans htext'))

/-- Literals of two and of three quotes, and a variable with a quote in its name. -/
def quotes : Node :=
  .chain (.assignment "it's" (.string "''")) (.last (.string "'''"))

/-- The last quote of a literal stands next to the blank that is added, and is still read
as its own; the two literals are not declared alike. -/
theorem declares_texts_quotes :
    ∃ label label' message, ∃ line line' line'' : Line,
      (collect quotes).labels.string? "''" = some label ∧
      (collect quotes).labels.string? "'''" = some label' ∧
      (collect quotes).labels.message? "it's" = some message ∧
      line.Declares label "'' $".toList " , 0".toList ∧
      line'.Declares label' "''' $".toList " , 0".toList ∧
      line''.Declares message "it's is $".toList [] ∧
      ¬ line'.Declares label' "'' $".toList " , 0".toList := by
  obtain ⟨hliterals, hnames, hdistinct⟩ := declares_texts quotes
  obtain ⟨label, line, hlabel, hline, hread⟩ := hliterals "''" (by decide)
  obtain ⟨label', line', hlabel', hline', hread'⟩ := hliterals "'''" (by decide)
  obtain ⟨message, line'', hmessage, -, hread''⟩ := hnames "it's" (by decide)
  refine ⟨label, label', message, line, line', line'', hlabel, hlabel', hmessage,
    hread, hread', hread'', fun hsame => ?_⟩
  have heq := hdistinct "''" "'''" label label' line line' _ _ hlabel hlabel'
    ((hline line).mpr rfl).1 hread ((hline' line').mpr rfl).1 hsame
  exact absurd heq (by decide)

end StaticData

end RealMode

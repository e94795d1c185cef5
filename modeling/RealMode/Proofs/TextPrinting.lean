import RealMode.Proofs.DataOperands
import RealMode.Proofs.NumberPrinting

/-!
# The procedure that prints texts

`print_string` prints what is in memory from the address in `DX` to the first dollar sign.
The data of a program is in memory as the assembler reads it from the text of the listing,
and every text in it ends with a dollar sign of its own. One that holds another is cut
there.

- `Platform.LoadsOperands`: the characters of a declaration are found at its label.
- `Prints`: a call with the address of a label prints a text and returns. It prints one
  text only (`Prints.unique`), since the machine has no choice.
- `prints_shown`: of a text with a dollar sign behind it, a call prints what comes before
  the first.
- `prints_whole_iff`: so a literal is printed whole, with its blank, exactly when it has
  no dollar sign, and so is the message of a variable; `prints_cut_dollar` is a literal
  that loses a part.
-/

namespace RealMode

open Instruction

/-! ## What is shown of a text -/

/-- The end mark is not shown. -/
theorem shown_concat_dollar (text : List Char) : shown (text ++ ['$']) = shown text := by
  rw [shown, List.takeWhile_append]
  split
  · rename_i hlength
    rw [shown, (List.takeWhile_sublist _).eq_of_length hlength]
    simp
  · rfl

/-- A text is shown whole if it has no dollar sign. -/
theorem shown_eq_self_iff {text : List Char} : shown text = text ↔ '$' ∉ text := by
  rw [shown, List.takeWhile_eq_self_iff]
  constructor
  · intro hall hmem
    exact absurd (hall '$' hmem) (by decide)
  · intro hnot c hc
    exact decide_eq_true fun heq => hnot (heq ▸ hc)

/-! ## Calls -/

/-- The characters of a declaration are found in memory, at its label. -/
def Platform.LoadsOperands (p : Platform) (lines : List Line) : Prop :=
  ∀ line ∈ lines, ∀ label characters rest, line.Declares label characters rest →
    characters <+: p.memory (p.address label)

/-- Wherever the procedure stands in a program, with the address of the label in `DX` it
prints the text and returns. -/
def Prints (p : Platform) (label : String) (text : List Char) : Prop :=
  ∀ (program rest : List Code) (m : Machine), m.registers .dx = p.address label →
    ∃ m', Runs p program ⟨Procedure.body .printString ++ rest, m⟩ ⟨[], m'⟩ ∧
      m'.output = m.output ++ text

/-- A run that is at its end has one outcome. -/
theorem Runs.eq_of_end {p : Platform} {program : List Code} {position : Position}
    {m m' : Machine} (h : Runs p program position ⟨[], m⟩)
    (h' : Runs p program position ⟨[], m'⟩) : m = m' := by
  have hstuck : ∀ {m : Machine} {position : Position},
      Runs p program ⟨[], m⟩ position → position = ⟨[], m⟩ := by
    intro m position hrun
    rcases Relation.ReflTransGen.cases_head hrun with heq | ⟨next, hstep, -⟩
    · exact heq.symm
    · cases hstep
  have hunique : Relator.RightUnique fun position position' : Position =>
      step? p program position = some position' :=
    fun _ _ _ h h' => Option.some.inj (h.symm.trans h')
  rcases Relation.ReflTransGen.total_of_right_unique hunique h h' with hrun | hrun
  · exact (Position.mk.inj (hstuck hrun)).2.symm
  · exact (Position.mk.inj (hstuck hrun)).2

theorem Prints.unique {p : Platform} {label : String} {text text' : List Char}
    (h : Prints p label text) (h' : Prints p label text') : text = text' := by
  let m : Machine := ⟨fun _ => p.address label, ⟨false, false, false⟩, [], fun _ => 0, []⟩
  obtain ⟨m₁, hrun, hout⟩ := h [] [] m rfl
  obtain ⟨m₂, hrun', hout'⟩ := h' [] [] m rfl
  rw [hrun.eq_of_end hrun'] at hout
  exact hout.symm.trans hout'

/-- Function 9 of the operating system prints the text at `DX`. -/
theorem Machine.interrupt?_text {p : Platform} {m : Machine} (h : m.byte .ah = 9) :
    m.interrupt? p 0x21 = some ((m.print (shown (p.memory (m.registers .dx)))).resume
      ((p.leftover m).setWidth 8)) := by
  rw [interrupt?, if_pos rfl, h]
  rfl

/-- The procedure prints what is in memory up to the first dollar sign. -/
theorem prints_memory (p : Platform) (label : String) :
    Prints p label (shown (p.memory (p.address label))) := by
  intro program rest m hdx
  let m₁ := m.setByte 9 .ah
  have hdx₁ : m₁.registers .dx = p.address label := by
    rw [← hdx]
    exact m.registers_set_of_ne _ (by decide)
  have hexec : [mov (.byte .ah) (Procedure.hex 9), interrupt (.hex 0x21 'h')].foldlM
      (Machine.exec? p) m = some ((m₁.print (shown (p.memory (m₁.registers .dx)))).resume
        ((p.leftover m₁).setWidth 8)) := by
    show (m₁.interrupt? p 0x21).bind some = _
    rw [Machine.interrupt?_text (m.byte_ah_setByte 9)]
    rfl
  refine ⟨_, (Runs.instrs hexec).trans (.one rfl), ?_⟩
  rw [hdx₁]
  rfl

/-- A text with a dollar sign behind it is printed up to its own first dollar sign. -/
theorem prints_shown {p : Platform} {label : String} {text : List Char}
    (h : text ++ ['$'] <+: p.memory (p.address label)) : Prints p label (shown text) := by
  obtain ⟨rest, hrest⟩ := h
  have hprints := prints_memory p label
  rwa [← hrest, shown_append_of_mem (by simp), shown_concat_dollar] at hprints

/-- With some words behind it and then a dollar sign, a text is printed whole if it has no
dollar sign of its own, and cut otherwise. -/
theorem prints_text {p : Platform} {label text : String} (tail : String)
    (htail : '$' ∉ tail.toList)
    (h : (text ++ (tail ++ "$")).toList <+: p.memory (p.address label)) :
    Prints p label (shown (text ++ tail).toList) ∧
      (Prints p label (text ++ tail).toList ↔ '$' ∉ text.toList) := by
  have hmemory : (text ++ tail).toList ++ ['$'] <+: p.memory (p.address label) := by
    simpa using h
  have hshown := prints_shown hmemory
  refine ⟨hshown, ?_⟩
  constructor
  · intro hwhole hmem
    have hself := hshown.unique hwhole
    exact shown_eq_self_iff.mp hself (by simp [hmem])
  · intro hnot
    rwa [shown_eq_self_iff.mpr (by simp [hnot, htail])] at hshown

/-! ## The texts of a program -/

namespace StaticData

variable {data : StaticData} {p : Platform}

/-- Words and the line break are not declared by characters. -/
theorem declares_cases {line : Line} {label : String} {characters rest : List Char}
    (hline : line ∈ data.segment data.labels) (h : line.Declares label characters rest) :
    (∃ text, data.labels.string? text = some label ∧ line = .literal label text) ∨
      ∃ name, data.labels.message? name = some label ∧ line = .message label name := by
  obtain ⟨hsymbol, operand, htext, hread⟩ := h
  rcases mem_segment_iff.mp hline with
    rfl | ⟨name, -, rfl | ⟨label', hlabel, rfl⟩⟩ | ⟨text, label', hlabel, rfl⟩ | rfl | rfl
  · cases hsymbol
  · obtain rfl : name = label := Option.some.inj hsymbol
    have hrest : " DW ?" = " DB " ++ operand := by
      rw [String.append_assoc] at htext
      exact (String.append_right_inj name).mp htext
    have hchars := congrArg String.toList hrest
    simp at hchars
  · obtain rfl : label' = label := Option.some.inj hsymbol
    exact .inr ⟨name, hlabel, rfl⟩
  · obtain rfl : label' = label := Option.some.inj hsymbol
    exact .inl ⟨text, hlabel, rfl⟩
  · obtain rfl : data.labels.newLine = label := Option.some.inj hsymbol
    have hrest : " DB 0Dh, 0Ah, '$'" = " DB " ++ operand := by
      rw [String.append_assoc] at htext
      exact (String.append_right_inj data.labels.newLine).mp htext
    have hchars : operand.toList = "0Dh, 0Ah, '$'".toList := by
      simpa using (congrArg String.toList hrest).symm
    rw [hchars] at hread
    cases hread
  · cases hsymbol

/-- The data is in memory when every literal and every message is found at its label. -/
theorem loadsOperands_segment_iff :
    p.LoadsOperands (data.segment data.labels) ↔
      (∀ text label, data.labels.string? text = some label →
        (text ++ " $").toList <+: p.memory (p.address label)) ∧
      ∀ name label, data.labels.message? name = some label →
        (name ++ " is $").toList <+: p.memory (p.address label) := by
  constructor
  · intro hp
    constructor
    · intro text label hlabel
      have hline : (DataItem.literal text).line label ∈ data.segment data.labels :=
        line_mem_segment hlabel
      exact hp _ hline label _ _ (Line.declares_literal label text)
    · intro name label hlabel
      have hline : (DataItem.message name).line label ∈ data.segment data.labels :=
        line_mem_segment hlabel
      exact hp _ hline label _ _ (Line.declares_message label name)
  · rintro ⟨hliterals, hmessages⟩ line hline label characters rest h
    rcases declares_cases hline h with ⟨text, hlabel, rfl⟩ | ⟨name, hlabel, rfl⟩
    · obtain ⟨rfl, -⟩ := h.unique (Line.declares_literal label text)
      exact hliterals text label hlabel
    · obtain ⟨rfl, -⟩ := h.unique (Line.declares_message label name)
      exact hmessages name label hlabel

end StaticData

namespace Compilation

variable {settings : Settings} {tree : Node} {compiled : Compiled} {p : Platform}

/-- **What is printed of the texts of a program.** Take a program that is compiled and its
data in memory, as it is read from the lines of the listing. A call of `print_string` with
the label of a string literal prints the literal and a blank up to the first dollar sign
in it, hence the whole if there is none and not otherwise; and with the label of a message
it prints the name and ` is ` in the same way. -/
theorem prints_whole_iff (h : compile settings tree = .ok compiled)
    (hp : p.LoadsOperands (compiled.data.segment compiled.data.labels)) :
    (∀ text ∈ tree.literals, ∃ label, compiled.data.labels.string? text = some label ∧
      Prints p label (shown (text ++ " ").toList) ∧
      (Prints p label (text ++ " ").toList ↔ '$' ∉ text.toList)) ∧
    ∀ name ∈ tree.names, ∃ label, compiled.data.labels.message? name = some label ∧
      Prints p label (shown (name ++ " is ").toList) ∧
      (Prints p label (name ++ " is ").toList ↔ '$' ∉ name.toList) := by
  obtain ⟨_, _, _, -, -, hdata, -⟩ := exists_lowers_of_compile h
  rw [hdata] at hp ⊢
  obtain ⟨hliterals, hmessages⟩ := StaticData.loadsOperands_segment_iff.mp hp
  constructor
  · intro text htext
    obtain ⟨label, hlabel⟩ := StaticData.exists_string?_iff.mpr htext
    exact ⟨label, hlabel, prints_text " " (by decide) (hliterals text label hlabel)⟩
  · intro name hname
    obtain ⟨label, hlabel⟩ := StaticData.exists_message?_iff.mpr hname
    exact ⟨label, hlabel, prints_text " is " (by decide) (hmessages name label hlabel)⟩

/-- A literal with a quote and the message of a variable, at two addresses: both are
printed whole. -/
theorem prints_whole_iff_quote :
    ∃ compiled p label message,
      compile {} (.assignment "x" (.string "it's")) = .ok compiled ∧
      p.LoadsOperands (compiled.data.segment compiled.data.labels) ∧
      compiled.data.labels.string? "it's" = some label ∧ Prints p label "it's ".toList ∧
      compiled.data.labels.message? "x" = some message ∧
      Prints p message "x is ".toList := by
  have hnone : Node.firstFault? (.assignment "x" (.string "it's"))
    ({} : Settings).maxDepth =
      none := rfl
  have hcompile := compile_of_none hnone
  have hname : "x" ∈ Node.names (.assignment "x" (.string "it's")) := by decide
  obtain ⟨message, hmessage⟩ := StaticData.exists_message?_iff.mpr hname
  -- The message is loaded at 16 and the literal at 0; their labels differ.
  let p : Platform := ⟨0, fun label => if label = message then 16 else 0,
    fun a => if a = 16 then "x is $".toList else "it's $".toList, fun _ => 0,
    fun _ => ⟨true, true, true⟩⟩
  have hp : p.LoadsOperands
    ((StaticData.collect (.assignment "x" (.string "it's"))).segment
      (StaticData.collect (.assignment "x" (.string "it's"))).labels) := by
    refine StaticData.loadsOperands_segment_iff.mpr ⟨?_, ?_⟩
    · intro text label hlabel
      obtain rfl : text = "it's" :=
        List.mem_singleton.mp (StaticData.exists_string?_iff.mp ⟨_, hlabel⟩)
      have hne : label ≠ message := by
        rintro rfl
        have hsame : DataItem.literal "it's" = .message "x" :=
          DataLabels.label?_unique hlabel hmessage
        exact absurd hsame (by decide)
      simp [p, hne]
    · intro name label hlabel
      obtain rfl : name = "x" :=
        List.mem_singleton.mp (StaticData.exists_message?_iff.mp ⟨_, hlabel⟩)
      obtain rfl : message = label := Option.some.inj (hmessage.symm.trans hlabel)
      simp [p]
  obtain ⟨hliterals, hnames⟩ := prints_whole_iff hcompile hp
  obtain ⟨label, hlabel, -, hprints⟩ := hliterals "it's" (by decide)
  obtain ⟨message', hmessage', -, hprints'⟩ := hnames "x" (by decide)
  exact ⟨_, p, label, message', hcompile, hp, hlabel, hprints.mpr (by decide), hmessage',
    hprints'.mpr (by decide)⟩

/-- A literal is cut at its dollar sign. -/
theorem prints_cut_dollar :
    ∃ compiled p label, compile {} (.string "a$b") = .ok compiled ∧
      p.LoadsOperands (compiled.data.segment compiled.data.labels) ∧
      compiled.data.labels.string? "a$b" = some label ∧ Prints p label "a".toList ∧
      ¬ Prints p label "a$b ".toList := by
  have hnone : Node.firstFault? (.string "a$b") ({} : Settings).maxDepth = none := rfl
  have hcompile := compile_of_none hnone
  have htext : "a$b" ∈ Node.literals (.string "a$b") := by decide
  obtain ⟨label, hlabel⟩ := StaticData.exists_string?_iff.mpr htext
  let p : Platform := ⟨0, fun _ => 0, fun _ => "a$b $".toList, fun _ => 0,
    fun _ => ⟨true, true, true⟩⟩
  have hp : p.LoadsOperands ((StaticData.collect (.string "a$b")).segment
      (StaticData.collect (.string "a$b")).labels) := by
    refine StaticData.loadsOperands_segment_iff.mpr ⟨?_, ?_⟩
    · intro text label hlabel
      obtain rfl : text = "a$b" :=
        List.mem_singleton.mp (StaticData.exists_string?_iff.mp ⟨_, hlabel⟩)
      exact List.prefix_rfl
    · intro name label hlabel
      exact absurd (StaticData.exists_message?_iff.mp ⟨_, hlabel⟩) List.not_mem_nil
  have hprints : Prints p label "a".toList := prints_memory p label
  refine ⟨_, p, label, hcompile, hp, hlabel, hprints, fun hwhole => ?_⟩
  exact absurd (hprints.unique hwhole) (by decide)

end Compilation

end RealMode

import RealMode.Proofs.DepthLimit
import RealMode.Proofs.ListingSymbols
import RealMode.Proofs.TextPieces

/-!
# The lines of a listing

The text of a listing is its lines, each with a newline behind it. Splitting the text at
newlines gives the lines back if none of them has a newline inside. Nearly everything in a
line is fixed; `Line.texts` are the names, literals and labels of the program that it
repeats, and a line is broken exactly when one of these is (`Line.oneLine_text_iff`).

- The code refers to data that is declared, so that its lines repeat nothing that the data
  segment does not (`oneLine_lowered`).
- The label of a message is made from a name as it is, the label of a literal from
  letters, digits and underscores only.

So the lines are found again exactly when no name and no literal has a newline
(`splitOn_listing_iff`). Nothing keeps a newline out of a literal:
`splitOn_listing_newline` is a listing with one line more than it was made of.
-/

namespace RealMode

/-! ## Texts without a newline -/

/-- The text has no newline. -/
def OneLine (text : String) : Prop :=
  '\n' ∉ text.toList

instance (text : String) : Decidable (OneLine text) :=
  inferInstanceAs (Decidable (¬ '\n' ∈ text.toList))

/-- A joined text is on one line when both its parts are. -/
theorem oneLine_append {a b : String} : OneLine (a ++ b) ↔ OneLine a ∧ OneLine b := by
  simp [OneLine]

theorem oneLine_append_left {a b : String} (h : OneLine a) :
    OneLine (a ++ b) ↔ OneLine b :=
  oneLine_append.trans (and_iff_right h)

theorem oneLine_append_right {a b : String} (h : OneLine b) :
    OneLine (a ++ b) ↔ OneLine a :=
  oneLine_append.trans (and_iff_left h)

/-- A number is on one line. -/
theorem oneLine_nat (n : Nat) : OneLine (toString n) := by
  intro hmem
  have hdigit : '\n' ∈ Nat.toDigits 10 n := by simpa using hmem
  exact absurd (Nat.isDigit_of_mem_toDigits (by decide) (by decide) hdigit) (by decide)

theorem oneLine_int (n : Int) : OneLine (toString n) := by
  cases n with
  | ofNat n => exact oneLine_nat n
  | negSucc n =>
    show OneLine ("-" ++ toString (n + 1))
    exact oneLine_append.mpr ⟨by decide, oneLine_nat _⟩

/-! ## Splitting -/

namespace Line

/-- A line is printed with a newline after it. -/
theorem toList_render_cons (line : Line) (lines : List Line) :
    (render (line :: lines)).toList =
      line.text.toList ++ '\n' :: (render lines).toList := by
  have hrender : render (line :: lines) = render [line] ++ render lines :=
    render_append [line] lines
  have hone : render [line] = line.text ++ "\n" := by
    simp [render, String.join]
  rw [hrender, hone]
  simp

/-- What a listing is split into: the pieces of its lines, and an empty one behind the
last newline. -/
theorem splitOn_render (lines : List Line) :
    (render lines).toList.splitOn '\n' =
      lines.flatMap (fun line => line.text.toList.splitOn '\n') ++ [[]] := by
  induction lines with
  | nil => rfl
  | cons line lines ih =>
    rw [toList_render_cons, List.splitOn_append_cons_self, ih, List.flatMap_cons,
      List.append_assoc]

/-- The lines are found again if none of them is broken, and only then. -/
theorem splitOn_render_eq_iff (lines : List Line) :
    (render lines).toList.splitOn '\n' =
      lines.map (fun line => line.text.toList) ++ [[]] ↔
      ∀ line ∈ lines, OneLine line.text := by
  constructor
  · intro hsplit line hline
    have hpiece : line.text.toList ∈ (render lines).toList.splitOn '\n' := by
      rw [hsplit]
      exact List.mem_append_left _ (List.mem_map_of_mem hline)
    exact not_mem_of_mem_splitOn hpiece
  · intro hlines
    have hpieces : lines.flatMap (fun line => line.text.toList.splitOn '\n') =
        lines.flatMap fun line => [line.text.toList] :=
      List.flatMap_congr fun line hline => List.splitOn_eq_singleton (hlines line hline)
    rw [splitOn_render, hpieces, ← List.map_eq_flatMap]

end Line

/-! ## What lines repeat -/

/-- The text of a data operand. -/
def DataOperand.text : DataOperand → String
  | .cell name => name
  | .address label => label

/-- The texts of the program that a line repeats. -/
def Line.texts : Line → List String
  | .word name => [name]
  | .message label name => [label, name]
  | .literal label text => [label, text]
  | .lineBreak label => [label]
  | line => line.data.map DataOperand.text

/-- Whether a number is written without a newline. A hexadecimal one is a byte. -/
def Numeral.isPlain : Numeral → Bool
  | .decimal _ => true
  | .hex value mark => decide (value < 256) && mark != '\n'
  | .character c => c != '\n'

/-- Whether an operand is written without a newline, its name aside. -/
def Operand.isPlain : Operand → Bool
  | .number n => n.isPlain
  | _ => true

/-- Whether an instruction is written without a newline, what it repeats of the program
aside. -/
def Instruction.isPlain : Instruction → Bool
  | .mov target source | .add target source | .sub target source | .xor target source
  | .cmp target source => target.isPlain && source.isPlain
  | .interrupt vector => vector.isPlain
  | _ => true

/-- Whether a piece of code is written without a newline, what it repeats of the program
aside. -/
def Code.isPlain : Code → Bool
  | .label _ => true
  | .instr i => i.isPlain

/-- Whether a line is written without a newline, what it repeats of the program aside. -/
def Line.isPlain : Line → Bool
  | .code c | .procCode c => c.isPlain
  | _ => true

/-- The labels of the code are on one line. -/
theorem CodeLabel.oneLine_text (l : CodeLabel) : OneLine l.text := by
  cases l with
  | start | programEnd => decide
  | printNumber place => cases place <;> decide
  | _ => exact oneLine_append.mpr ⟨by decide, oneLine_nat _⟩

theorem oneLine_hexByte {value : Nat} (h : value < 256) : OneLine (hexByte value) := by
  have hdigit : ∀ n < 16, '\n' ≠ (Nat.digitChar n).toUpper := by decide
  have hhigh := hdigit (value / 16) (by omega)
  have hlow := hdigit (value % 16) (by omega)
  simp [OneLine, hexByte, hhigh, hlow]

theorem Numeral.oneLine_text {n : Numeral} (h : n.isPlain) : OneLine n.text := by
  cases n with
  | decimal value => exact oneLine_int value
  | hex value mark =>
    obtain ⟨hvalue, hmark⟩ := Bool.and_eq_true_iff.mp h
    refine oneLine_append.mpr ⟨oneLine_hexByte (of_decide_eq_true hvalue), ?_⟩
    simp [OneLine, (bne_iff_ne.mp hmark).symm]
  | character c =>
    have hc : c ≠ '\n' := bne_iff_ne.mp h
    simp [text, OneLine, hc.symm]

/-- An operand is on one line when the names of data in it are. -/
theorem Operand.oneLine_text_iff {x : Operand} (h : x.isPlain) :
    OneLine x.text ↔ ∀ d ∈ x.data, OneLine d.text := by
  cases x with
  | word r => cases r <;> decide
  | byte r => cases r <;> decide
  | cell name =>
    rw [text, oneLine_append_right (by decide), oneLine_append_left (by decide)]
    simp [data, DataOperand.text]
  | number n => simp [text, data, n.oneLine_text h]
  | dataSegment => decide

theorem oneLine_binaryText {mnemonic left right : String} (h : OneLine mnemonic) :
    OneLine (binaryText mnemonic left right) ↔ OneLine left ∧ OneLine right := by
  rw [binaryText, oneLine_append, oneLine_append_right (by decide), oneLine_append,
    oneLine_append_right (by decide), and_iff_right h]

/-- Operands of an instruction are all that it repeats. -/
theorem oneLine_binaryText_iff {mnemonic : String} (h : OneLine mnemonic) {x y : Operand}
    (hplain : (x.isPlain && y.isPlain) = true) :
    OneLine (binaryText mnemonic x.text y.text) ↔
      ∀ d ∈ x.data ++ y.data, OneLine d.text := by
  obtain ⟨hx, hy⟩ := Bool.and_eq_true_iff.mp hplain
  rw [oneLine_binaryText h, x.oneLine_text_iff hx, y.oneLine_text_iff hy,
    List.forall_mem_append]

/-- So is an instruction. -/
theorem Instruction.oneLine_text_iff {i : Instruction} (h : i.isPlain) :
    OneLine i.text ↔ ∀ d ∈ i.data, OneLine d.text := by
  cases i with
  | mov x y | add x y | sub x y | xor x y | cmp x y =>
    exact oneLine_binaryText_iff (by decide) h
  | lea r label =>
    have hr : OneLine r.text := by cases r <;> decide
    rw [text, oneLine_binaryText (by decide)]
    simp [data, DataOperand.text, hr]
  | push r | pop r | mul r | div r | inc r | neg r => cases r <;> decide
  | jump l | loop l =>
    rw [text, oneLine_append_left (by decide)]
    simp [data, l.oneLine_text]
  | jumpIf c l =>
    have hc : OneLine c.mnemonic := by cases c <;> decide
    rw [text, oneLine_append_right l.oneLine_text, oneLine_append_left hc]
    simp [data, OneLine]
  | call procedure => cases procedure <;> decide
  | interrupt vector =>
    rw [text, oneLine_append_left (by decide)]
    simp [data, vector.oneLine_text h]
  | ret => decide

/-- So is a line of code. -/
theorem Code.oneLine_text_iff {c : Code} (h : c.isPlain) :
    OneLine c.text ↔ ∀ d ∈ c.data, OneLine d.text := by
  cases c with
  | label l =>
    rw [text, oneLine_append_right (by decide)]
    simp [data, l.oneLine_text]
  | instr i => exact i.oneLine_text_iff h

/-- A text is quoted without a newline of its own. -/
theorem oneLine_dataOperand (text : String) :
    OneLine (dataOperand text) ↔ OneLine text := by
  have hquote : ∀ c, '\n' ∈ (if c = '\'' then ['\'', '\''] else [c]) ↔ c = '\n' := by
    intro c
    by_cases hc : c = '\''
    · simp [hc]
    · simp [hc, eq_comm]
  simp [OneLine, dataOperand, quoteData, hquote]

/-- A line is broken exactly where a text that it repeats is. -/
theorem Line.oneLine_text_iff {line : Line} (h : line.isPlain) :
    OneLine line.text ↔ ∀ t ∈ line.texts, OneLine t := by
  cases line with
  | blank | assume | programEnd => decide
  | segmentStart segment | segmentEnd segment => cases segment <;> decide
  | procStart procedure | procEnd procedure => cases procedure <;> decide
  | word name =>
    rw [text, oneLine_append_right (by decide)]
    simp [texts]
  | message label name =>
    rw [text, oneLine_append, oneLine_append_right (by decide), oneLine_dataOperand,
      oneLine_append_right (by decide)]
    simp [texts]
  | literal label text =>
    rw [Line.text, oneLine_append_right (by decide), oneLine_append,
      oneLine_append_right (by decide), oneLine_dataOperand,
      oneLine_append_right (by decide)]
    simp [texts]
  | lineBreak label =>
    rw [text, oneLine_append_right (by decide)]
    simp [texts]
  | code c =>
    rw [text, c.oneLine_text_iff h]
    simp [texts, data]
  | procCode c =>
    -- Instructions of a procedure are indented, labels are not.
    have hc : OneLine (procCode c).text ↔ OneLine c.text := by
      cases c with
      | label l => exact Iff.rfl
      | instr i => exact oneLine_append_left (by decide)
    rw [hc, c.oneLine_text_iff h]
    simp [texts, data]

/-! ## Generated code -/

namespace Lowering

variable {ctx : Context}

theorem isPlain_materialize (flags : Option Comparison) (s : Session) :
    (materialize flags s).code.all Code.isPlain := by
  cases flags <;> rfl

theorem isPlain_branchUnless (target : CodeLabel) (flags : Option Comparison)
    (s : Session) :
    (branchUnless target flags s).code.all Code.isPlain := by
  cases flags <;> rfl

theorem isPlain_operatorInstrs (op : BinaryOp) :
    ((operatorInstrs op).map .instr).all Code.isPlain := by
  rcases op with a | c
  · cases a <;> rfl
  · rfl

theorem isPlain_storeWord (target message : String) (kind : ValueKind) (s : Session) :
    (storeWord ctx target message kind s).code.all Code.isPlain := by
  unfold storeWord
  split <;> rfl

/-- The numbers in generated code are written in decimal. -/
theorem Lowers.isPlain {level : Nat} {inChain : Bool} {tree : Node} {s s' : Session}
    {code : List Code} {warnings : List Warning} {flags : Option Comparison}
    (h : Lowers ctx level inChain tree s code warnings s' flags) :
    code.all Code.isPlain := by
  induction h with
  | number | string | boolean | identifier | unknown | assignLiteral => rfl
  | operator hlevel hl hr ihl ihr =>
    rw [List.map_append]
    simp only [List.all_append, List.all_cons, ihl, ihr, isPlain_materialize,
      isPlain_operatorInstrs, Bool.and_true, Bool.true_and]
    rfl
  | assignWord hlevel hmessage hvalue hnode ih =>
    simp only [List.all_append, ih, isPlain_materialize, isPlain_storeWord, Bool.and_self]
  | last hlevel hfirst ih => exact ih
  | chain hlevel hfirst hnext ih₁ ih₂ => simp only [List.all_append, ih₁, ih₂,
      Bool.and_self]
  | ifThen hlevel htag hcond hbody ihc ihb =>
    simp only [List.all_append, ihc, ihb, isPlain_branchUnless, Bool.true_and]
    rfl
  | ifElse hlevel htag hcond hbody halt ihc ihb iha =>
    simp only [List.all_append, List.all_cons, ihc, ihb, iha, isPlain_branchUnless,
      Bool.true_and]
    rfl
  | whileLoop hlevel htag hcond hbody ihc ihb =>
    simp only [List.all_append, List.all_cons, ihc, ihb, isPlain_branchUnless,
      Bool.true_and]
    rfl
  | forLoop hlevel htag hinit hcond hbody hstep ihi ihc ihb ihs =>
    simp only [List.all_append, List.all_cons, ihi, ihc, ihb, ihs, isPlain_branchUnless,
      Bool.true_and]
    rfl

end Lowering

/-- Operands are broken only where the names and labels are that they are written for. -/
theorem oneLine_of_resolves {labels : DataLabels} {refs : List Reference}
    {operands : List DataOperand} (h : List.Forall₂ labels.Resolves refs operands)
    (hnames : ∀ name, .cell name ∈ refs → OneLine name)
    (hlabels : ∀ item label, labels.label? item = some label → OneLine label) :
    ∀ d ∈ operands, OneLine d.text := by
  induction h with
  | nil => exact fun d hd => absurd hd List.not_mem_nil
  | @cons ref d refs operands hd _ ih =>
    have hrest := ih fun name hname => hnames name (List.mem_cons_of_mem _ hname)
    refine List.forall_mem_cons.mpr ⟨?_, hrest⟩
    cases hd with
    | cell => exact hnames _ List.mem_cons_self
    | item hlabel => exact hlabels _ _ hlabel

/-! ## Labels -/

namespace DataLabels

/-- A suffix does not break a name over two lines. -/
theorem Variant.oneLine_iff {base label : String} (h : Variant base label) :
    OneLine label ↔ OneLine base := by
  cases h with
  | base => exact Iff.rfl
  | suffixed k =>
    rw [DataLabels.suffixed, oneLine_append_right (oneLine_nat k),
      oneLine_append_right (by decide)]

variable {identifiers literals : Std.TreeSet String} {label : String}

/-- The label of a message is on one line when the variable's name is. -/
theorem oneLine_message? {name : String}
    (h : (assign identifiers literals).message? name = some label) :
    OneLine label ↔ OneLine name := by
  obtain ⟨-, hvariant⟩ := message?_assign h
  rw [hvariant.oneLine_iff, messageBase, oneLine_append_left (by decide)]

/-- A newline in a literal becomes an underscore in its label. -/
theorem oneLine_string? {text : String}
    (h : (assign identifiers literals).string? text = some label) : OneLine label := by
  obtain ⟨-, hvariant⟩ := string?_assign h
  rw [hvariant.oneLine_iff]
  intro hmem
  exact absurd (isLabelChar_stringBase _ hmem) (by simp [IsLabelChar, Char.isAlphanum])

theorem oneLine_newLine : OneLine (assign identifiers literals).newLine :=
  (variant_fresh identifiers "new_line").oneLine_iff.mpr (by decide)

/-- Where the names are not broken, no label is. -/
theorem oneLine_label? {item : DataItem} (hnames : ∀ name ∈ identifiers, OneLine name)
    (h : (assign identifiers literals).label? item = some label) : OneLine label := by
  cases item with
  | message name =>
    have hname : name ∈ identifiers :=
      (isSome_message?_assign identifiers literals name).mp (Option.isSome_of_eq_some h)
    exact (oneLine_message? h).mpr (hnames name hname)
  | literal text => exact oneLine_string? h
  | lineBreak =>
    obtain rfl := Option.some.inj h
    exact oneLine_newLine

end DataLabels

/-! ## Whole listings -/

namespace StaticData

/-- The lines of the data segment are broken exactly where a name or a literal is. -/
theorem oneLine_segment_iff (data : StaticData) :
    (∀ line ∈ data.segment data.labels, OneLine line.text) ↔
      (∀ name ∈ data.identifiers, OneLine name) ∧
      ∀ text ∈ data.literals, OneLine text := by
  constructor
  · intro hlines
    constructor
    · intro name hname
      have hword := (Line.oneLine_text_iff rfl).mp (hlines _ (word_mem_segment hname))
      exact hword name List.mem_cons_self
    · intro text htext
      obtain ⟨label, hlabel⟩ := Option.isSome_iff_exists.mp
        ((isSome_label?_labels data (.literal text)).mpr htext)
      have hliteral := (Line.oneLine_text_iff rfl).mp (hlines _ (line_mem_segment hlabel))
      exact hliteral text (List.mem_cons_of_mem _ List.mem_cons_self)
  · rintro ⟨hnames, hliterals⟩ line hline
    have hone {item : DataItem} {label : String}
        (h : data.labels.label? item = some label) : OneLine label :=
      DataLabels.oneLine_label? hnames h
    rcases mem_segment_iff.mp hline with
      rfl | ⟨name, hname, rfl | ⟨label, hlabel, rfl⟩⟩ |
        ⟨text, label, hlabel, rfl⟩ | rfl | rfl
    · decide
    · refine (Line.oneLine_text_iff rfl).mpr ?_
      simpa [Line.texts] using hnames name hname
    · have hmessage : data.labels.label? (.message name) = some label := hlabel
      refine (Line.oneLine_text_iff rfl).mpr ?_
      simpa [Line.texts] using ⟨hone hmessage, hnames name hname⟩
    · have hliteral : data.labels.label? (.literal text) = some label := hlabel
      have htext : text ∈ data.literals :=
        (isSome_label?_labels data (.literal text)).mp (by rw [hliteral]; rfl)
      refine (Line.oneLine_text_iff rfl).mpr ?_
      simpa [Line.texts] using ⟨hone hliteral, hliterals text htext⟩
    · have hbreak : data.labels.label? .lineBreak = some data.labels.newLine := rfl
      refine (Line.oneLine_text_iff rfl).mpr ?_
      exact List.forall_mem_singleton.mpr (hone hbreak)
    · decide

end StaticData

namespace Compilation

/-- Where no name is broken, no line of the code is. -/
theorem oneLine_lowered {settings : Settings} {tree : Node}
    (hresult : (lowered settings tree).result = .ok ())
    (hnames : ∀ name ∈ tree.names, OneLine name) :
    ∀ c ∈ (lowered settings tree).code, OneLine c.text := by
  obtain ⟨flags, hnode⟩ := Lowering.node_eq_of_program_ok hresult
  have hplain := List.all_eq_true.mp (Lowering.lowers_of_node_eq hnode).isPlain
  have htraces : Traces (context settings tree).labels tree.references
      (Lowering.program (context settings tree) (some tree)) :=
    (traces_node _ tree 0 false).last fun _ => .quiet fun _ => rfl
  obtain ⟨done, rest, hrefs, hdone, -⟩ := htraces .initial
  have hoperands := oneLine_of_resolves hdone
    (fun name hname =>
      hnames name (tree.mentions_names _ hrefs name (List.mem_append_left _ hname)))
    (fun item label => DataLabels.oneLine_label? fun name hname =>
      hnames name ((StaticData.mem_identifiers_collect tree name).mp hname))
  intro c hc
  exact (c.oneLine_text_iff (hplain c hc)).mpr fun d hd =>
    hoperands d (List.mem_flatMap.mpr ⟨c, hc, hd⟩)

/-- The lines that are the same in every listing are not broken. -/
theorem oneLine_fixed : ∀ line ∈ .blank :: prologue ++ epilogue, OneLine line.text := by
  have hplain : (.blank :: prologue ++ epilogue).all Line.isPlain := rfl
  have htexts : (.blank :: prologue ++ epilogue).flatMap Line.texts = [] := rfl
  intro line hline
  refine (Line.oneLine_text_iff (List.all_eq_true.mp hplain line hline)).mpr fun t ht =>
    ?_
  exact absurd (List.mem_flatMap.mpr ⟨line, hline, ht⟩) (htexts ▸ List.not_mem_nil)

/-- A finished listing has a broken line exactly when its data segment has one. -/
theorem oneLine_lines_iff {settings : Settings} {tree : Node} {compiled : Compiled}
    (h : compile settings tree = .ok compiled) :
    (∀ line ∈ compiled.lines, OneLine line.text) ↔
      (∀ name ∈ tree.names, OneLine name) ∧ ∀ text ∈ tree.literals, OneLine text := by
  have hnone := exists_compile_ok_iff.mp ⟨compiled, h⟩
  have hresult : (lowered settings tree).result = .ok () := by
    rw [result_lowered, hnone]
    rfl
  rw [compile_of_none hnone] at h
  obtain rfl := Except.ok.inj h
  have hsegment := (StaticData.collect tree).oneLine_segment_iff
  simp only [StaticData.mem_identifiers_collect,
    StaticData.mem_literals_collect] at hsegment
  rw [← hsegment]
  have hmem : ∀ line,
      line ∈ opening (StaticData.collect tree) (context settings tree).labels ++
          (lowered settings tree).code.map .code ++ epilogue ↔
        line ∈ (StaticData.collect tree).segment (StaticData.collect tree).labels ∨
          line ∈ .blank :: prologue ++ epilogue ∨
          line ∈ (lowered settings tree).code.map .code := by
    intro line
    simp only [opening, context, List.mem_append, or_assoc, or_congr_right or_comm]
  constructor
  · intro hlines line hline
    exact hlines line ((hmem line).mpr (.inl hline))
  · intro hlines line hline
    rcases (hmem line).mp hline with hdata | hfixed | hcode
    · exact hlines line hdata
    · exact oneLine_fixed line hfixed
    · obtain ⟨c, hc, rfl⟩ := List.mem_map.mp hcode
      exact oneLine_lowered hresult (hsegment.mp hlines).1 c hc

/-- **The lines of a listing.** The lines of a program that is compiled are its data
segment, a blank line, the prologue, the code and the epilogue. The text of the listing,
split at newlines, gives these lines again and an empty piece at the end, exactly when no
variable of the program and no string literal in it has a newline. -/
theorem splitOn_listing_iff {settings : Settings} {tree : Node} {compiled : Compiled}
    (h : compile settings tree = .ok compiled) :
    (∃ code : List Code, compiled.lines =
      compiled.data.segment compiled.data.labels ++
        .blank :: prologue ++ code.map .code ++ epilogue) ∧
    (compiled.listing.toList.splitOn '\n' =
        compiled.lines.map (fun line => line.text.toList) ++ [[]] ↔
      (∀ name ∈ tree.names, '\n' ∉ name.toList) ∧
        ∀ text ∈ tree.literals, '\n' ∉ text.toList) := by
  constructor
  · obtain ⟨code, _, _, -, hlines, -, -⟩ := exists_lowers_of_compile h
    exact ⟨code, hlines⟩
  · exact (Line.splitOn_render_eq_iff compiled.lines).trans (oneLine_lines_iff h)

/-- A carriage return does not break a line, and neither do quotes and dollar signs. -/
theorem splitOn_listing_iff_return :
    ∃ compiled, compile {} (.assignment "x" (.string "a\r'$")) = .ok compiled ∧
      compiled.listing.toList.splitOn '\n' =
        compiled.lines.map (fun line => line.text.toList) ++ [[]] := by
  have hnone : Node.firstFault? (.assignment "x" (.string "a\r'$"))
      ({} : Settings).maxDepth = none := rfl
  have hcompile := compile_of_none hnone
  exact ⟨_, hcompile, (splitOn_listing_iff hcompile).2.mpr (by decide)⟩

/-- A newline in a literal ends the line of its declaration inside the operand. -/
theorem splitOn_listing_newline :
    ∃ compiled, compile {} (.string "a\nb") = .ok compiled ∧
      compiled.listing.toList.splitOn '\n' ≠
        compiled.lines.map (fun line => line.text.toList) ++ [[]] := by
  have hnone : Node.firstFault? (.string "a\nb") ({} : Settings).maxDepth = none := rfl
  have hcompile := compile_of_none hnone
  refine ⟨_, hcompile, fun hsplit => ?_⟩
  have hlines := (Line.splitOn_render_eq_iff _).mp hsplit
  exact absurd (((oneLine_lines_iff hcompile).mp hlines).2 "a\nb" (by decide)) (by decide)

end Compilation

end RealMode

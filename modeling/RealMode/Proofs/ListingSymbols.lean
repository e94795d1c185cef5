import RealMode.Proofs.CodeLabels
import RealMode.Proofs.DataLabels
import RealMode.Proofs.DataReferences

/-!
# Symbols of a listing

A listing defines symbols of two sorts. The data segment defines the variables and the
items, under labels that avoid one another and all names. The code segment defines
numbered labels, the entry and the end of the program, and the print procedures with the
places inside them; these are fixed texts, chosen without a look at the data.

Within each sort nothing is defined twice. Between the two, labels of items and symbols of
code differ in their first letter (`Begins`), so that only the names of variables are
left: `nodup_definedSymbols_iff` says that a finished listing is free of double
definitions exactly when no variable is named like a symbol of the code, and
`not_nodup_definedSymbols_else` is a program where one is.
-/

namespace RealMode

/-! ## Definitions of symbols -/

/-- The symbol that a line defines. -/
def Line.symbol? : Line → Option String
  | .word name => some name
  | .message label _ | .literal label _ | .lineBreak label => some label
  | .code c | .procCode c => c.label?.map CodeLabel.text
  | .procStart procedure => some procedure.name
  | _ => none

/-- The symbols that lines define, in order. -/
def definedSymbols (lines : List Line) : List String :=
  lines.filterMap Line.symbol?

@[simp] theorem definedSymbols_append (lines₁ lines₂ : List Line) :
    definedSymbols (lines₁ ++ lines₂) = definedSymbols lines₁ ++ definedSymbols lines₂ :=
  List.filterMap_append

theorem definedSymbols_map_code (code : List Code) :
    definedSymbols (code.map .code) = (definedLabels code).map CodeLabel.text := by
  rw [definedSymbols, definedLabels, List.filterMap_map, List.map_filterMap]
  rfl

/-- What a listing defines besides data and numbered labels: entry and end of the program,
the print procedures and the places inside them. -/
def runtimeSymbols : List String :=
  ["START", "print_string", "PrintNumber", "PrintNumber_zero", "PrintNumber_digits",
    "PrintNumber_divide", "PrintNumber_print", "PrintNumber_newline", "ProgramEnd"]

/-- The symbols of the code of a program: the labels of its constructs, numbered from
zero, and what every listing defines. -/
def Node.codeSymbols (tree : Node) : List String :=
  (tree.labelsFrom {}).map CodeLabel.text ++ runtimeSymbols

/-! ## First letters -/

/-- The text begins with one of the letters. -/
def Begins (letters : List Char) (text : String) : Prop :=
  ∃ c ∈ letters, text.toList.head? = some c

theorem Begins.ne {letters letters' : List Char} {x y : String} (hx : Begins letters x)
    (hy : Begins letters' y) (hletters : ∀ c ∈ letters, c ∉ letters') : x ≠ y := by
  rintro rfl
  obtain ⟨c, hc, hhead⟩ := hx
  obtain ⟨c', hc', hhead'⟩ := hy
  obtain rfl := Option.some.inj (hhead.symm.trans hhead')
  exact hletters c hc hc'

theorem Begins.extend {letters : List Char} {x y : String} (hx : Begins letters x)
    (h : x.toList <+: y.toList) : Begins letters y := by
  obtain ⟨c, hc, hhead⟩ := hx
  obtain ⟨rest, hrest⟩ := h
  exact ⟨c, hc, by rw [← hrest, List.head?_append, hhead]; rfl⟩

/-- The first letters of labels of items. -/
def itemLetters : List Char :=
  ['n', 'm', 's']

/-- The first letters of numbered labels. -/
def constructLetters : List Char :=
  ['e', 'w', 'f', 'b']

/-- The first letters of the other symbols of code. -/
def runtimeLetters : List Char :=
  ['S', 'p', 'P']

theorem begins_label? {identifiers literals : Std.TreeSet String} {item : DataItem}
    {label : String}
    (h : (DataLabels.assign identifiers literals).label? item = some label) :
    Begins itemLetters label := by
  cases item with
  | message name =>
    obtain ⟨-, hvariant⟩ := DataLabels.message?_assign h
    refine .extend ⟨'m', by decide, ?_⟩ hvariant.base_isPrefix_label
    simp [DataLabels.messageBase]
  | literal text =>
    obtain ⟨-, hvariant⟩ := DataLabels.string?_assign h
    refine .extend ⟨'s', by decide, ?_⟩ hvariant.base_isPrefix_label
    simp [DataLabels.stringBase]
  | lineBreak =>
    obtain rfl := Option.some.inj h
    exact .extend ⟨'n', by decide, rfl⟩
      (DataLabels.variant_fresh identifiers "new_line").base_isPrefix_label

theorem begins_text_of_mem_labels {k : Construct} {tag : Nat} {l : CodeLabel}
    (h : l ∈ k.labels tag) : Begins constructLetters l.text := by
  cases k <;> simp only [Construct.labels, List.mem_cons, List.not_mem_nil, or_false] at h
  case conditional =>
    rcases h with rfl | rfl <;> exact ⟨'e', by decide, by simp [CodeLabel.text]⟩
  case whileLoop =>
    rcases h with rfl | rfl <;> exact ⟨'w', by decide, by simp [CodeLabel.text]⟩
  case forLoop =>
    rcases h with rfl | rfl <;> exact ⟨'f', by decide, by simp [CodeLabel.text]⟩
  case boolean =>
    obtain rfl := h
    exact ⟨'b', by decide, by simp [CodeLabel.text]⟩

theorem begins_of_mem_labelsFrom {tree : Node} {c : Counters} {l : CodeLabel}
    (h : l ∈ tree.labelsFrom c) : Begins constructLetters l.text := by
  obtain ⟨k, -, hk⟩ := List.mem_flatMap.mp h
  obtain ⟨tag, -, htag⟩ := List.mem_flatMap.mp hk
  exact begins_text_of_mem_labels htag

theorem begins_of_mem_runtimeSymbols {x : String} (h : x ∈ runtimeSymbols) :
    Begins runtimeLetters x := by
  have hall : runtimeSymbols.all fun x =>
      runtimeLetters.any fun c => decide (x.toList.head? = some c) := by decide
  obtain ⟨c, hc, hhead⟩ := List.any_eq_true.mp (List.all_eq_true.mp hall x h)
  exact ⟨c, hc, of_decide_eq_true hhead⟩

/-- A symbol of the code is not the label of an item. -/
theorem label?_not_mem_codeSymbols {identifiers literals : Std.TreeSet String}
    {item : DataItem} {label : String}
    (h : (DataLabels.assign identifiers literals).label? item = some label)
    (tree : Node) : label ∉ tree.codeSymbols := by
  intro hmem
  have hitem := begins_label? h
  rcases List.mem_append.mp hmem with hlabel | hruntime
  · obtain ⟨l, hl, rfl⟩ := List.mem_map.mp hlabel
    exact hitem.ne (begins_of_mem_labelsFrom hl)
      (by simp [itemLetters, constructLetters]) rfl
  · exact hitem.ne (begins_of_mem_runtimeSymbols hruntime)
      (by simp [itemLetters, runtimeLetters])
      rfl

/-! ## Symbols of the data -/

namespace StaticData

/-- What the data segment declares, in order. -/
def declared (data : StaticData) : List Reference :=
  data.identifiers.toList.flatMap (fun name => [.cell name, .item (.message name)]) ++
    data.literals.toList.map (fun text => .item (.literal text)) ++ [.item .lineBreak]

/-- The data has the variable or the item. -/
def Has (data : StaticData) : Reference → Prop
  | .cell name => name ∈ data.identifiers
  | .item item => data.HasItem item

theorem mem_declared {data : StaticData} {ref : Reference} :
    ref ∈ data.declared ↔ data.Has ref := by
  cases ref with
  | cell name => simp [declared, Has]
  | item item => cases item <;> simp [declared, Has, HasItem]

theorem nodup_toList (set : Std.TreeSet String) : set.toList.Nodup :=
  Std.TreeSet.distinct_toList.imp fun hne heq => hne (Std.compare_eq_iff_eq.mpr heq)

/-- Everything is declared once. -/
theorem nodup_declared (data : StaticData) : data.declared.Nodup := by
  have hnames : (data.identifiers.toList.flatMap fun name =>
      [Reference.cell name, .item (.message name)]).Nodup := by
    rw [List.nodup_flatMap]
    refine ⟨fun name _ => by simp, (nodup_toList data.identifiers).imp fun hne => ?_⟩
    simp [Function.onFun, hne, eq_comm]
  have hliterals : (data.literals.toList.map fun text =>
      Reference.item (.literal text)).Nodup :=
    (nodup_toList data.literals).map fun text text' h => by simpa using h
  rw [declared, List.nodup_append, List.nodup_append]
  refine ⟨⟨hnames, hliterals, ?_⟩, List.nodup_singleton _, ?_⟩
  · rintro ref hname _ hliteral rfl
    obtain ⟨text, -, rfl⟩ := List.mem_map.mp hliteral
    simp at hname
  · rintro ref href _ hbreak rfl
    obtain rfl := List.mem_singleton.mp hbreak
    simp at href

end StaticData

/-- The symbol by which something is declared. -/
def DataLabels.symbol (labels : DataLabels) : Reference → String
  | .cell name => name
  | .item item => (labels.label? item).getD ""

namespace StaticData

/-- The literals that have labels are those of the data, in order. -/
theorem keys_strings_labels (data : StaticData) :
    data.labels.strings.keys = data.literals.toList := by
  have hmem (text : String) : text ∈ data.labels.strings.keys ↔
      text ∈ data.literals.toList := by
    rw [Std.TreeMap.mem_keys, Std.TreeSet.mem_toList,
      ← Std.TreeMap.isSome_getElem?_iff_mem]
    exact isSome_label?_labels data (.literal text)
  refine List.Perm.eq_of_pairwise (fun a b _ _ hlt hgt => ?_) Std.TreeMap.ordered_keys
    Std.TreeSet.ordered_toList ((List.perm_ext_iff_of_nodup Std.TreeMap.nodup_keys
      (nodup_toList data.literals)).mpr hmem)
  cases Std.OrientedCmp.not_lt_of_lt hlt hgt

theorem definedSymbols_identifierLines {data : StaticData} {name : String}
    (h : name ∈ data.identifiers) :
    definedSymbols (identifierLines data.labels name) =
      [data.labels.symbol (.cell name), data.labels.symbol (.item (.message name))] := by
  obtain ⟨label, hlabel⟩ := Option.isSome_iff_exists.mp
    ((isSome_label?_labels data (.message name)).mpr h)
  have hmessage : data.labels.message? name = some label := hlabel
  rw [identifierLines, hmessage, DataLabels.symbol, DataLabels.symbol, hlabel]
  rfl

theorem definedSymbols_literalLines (data : StaticData) :
    definedSymbols (literalLines data.labels) =
      data.literals.toList.map fun text =>
        data.labels.symbol (.item (.literal text)) := by
  rw [← keys_strings_labels, ← Std.TreeMap.map_fst_toList_eq_keys, List.map_map,
    definedSymbols, literalLines, List.filterMap_map, ← List.filterMap_eq_map]
  refine List.filterMap_congr fun entry hentry => ?_
  have hlabel : data.labels.label? (.literal entry.1) = some entry.2 :=
    Std.TreeMap.mem_toList_iff_getElem?_eq_some.mp hentry
  show some entry.2 = some (data.labels.symbol (.item (.literal entry.1)))
  rw [DataLabels.symbol, hlabel]
  rfl

/-- The symbols of the data segment, in order. -/
theorem definedSymbols_segment (data : StaticData) :
    definedSymbols (data.segment data.labels) = data.declared.map data.labels.symbol := by
  have hnames :
      definedSymbols (data.identifiers.toList.flatMap (identifierLines data.labels)) =
        data.identifiers.toList.flatMap fun name =>
          [data.labels.symbol (.cell name),
            data.labels.symbol (.item (.message name))] := by
    rw [definedSymbols, List.filterMap_flatMap]
    exact List.flatMap_congr fun name hname =>
      definedSymbols_identifierLines (Std.TreeSet.mem_toList.mp hname)
  have hsegment : definedSymbols (data.segment data.labels) =
      definedSymbols (data.identifiers.toList.flatMap (identifierLines data.labels)) ++
        definedSymbols (literalLines data.labels) ++ [data.labels.newLine] := by
    rw [segment, definedSymbols, List.filterMap_cons_none rfl, List.filterMap_append,
      List.filterMap_append]
    rfl
  rw [hsegment, hnames, definedSymbols_literalLines, declared, List.map_append,
    List.map_append, List.map_flatMap, List.map_map]
  rfl

theorem symbol_injOn {data : StaticData} {ref ref' : Reference}
    (href : ref ∈ data.declared) (href' : ref' ∈ data.declared)
    (h : data.labels.symbol ref = data.labels.symbol ref') :
    ref = ref' := by
  -- An item that is declared has a label, and this label is its symbol.
  have hitem {item : DataItem} (hmem : .item item ∈ data.declared) :
      data.labels.label? item = some (data.labels.symbol (.item item)) := by
    have hsome := (isSome_label?_labels data item).mpr (mem_declared.mp hmem)
    rw [DataLabels.symbol]
    exact (Option.some_get hsome).symm.trans (by rw [Option.get_eq_getD])
  cases ref with
  | cell name =>
    cases ref' with
    | cell name' => exact congrArg Reference.cell h
    | item item' =>
      have hfree := DataLabels.label?_not_mem (hitem href')
      rw [← h] at hfree
      exact absurd (mem_declared.mp href) hfree
  | item item =>
    cases ref' with
    | cell name' =>
      have hfree := DataLabels.label?_not_mem (hitem href)
      rw [h] at hfree
      exact absurd (mem_declared.mp href') hfree
    | item item' =>
      exact congrArg Reference.item
        (DataLabels.label?_unique (hitem href) (h ▸ hitem href'))

/-- The data segment defines no symbol twice. -/
theorem nodup_definedSymbols_segment (data : StaticData) :
    (definedSymbols (data.segment data.labels)).Nodup := by
  rw [definedSymbols_segment]
  exact List.Nodup.map_on (fun _ href _ href' h => symbol_injOn href href' h)
    data.nodup_declared

/-- A symbol of the data that is also one of the code is the name of a variable. -/
theorem mem_definedSymbols_segment {data : StaticData} {x : String} {tree : Node}
    (hx : x ∈ tree.codeSymbols) :
    x ∈ definedSymbols (data.segment data.labels) ↔ x ∈ data.identifiers := by
  rw [definedSymbols_segment, List.mem_map]
  constructor
  · rintro ⟨ref, href, rfl⟩
    cases ref with
    | cell name => exact mem_declared.mp href
    | item item =>
      have hsome := (isSome_label?_labels data item).mpr (mem_declared.mp href)
      obtain ⟨label, hlabel⟩ := Option.isSome_iff_exists.mp hsome
      rw [DataLabels.symbol, hlabel] at hx
      exact absurd hx (label?_not_mem_codeSymbols hlabel tree)
  · intro hmem
    exact ⟨.cell x, mem_declared.mpr hmem, rfl⟩

end StaticData

/-! ## Symbols of the code -/

theorem Node.nodup_labelsFrom (tree : Node) (c : Counters) :
    (tree.labelsFrom c).Nodup := by
  let c' : Counters :=
    ⟨c.conditional + tree.tally .conditional, c.whileLoop + tree.tally .whileLoop,
      c.forLoop + tree.tally .forLoop, c.boolean + tree.tally .boolean⟩
  have hc' : ∀ k, c'.get k = c.get k + tree.tally k := by
    intro k
    cases k <;> rfl
  refine List.nodup_iff_count.mpr fun l => ?_
  rw [tree.count_labelsFrom hc' l]
  exact spent_le_one c c' l

/-- The code of a program defines no symbol twice. -/
theorem Node.nodup_codeSymbols (tree : Node) : tree.codeSymbols.Nodup := by
  rw [codeSymbols, List.nodup_append]
  refine ⟨?_, by decide, ?_⟩
  · exact (tree.nodup_labelsFrom {}).map fun l l' h => CodeLabel.text_injective h
  · intro x hx y hy
    obtain ⟨l, hl, rfl⟩ := List.mem_map.mp hx
    exact (begins_of_mem_labelsFrom hl).ne (begins_of_mem_runtimeSymbols hy)
      (by simp [constructLetters, runtimeLetters])

namespace Compilation

/-- The code of a finished listing defines the labels of the constructs, numbered from
zero. -/
theorem exists_lines_eq_perm {settings : Settings} {tree : Node} {compiled : Compiled}
    (h : compile settings tree = .ok compiled) :
    ∃ code, compiled.lines =
      opening (StaticData.collect tree) (StaticData.collect tree).labels ++
        code.map .code ++ epilogue ∧ (definedLabels code).Perm (tree.labelsFrom {}) := by
  have hnone := exists_compile_ok_iff.mp ⟨compiled, h⟩
  rw [compile_of_none hnone] at h
  obtain rfl := Except.ok.inj h
  have hresult : (lowered settings tree).result = .ok () := by
    rw [result_lowered, hnone]
    rfl
  obtain ⟨flags, hnode⟩ := Lowering.node_eq_of_program_ok hresult
  exact ⟨_, rfl, Lowering.perm_labelsFrom_of_node_eq hnode⟩

/-- The symbols of a finished listing: those of its data and those of its code. -/
theorem perm_definedSymbols {settings : Settings} {tree : Node} {compiled : Compiled}
    (h : compile settings tree = .ok compiled) :
    (definedSymbols compiled.lines).Perm
      (definedSymbols
        ((StaticData.collect tree).segment (StaticData.collect tree).labels) ++
        tree.codeSymbols) := by
  obtain ⟨code, hlines, hperm⟩ := exists_lines_eq_perm h
  have hlabels := hperm.map CodeLabel.text
  -- `START` comes before the numbered labels, the other fixed symbols after them.
  have hopening : definedSymbols (.blank :: prologue) = ["START"] := rfl
  have hepilogue : definedSymbols epilogue = runtimeSymbols.tail := rfl
  rw [hlines, opening, definedSymbols_append, definedSymbols_append,
    definedSymbols_append, hopening, hepilogue, definedSymbols_map_code,
    List.append_assoc, List.append_assoc]
  refine List.Perm.append_left _ ?_
  exact ((hlabels.append_right _).cons "START").trans List.perm_middle.symm

/-- A variable that is named like a symbol of the code is defined twice. -/
theorem not_nodup_definedSymbols {settings : Settings} {tree : Node} {compiled : Compiled}
    (h : compile settings tree = .ok compiled) (name : String) (hname : name ∈ tree.names)
    (hcode : name ∈ tree.codeSymbols) : ¬ (definedSymbols compiled.lines).Nodup := by
  rw [(perm_definedSymbols h).nodup_iff, List.nodup_append]
  rintro ⟨-, -, hdisjoint⟩
  have hidentifier := (StaticData.mem_identifiers_collect tree name).mpr hname
  have hdata := (StaticData.mem_definedSymbols_segment hcode).mpr hidentifier
  exact hdisjoint name hdata name hcode rfl

/-- **Symbols of a listing.** A finished listing defines no symbol twice exactly when none
of the variables of the program is named like a symbol of its code: a label of one of its
constructs, the entry or the end of the program, a print procedure or a place inside
one. -/
theorem nodup_definedSymbols_iff {settings : Settings} {tree : Node} {compiled : Compiled}
    (h : compile settings tree = .ok compiled) :
    (definedSymbols compiled.lines).Nodup ↔
      ∀ name ∈ tree.names, name ∉ tree.codeSymbols := by
  constructor
  · intro hnodup name hname hcode
    exact not_nodup_definedSymbols h name hname hcode hnodup
  · intro hfree
    rw [(perm_definedSymbols h).nodup_iff, List.nodup_append]
    refine ⟨(StaticData.collect tree).nodup_definedSymbols_segment,
      tree.nodup_codeSymbols, ?_⟩
    rintro x hdata _ hcode rfl
    have hidentifier := (StaticData.mem_definedSymbols_segment hcode).mp hdata
    exact hfree x ((StaticData.mem_identifiers_collect tree x).mp hidentifier) hcode

/-- One loop takes the number zero, so that a variable may be named like a label of a
second one. -/
theorem nodup_definedSymbols_whileLoop :
    ∃ compiled,
      compile {} (.whileLoop (.boolean true) (.assignment "while_end_1" (.number "1"))) =
        .ok compiled ∧
      (definedSymbols compiled.lines).Nodup := by
  have hnone : Node.firstFault? (.whileLoop (.boolean true)
      (.assignment "while_end_1" (.number "1"))) ({} : Settings).maxDepth = none := rfl
  have hcompile := compile_of_none hnone
  exact ⟨_, hcompile, (nodup_definedSymbols_iff hcompile).mpr (by decide)⟩

/-- A conditional defines the label `else_0`, and so does the variable that is assigned in
it. -/
theorem not_nodup_definedSymbols_else :
    ∃ compiled,
      compile {} (.ifThen (.boolean true) (.assignment "else_0" (.number "1"))) =
        .ok compiled ∧
      ¬ (definedSymbols compiled.lines).Nodup := by
  have hnone : Node.firstFault? (.ifThen (.boolean true)
      (.assignment "else_0" (.number "1"))) ({} : Settings).maxDepth = none := rfl
  have hcompile := compile_of_none hnone
  exact ⟨_, hcompile, not_nodup_definedSymbols hcompile "else_0" (by decide) (by decide)⟩

end Compilation

end RealMode

import Mathlib.Computability.Language
import Mathlib.Data.List.Forall2
import RealMode.Proofs.Outcome

/-!
# Data that code refers to

Code refers to data in two ways: by the name of a variable, and by the label of an item.
The order in which a program does so can be read off its tree.

- `Node.references` is the language of a tree: the sequences of references that its code
  may make.
- `Traces labels refs x` says that the operands in the code of `x` are a sequence of this
  language, each resolved by the labels. After a fault they are the beginning of one.
- `traces_node`: lowering a tree traces the language of the tree.
- `Compilation.references_declared`: in every listing, finished or not, the operands are
  declared in its own data segment, each as the thing it refers to.

A sequence of computations traces the product of their languages (`Traces.bind`), so that
a fault in the middle needs no case of its own in the induction on the tree.
-/

namespace RealMode

/-! ## Operands and references -/

/-- An operand that stands for data: the word of a variable, or the address of an item. -/
inductive DataOperand
  | cell (name : String)
  | address (label : String)
deriving DecidableEq, Repr

/-- What a data operand is written for. -/
inductive Reference
  | cell (name : String)
  | item (item : DataItem)
deriving DecidableEq, Repr

/-- The variable that an operand names. -/
def Operand.data : Operand → List DataOperand
  | .cell name => [.cell name]
  | _ => []

/-- The data operands of an instruction. -/
def Instruction.data : Instruction → List DataOperand
  | .mov target source | .add target source | .sub target source | .xor target source
  | .cmp target source => target.data ++ source.data
  | .lea _ label => [.address label]
  | _ => []

/-- The data operands of a piece of code. -/
def Code.data : Code → List DataOperand
  | .label _ => []
  | .instr i => i.data

/-- The data operands of a line. -/
def Line.data : Line → List DataOperand
  | .code c | .procCode c => c.data
  | _ => []

/-- The lines of the data segment that a listing begins with. -/
def Line.dataSegment (lines : List Line) : List Line :=
  lines.takeWhile (· ≠ .segmentEnd .data)

/-- The operand is declared among the lines, as what it is written for. -/
inductive Reference.Declared (lines : List Line) : Reference → DataOperand → Prop
  | cell {name : String} : .word name ∈ lines → Declared lines (.cell name) (.cell name)
  | item {item : DataItem} {label : String} :
      item.line label ∈ lines → Declared lines (.item item) (.address label)

/-- The operand is the one that the labels give for the reference. -/
inductive DataLabels.Resolves (labels : DataLabels) : Reference → DataOperand → Prop
  | cell {name : String} : Resolves labels (.cell name) (.cell name)
  | item {item : DataItem} {label : String} :
      labels.label? item = some label → Resolves labels (.item item) (.address label)

/-- What the code of an assignment refers to after its value is there. A variable that
holds a text is echoed with a line break; the procedure for numbers ends the line
itself. -/
def echoReferences (target : String) : Language Reference :=
  {[.cell target, .item (.message target), .cell target],
   [.cell target, .item (.message target), .cell target, .item .lineBreak]}

/-- What the code of a tree refers to, in order. -/
def Node.references : Node → Language Reference
  | .number _ | .boolean _ | .unknown => 1
  | .string text => {[.item (.literal text), .item .lineBreak]}
  | .identifier name => {[.cell name]}
  | .operator _ lhs rhs => lhs.references * rhs.references
  | .assignment target value =>
    match value with
    | .string text =>
      {[.item (.literal text), .cell target, .item (.message target),
        .item (.literal text), .item .lineBreak]}
    | value => value.references * echoReferences target
  | .last first => first.references
  | .chain first next => first.references * next.references
  | .ifThen cond body => cond.references * body.references
  | .ifElse _ cond body alternative =>
    cond.references * (body.references * alternative.references)
  | .whileLoop cond body => cond.references * body.references
  | .forLoop init cond step body =>
    init.references * (cond.references * (body.references * step.references))

theorem Node.references_assign_word {target : String} {value : Node}
    (hvalue : ∀ text, value ≠ .string text) :
    (Node.assignment target value).references =
      value.references * echoReferences target := by
  cases value with
  | string text => exact absurd rfl (hvalue text)
  | _ => rfl

/-! ## Computations that trace a language -/

/-- The operands in the code of the computation resolve a sequence of the language, or the
beginning of one if there is a fault. -/
def Traces {α : Type} (labels : DataLabels) (refs : Language Reference) (x : Lowering α) :
    Prop :=
  ∀ s, ∃ done rest, done ++ rest ∈ refs ∧
    List.Forall₂ labels.Resolves done ((x s).code.flatMap Code.data) ∧
    ∀ a, (x s).result = .ok a → rest = []

namespace Traces

open Lowering

variable {α β : Type} {labels : DataLabels} {refs refs₁ refs₂ : Language Reference}

/-- A sequence of computations traces the product of the languages. -/
theorem bind [Inhabited α] {x : Lowering α} {f : α → Lowering β}
    (hx : Traces labels refs₁ x) (hf : ∀ a, Traces labels refs₂ (f a)) :
    Traces labels (refs₁ * refs₂) (x >>= f) := by
  intro s
  obtain ⟨done₁, rest₁, hmem₁, hdone₁, hok₁⟩ := hx s
  rw [bind_apply]
  cases hresult : (x s).result with
  | error fault =>
    -- What would have followed is some sequence of the second language.
    obtain ⟨done₂, rest₂, hmem₂, -, -⟩ := hf default s
    refine ⟨done₁, rest₁ ++ (done₂ ++ rest₂), ?_, ?_, ?_⟩
    · rw [← List.append_assoc]
      exact Language.append_mem_mul hmem₁ hmem₂
    · rw [Step.andThen_of_error hresult]
      exact hdone₁
    · rw [Step.andThen_of_error hresult]
      exact nofun
  | ok a =>
    obtain rfl := hok₁ a hresult
    obtain ⟨done₂, rest₂, hmem₂, hdone₂, hok₂⟩ := hf a (x s).session
    refine ⟨done₁ ++ done₂, rest₂, ?_, ?_, ?_⟩
    · rw [List.append_assoc]
      exact Language.append_mem_mul (List.append_nil done₁ ▸ hmem₁) hmem₂
    · rw [Step.andThen_of_ok hresult, List.flatMap_append]
      exact List.rel_append hdone₁ hdone₂
    · rw [Step.andThen_of_ok hresult]
      exact hok₂

/-- A computation without references leaves the language to what follows. -/
theorem skip [Inhabited α] {x : Lowering α} {f : α → Lowering β} (hx : Traces labels 1 x)
    (hf : ∀ a, Traces labels refs (f a)) : Traces labels refs (x >>= f) := by
  rw [← one_mul refs]
  exact hx.bind hf

/-- What follows without references leaves the language to what came before. -/
theorem last [Inhabited α] {x : Lowering α} {f : α → Lowering β}
    (hx : Traces labels refs x) (hf : ∀ a, Traces labels 1 (f a)) :
    Traces labels refs (x >>= f) := by
  rw [← mul_one refs]
  exact hx.bind hf

/-- Code that is emitted traces any language with the sequence that its operands
resolve. -/
theorem emit {code : List Code} {done : List Reference} (hmem : done ∈ refs)
    (hdone : List.Forall₂ labels.Resolves done (code.flatMap Code.data)) :
    Traces labels refs (emit code) :=
  fun _ => ⟨done, [], by rwa [List.append_nil], hdone, fun _ _ => rfl⟩

/-- A computation that emits no data operand. -/
theorem quiet {x : Lowering α} (hx : ∀ s, (x s).code.flatMap Code.data = []) :
    Traces labels 1 x := by
  intro s
  refine ⟨[], [], Language.nil_mem_one, ?_, fun _ _ => rfl⟩
  rw [hx s]
  exact .nil

/-- What is required is there, or nothing is referred to. -/
theorem require {f : α → Lowering β} {missing : Fault} {o : Option α}
    {refs' : List Reference} (hmem : refs' ∈ refs)
    (hf : ∀ a, o = some a → Traces labels refs (f a)) :
    Traces labels refs (require missing o >>= f) := by
  cases o with
  | none => exact fun _ => ⟨[], refs', hmem, .nil, nofun⟩
  | some a => exact hf a rfl

theorem symbols {f : SymbolTable → Lowering β}
    (hf : ∀ table, Traces labels refs (f table)) :
    Traces labels refs (symbols >>= f) :=
  fun s => hf s.symbols s

theorem withoutFlags {x : Lowering (Option Comparison)} (hx : Traces labels refs x) :
    Traces labels refs (withoutFlags x) := by
  intro s
  obtain ⟨done, rest, hmem, hdone, hok⟩ := hx s
  refine ⟨done, rest, hmem, hdone, fun flags hflags => ?_⟩
  cases hresult : (x s).result with
  | error fault =>
    simp [Lowering.withoutFlags, hresult, Except.map] at hflags
  | ok a => exact hok a hresult

theorem enter (ctx : Context) (level : Nat) (kind : Kind) :
    Traces labels 1 (enter ctx level kind) := by
  refine quiet fun s => ?_
  unfold Lowering.enter
  split <;> rfl

theorem cellLevel (ctx : Context) (level : Nat) (inChain : Bool) :
    Traces labels 1 (cellLevel ctx level inChain) := by
  cases inChain with
  | true => exact quiet fun _ => rfl
  | false => exact (enter ctx level .sequence).skip fun _ => quiet fun _ => rfl

theorem materialize (flags : Option Comparison) :
    Traces labels 1 (materialize flags) := by
  cases flags <;> exact quiet fun _ => rfl

theorem branchUnless (target : CodeLabel) (flags : Option Comparison) :
    Traces labels 1 (branchUnless target flags) := by
  cases flags <;> exact quiet fun _ => rfl

theorem number (text : String) : Traces labels 1 (number text) := by
  refine require Language.nil_mem_one fun value _ => ?_
  split <;> exact quiet fun _ => rfl

theorem identifier (name : String) : Traces labels {[.cell name]} (identifier name) :=
  skip (quiet fun _ => rfl) fun _ => emit rfl (.cons .cell .nil)

theorem string (ctx : Context) (text : String) :
    Traces ctx.labels {[.item (.literal text), .item .lineBreak]} (string ctx text) :=
  require rfl fun _ hlabel => emit rfl (.cons (.item hlabel) (.cons (.item rfl) .nil))

theorem storeLiteral {ctx : Context} {target message : String} (text : String)
    (hmessage : ctx.labels.message? target = some message) :
    Traces ctx.labels
      {[.item (.literal text), .cell target, .item (.message target),
        .item (.literal text), .item .lineBreak]}
      (storeLiteral ctx target message text) :=
  require rfl fun _ hlabel => emit rfl (.cons (.item hlabel) (.cons .cell
    (.cons (.item hmessage) (.cons (.item hlabel) (.cons (.item rfl) .nil)))))

theorem storeWord {ctx : Context} {target message : String} (kind : ValueKind)
    (hmessage : ctx.labels.message? target = some message) :
    Traces ctx.labels (echoReferences target) (storeWord ctx target message kind) := by
  unfold Lowering.storeWord
  split
  · exact emit (.inr rfl)
      (.cons .cell (.cons (.item hmessage) (.cons .cell (.cons (.item rfl) .nil))))
  · exact emit (.inl rfl) (.cons .cell (.cons (.item hmessage) (.cons .cell .nil)))

end Traces

/-- Lowering a tree refers to the data that the tree is about. -/
theorem traces_node (ctx : Context) (tree : Node) :
    ∀ (level : Nat) (inChain : Bool),
      Traces ctx.labels tree.references (Lowering.node ctx level inChain tree) := by
  induction tree with
  | number text =>
    intro level inChain
    exact (Traces.enter _ _ _).skip fun _ => (Traces.number text).last fun _ =>
      .quiet fun _ => rfl
  | string text =>
    intro level inChain
    exact (Traces.enter _ _ _).skip fun _ =>
      (Traces.string ctx text).last fun _ => .quiet fun _ => rfl
  | boolean value =>
    intro level inChain
    exact (Traces.enter _ _ _).skip fun _ => .quiet fun _ => rfl
  | identifier name =>
    intro level inChain
    exact (Traces.enter _ _ _).skip fun _ =>
      (Traces.identifier name).last fun _ => .quiet fun _ => rfl
  | operator op lhs rhs ihl ihr =>
    intro level inChain
    refine (Traces.enter _ _ _).skip fun _ => (ihl _ _).bind fun flags₁ => ?_
    refine (Traces.materialize _).skip fun _ =>
      (Traces.quiet fun _ => rfl).skip fun _ => ?_
    refine (ihr _ _).last fun flags₂ => (Traces.materialize _).skip fun _ =>
      .quiet fun _ => ?_
    cases op with
    | arith arith => cases arith <;> rfl
    | compare => rfl
  | assignment target value ih =>
    intro level inChain
    rcases value.eq_string_or_ne with ⟨text, rfl⟩ | hne
    · rw [Lowering.node_assign_literal]
      refine (Traces.enter _ _ _).skip fun _ =>
        Traces.require rfl fun message hmessage => ?_
      exact (Traces.storeLiteral text hmessage).last fun _ => .quiet fun _ => rfl
    · rw [Lowering.node_assign_word hne, Node.references_assign_word hne]
      -- The message is asked for before the value is lowered. If it is missing, nothing
      -- has been referred to, and any sequence of the language will do.
      obtain ⟨done, rest, hmem, -, -⟩ := ih level inChain .initial
      refine (Traces.enter _ _ _).skip fun _ => .symbols fun table =>
        .require (Language.append_mem_mul hmem (.inl rfl)) fun message hmessage => ?_
      refine (ih _ _).bind fun flags => (Traces.materialize _).skip fun _ => ?_
      exact (Traces.storeWord _ hmessage).last fun _ => .quiet fun _ => rfl
  | last first ih =>
    intro level inChain
    exact (Traces.cellLevel _ _ _).skip fun _ => (ih _ _).withoutFlags
  | chain first next ih₁ ih₂ =>
    intro level inChain
    exact (Traces.cellLevel _ _ _).skip fun _ => (ih₁ _ _).bind fun _ =>
      (ih₂ _ _).withoutFlags
  | ifThen cond body ihc ihb =>
    intro level inChain
    refine (Traces.enter _ _ _).skip fun _ =>
      (Traces.quiet fun _ => rfl).skip fun tag => ?_
    refine (ihc _ _).bind fun flags => (Traces.branchUnless _ _).skip fun _ => ?_
    exact (ihb _ _).last fun _ => .quiet fun _ => rfl
  | ifElse branch cond body alternative ihc ihb iha =>
    intro level inChain
    refine (Traces.enter _ _ _).skip fun _ =>
      (Traces.quiet fun _ => rfl).skip fun tag => ?_
    refine (ihc _ _).bind fun flags => (Traces.branchUnless _ _).skip fun _ => ?_
    refine (ihb _ _).bind fun _ => (Traces.quiet fun _ => rfl).skip fun _ => ?_
    exact (iha _ _).last fun _ => .quiet fun _ => rfl
  | whileLoop cond body ihc ihb =>
    intro level inChain
    refine (Traces.enter _ _ _).skip fun _ =>
      (Traces.quiet fun _ => rfl).skip fun tag => ?_
    refine (Traces.quiet fun _ => rfl).skip fun _ => ?_
    refine (ihc _ _).bind fun flags => (Traces.branchUnless _ _).skip fun _ => ?_
    exact (ihb _ _).last fun _ => .quiet fun _ => rfl
  | forLoop init cond step body ihi ihc ihs ihb =>
    intro level inChain
    refine (Traces.enter _ _ _).skip fun _ =>
      (Traces.quiet fun _ => rfl).skip fun tag => ?_
    refine (ihi _ _).bind fun _ => (Traces.quiet fun _ => rfl).skip fun _ => ?_
    refine (ihc _ _).bind fun flags => (Traces.branchUnless _ _).skip fun _ => ?_
    exact (ihb _ _).bind fun _ => (ihs _ _).last fun _ => .quiet fun _ => rfl
  | unknown =>
    intro level inChain
    exact (Traces.enter _ _ _).skip fun _ => .quiet fun _ => rfl

/-! ## Declarations -/

theorem Node.mem_names_of_mem_children {tree child : Node} {name : String}
    (hchild : child ∈ tree.children) (hname : name ∈ child.names) :
    name ∈ tree.names := by
  rw [names, subtrees_eq_cons, List.filterMap_cons]
  have hbelow : name ∈ (tree.children.flatMap subtrees).filterMap name? := by
    rw [List.filterMap_flatMap]
    exact List.mem_flatMap.mpr ⟨child, hchild, hname⟩
  split
  · exact hbelow
  · exact List.mem_cons_of_mem _ hbelow

/-- The variables in the sequences of a language satisfy a predicate. -/
def Mentions (refs : Language Reference) (P : String → Prop) : Prop :=
  ∀ done ∈ refs, ∀ name, .cell name ∈ done → P name

theorem Mentions.mul {refs₁ refs₂ : Language Reference} {P : String → Prop}
    (h₁ : Mentions refs₁ P) (h₂ : Mentions refs₂ P) : Mentions (refs₁ * refs₂) P := by
  intro done hdone name hname
  obtain ⟨done₁, hdone₁, done₂, hdone₂, rfl⟩ := Language.mem_mul.mp hdone
  rcases List.mem_append.mp hname with hname | hname
  · exact h₁ done₁ hdone₁ name hname
  · exact h₂ done₂ hdone₂ name hname

theorem Mentions.one (P : String → Prop) : Mentions 1 P := by
  intro done hdone name hname
  obtain rfl := (Language.mem_one done).mp hdone
  exact nomatch hname

/-- The variables that a tree refers to are named in it. -/
theorem Node.mentions_names (tree : Node) :
    Mentions tree.references (· ∈ tree.names) := by
  -- Below a node the names are among its own.
  have up {tree child : Node} (hchild : child ∈ tree.children)
      (h : Mentions child.references (· ∈ child.names)) :
      Mentions child.references (· ∈ tree.names) :=
    fun done hdone name hname => mem_names_of_mem_children hchild
      (h done hdone name hname)
  have echo {target : String} {value : Node} :
      Mentions (echoReferences target) (· ∈ (Node.assignment target value).names) := by
    rintro done (rfl | rfl) name hname <;> simp_all [names, subtrees, name?]
  induction tree with
  | number | boolean | unknown => exact .one _
  | string text =>
    rintro done rfl name hname
    simp at hname
  | identifier x =>
    rintro done rfl name hname
    simpa [names, subtrees, name?] using hname
  | operator op lhs rhs ihl ihr =>
    exact (up List.mem_cons_self ihl).mul (up (.tail _ List.mem_cons_self) ihr)
  | assignment target value ih =>
    rcases value.eq_string_or_ne with ⟨text, rfl⟩ | hne
    · rintro done rfl name hname
      simpa [names, subtrees, name?] using hname
    · rw [references_assign_word hne]
      exact (up List.mem_cons_self ih).mul echo
  | last first ih =>
    show Mentions first.references _
    exact up List.mem_cons_self ih
  | chain first next ih₁ ih₂ =>
    exact (up List.mem_cons_self ih₁).mul (up (.tail _ List.mem_cons_self) ih₂)
  | ifThen cond body ihc ihb =>
    exact (up List.mem_cons_self ihc).mul (up (.tail _ List.mem_cons_self) ihb)
  | ifElse branch cond body alternative ihc ihb iha =>
    exact (up List.mem_cons_self ihc).mul ((up (.tail _ List.mem_cons_self) ihb).mul
      (up (.tail _ (.tail _ List.mem_cons_self)) iha))
  | whileLoop cond body ihc ihb =>
    exact (up List.mem_cons_self ihc).mul (up (.tail _ List.mem_cons_self) ihb)
  | forLoop init cond step body ihi ihc ihs ihb =>
    -- The body comes before the step in the code, and after it in the tree.
    exact (up List.mem_cons_self ihi).mul ((up (.tail _ List.mem_cons_self) ihc).mul
      ((up (.tail _ (.tail _ (.tail _ List.mem_cons_self))) ihb).mul
        (up (.tail _ (.tail _ List.mem_cons_self)) ihs)))

namespace Compilation

/-- The lines of a listing, finished or not. -/
def linesOf : Except CompileFailure Compiled → List Line
  | .ok compiled => compiled.lines
  | .error failure => failure.partialLines

/-- The end mark is the last line of the data segment and occurs nowhere before it. -/
theorem mem_dataSegment {data : StaticData} {labels : DataLabels} {line : Line}
    (hline : line ∈ data.segment labels) (hend : line ≠ .segmentEnd .data)
    (rest : List Line) :
    line ∈ Line.dataSegment (data.segment labels ++ rest) := by
  obtain ⟨front, hsegment, hfront⟩ : ∃ front,
      data.segment labels = front ++ [.segmentEnd .data] ∧ .segmentEnd .data ∉ front := by
    refine ⟨.segmentStart .data ::
      (data.identifiers.toList.flatMap (StaticData.identifierLines labels) ++
        StaticData.literalLines labels ++
        [.lineBreak labels.newLine]), ?_, ?_⟩
    · simp [StaticData.segment]
    · simp [StaticData.mem_identifierLines_iff, StaticData.mem_literalLines_iff]
  have hmem : line ∈ front := by
    rw [hsegment] at hline
    exact (List.mem_append.mp hline).resolve_right fun h => hend (List.mem_singleton.mp h)
  rw [hsegment, List.append_assoc, Line.dataSegment, List.takeWhile_append_of_pos]
  · exact List.mem_append_left _ hmem
  · intro l hl
    exact decide_eq_true (ne_of_mem_of_not_mem hl hfront)

/-- What the labels of a program give for a reference of it is declared. -/
theorem declared_of_resolves {tree : Node} {refs : List Reference} {ref : Reference}
    {operand : DataOperand} (hrefs : refs ∈ tree.references) (href : ref ∈ refs)
    (h : (StaticData.collect tree).labels.Resolves ref operand) (rest : List Line) :
    ref.Declared (Line.dataSegment
      ((StaticData.collect tree).segment (StaticData.collect tree).labels ++ rest))
      operand := by
  cases h with
  | cell =>
    have hname := (StaticData.mem_identifiers_collect tree _).mpr
      (tree.mentions_names refs hrefs _ href)
    exact .cell (mem_dataSegment (StaticData.word_mem_segment hname) nofun rest)
  | @item item label hlabel =>
    refine .item (mem_dataSegment (StaticData.line_mem_segment hlabel) ?_ rest)
    cases item <;> nofun

/-- A program stops at none of the faults about declarations. -/
theorem firstFault?_ne_undeclared {tree : Node} {maxDepth : Nat} {fault : Fault}
    (h : tree.firstFault? maxDepth = some fault) :
    (∀ text, fault ≠ .undeclaredString text) ∧
    ∀ name, fault ≠ .undeclaredVariable name := by
  obtain ⟨v, -, hv⟩ := List.exists_of_findSome?_eq_some h
  rcases v.fault?_eq_some hv with rfl | ⟨text, rfl⟩
  · simp
  · simp

/-- The lines of a listing, finished or not: what comes before the code, the code of the
program and possibly the epilogue. -/
theorem linesOf_compile (settings : Settings) (tree : Node) :
    ∃ closing, (closing = [] ∨ closing = epilogue) ∧
      linesOf (compile settings tree) =
        opening (StaticData.collect tree) (StaticData.collect tree).labels ++
          ((lowered settings tree).code.map .code ++ closing) := by
  cases h : tree.firstFault? settings.maxDepth with
  | none =>
    refine ⟨epilogue, .inr rfl, ?_⟩
    rw [compile_of_none h, ← List.append_assoc]
    rfl
  | some fault =>
    refine ⟨[], .inl rfl, ?_⟩
    rw [compile_of_some h, List.append_nil]
    rfl

/-- Declarations have no operands that stand for other data. -/
theorem data_eq_nil_of_mem_segment {data : StaticData} {labels : DataLabels} {line : Line}
    (h : line ∈ data.segment labels) : line.data = [] := by
  rcases StaticData.mem_segment_iff.mp h with
    rfl | ⟨name, -, rfl | ⟨label, -, rfl⟩⟩ | ⟨literal, label, -, rfl⟩ | rfl | rfl
  · rfl
  · rfl
  · rfl
  · rfl
  · rfl
  · rfl

/-- Only the code of the program has data operands. -/
theorem data_linesOf (settings : Settings) (tree : Node) :
    (linesOf (compile settings tree)).flatMap Line.data =
      (lowered settings tree).code.flatMap Code.data := by
  obtain ⟨closing, hclosing, hlines⟩ := linesOf_compile settings tree
  have hopening : (opening (StaticData.collect tree)
      (StaticData.collect tree).labels).flatMap Line.data = [] := by
    rw [opening, List.flatMap_append,
      List.flatMap_eq_nil_iff.mpr fun _ => data_eq_nil_of_mem_segment]
    rfl
  have hend : closing.flatMap Line.data = [] := by
    rcases hclosing with rfl | rfl <;> rfl
  rw [hlines, List.flatMap_append, List.flatMap_append, hopening, hend, List.flatMap_map,
    List.append_nil]
  rfl

/-- **Data references are closed.** For every program and all settings, the data operands
of the listing, in order, are written for the references of the program, all of them if
the listing is finished; and each is declared in the data segment of this listing, a
variable by its word and an item by its own line. No program stops because something is
not declared. -/
theorem references_declared (settings : Settings) (tree : Node) :
    (∃ done rest, done ++ rest ∈ tree.references ∧
      (∀ compiled, compile settings tree = .ok compiled → rest = []) ∧
      List.Forall₂
        (Reference.Declared (Line.dataSegment (linesOf (compile settings tree)))) done
        ((linesOf (compile settings tree)).flatMap Line.data)) ∧
    ∀ failure, compile settings tree = .error failure →
      (∀ text, failure.fault ≠ .undeclaredString text) ∧
        ∀ name, failure.fault ≠ .undeclaredVariable name := by
  constructor
  · have htraces : Traces (context settings tree).labels tree.references
        (Lowering.program (context settings tree) (some tree)) :=
      (traces_node _ tree 0 false).last fun _ => .quiet fun _ => rfl
    obtain ⟨done, rest, hrefs, hdone, hok⟩ := htraces .initial
    refine ⟨done, rest, hrefs, ?_, ?_⟩
    · intro compiled hcompiled
      refine hok () ?_
      have hnone := exists_compile_ok_iff.mp ⟨compiled, hcompiled⟩
      show (lowered settings tree).result = _
      rw [result_lowered, hnone]
      rfl
    · obtain ⟨closing, -, hlines⟩ := linesOf_compile settings tree
      rw [data_linesOf, hlines, opening, List.append_assoc]
      have hmem : ∀ ref ∈ done, ref ∈ done ++ rest :=
        fun ref href => List.mem_append_left _ href
      have hboth := (List.forall₂_and_left done _).mpr ⟨hmem, hdone⟩
      exact hboth.imp fun ref operand h => declared_of_resolves hrefs h.1 h.2 _
  · intro failure hfailure
    cases h : tree.firstFault? settings.maxDepth with
    | none =>
      rw [compile_of_none h] at hfailure
      exact nomatch hfailure
    | some fault =>
      rw [compile_of_some h] at hfailure
      obtain rfl := Except.error.inj hfailure
      exact firstFault?_ne_undeclared h

/-- A text is assigned, and the variable is copied: the listing is finished, so that the
operands are written for a whole sequence of references. -/
theorem references_declared_copy :
    ∃ compiled, compile {} (.chain (.assignment "x" (.string "hi"))
        (.last (.assignment "y" (.identifier "x")))) = .ok compiled ∧
      ∃ refs ∈ (Node.chain (.assignment "x" (.string "hi"))
          (.last (.assignment "y" (.identifier "x")))).references,
        List.Forall₂ (Reference.Declared (Line.dataSegment compiled.lines)) refs
          (compiled.lines.flatMap Line.data) := by
  have hnone : Node.firstFault? (.chain (.assignment "x" (.string "hi"))
      (.last (.assignment "y" (.identifier "x")))) ({} : Settings).maxDepth = none := rfl
  have hcompile := compile_of_none hnone
  obtain ⟨⟨done, rest, hrefs, hok, hdeclared⟩, -⟩ := references_declared {} _
  obtain rfl := hok _ hcompile
  rw [hcompile] at hdeclared
  exact ⟨_, hcompile, done, List.append_nil done ▸ hrefs, hdeclared⟩

end Compilation

end RealMode

import RealMode.Proofs.CellContents
import RealMode.Proofs.Evaluation
import RealMode.Proofs.FinalSymbols

/-!
# How assignments are echoed

An assignment stores a word and prints it, by `print_string` if its value is of kind
string and by `PrintNumber` otherwise. For lists of assignments of literals and variables
it is said here which routine is called for each word that is stored, and what the word
is.

- `echoes` reads off the code how each word that is stored is echoed, and `echoesAlong`
  says how the assignments of a walk are to be echoed by a given rule.
- `Emits` relates events to instructions. It holds of the code of every such list
  (`Lowers.emits`); what is echoed (`Emits.echoes_eq`) and what the cells hold
  (`Emits.exists_exec`) follow by induction on it.
- `Compilation.echoes_of_compile` is the statement about programs; `changedCopy` is a
  program in which a number is echoed as a text.
-/

namespace RealMode

open Lowering

/-! ## Code of lists of assignments -/

/-- How a word that was stored is echoed: the instruction that loads it again and the
routine. -/
structure Echo where
  target : String
  load : Instruction
  routine : Procedure
deriving DecidableEq

/-- The echoes of code: what comes after a word is stored and the message of its variable
is printed. -/
def echoes : List Code → List Echo
  | .instr (.mov (.cell target) _) :: .instr (.lea .dx _) :: .instr
      (.call .printString) ::
      .instr load :: .instr (.call routine) :: rest =>
        ⟨target, load, routine⟩ :: echoes rest
  | _ :: rest => echoes rest
  | [] => []

/-- The echo of a cell. -/
def Echo.ofCell (target : String) : Procedure → Echo
  | .printString => ⟨target, .mov dx (.cell target), .printString⟩
  | .printNumber => ⟨target, .mov ax (.cell target), .printNumber⟩

/-- The instructions that store the word in `AX` and echo it. -/
def Echo.instrs (newLine message : String) (echo : Echo) : List Instruction :=
  .mov (.cell echo.target) ax :: (printItem message ++ [echo.load, .call echo.routine] ++
    match echo.routine with
    | .printString => printItem newLine
    | .printNumber => [])

/-- The echo of a word that is stored is read back from its instructions. -/
theorem echoes_instrs (echo : Echo) (newLine message : String) (rest : List Code) :
    echoes ((echo.instrs newLine message).map .instr ++ rest) = echo :: echoes rest := by
  obtain ⟨target, load, routine⟩ := echo
  cases routine <;> rfl

/-- The instruction that loads a literal or a variable. -/
def Node.load? (labels : DataLabels) : Node → Option Instruction
  | .number text => (Literal.value? text).map fun value => .mov ax (imm value)
  | .boolean value => some (.mov ax (imm (if value then 1 else 0)))
  | .string text => (labels.string? text).map (.lea .ax)
  | .identifier name => some (.mov ax (.cell name))
  | _ => none

/-- Nothing is stored when a value is loaded. -/
theorem echoes_load {labels : DataLabels} {value : Node} {load : Instruction}
    (h : value.load? labels = some load) (rest : List Code) :
    echoes (.instr load :: rest) = echoes rest := by
  cases value with
  | number text =>
    obtain ⟨number, -, rfl⟩ := Option.map_eq_some_iff.mp h
    rfl
  | boolean value =>
    obtain rfl := Option.some.inj h
    rfl
  | string text =>
    obtain ⟨label, -, rfl⟩ := Option.map_eq_some_iff.mp h
    rfl
  | identifier name =>
    obtain rfl := Option.some.inj h
    rfl
  | _ => simp [Node.load?] at h

/-- How the assignment of a value is echoed: a literal by its label, other values by the
routine. -/
def Node.echo? (labels : DataLabels) (target : String) (routine : Procedure) :
    Node → Option Echo
  | .string text =>
    (labels.string? text).map fun label => ⟨target, .lea .dx label, .printString⟩
  | _ => some (.ofCell target routine)

theorem Node.echo?_of_ne_string {value : Node} (hvalue : ∀ text, value ≠ .string text)
    (labels : DataLabels) (target : String) (routine : Procedure) :
    value.echo? labels target routine = some (.ofCell target routine) := by
  cases value with
  | string text => exact absurd rfl (hvalue text)
  | _ => rfl

/-- How an event is echoed, if it completes an assignment. -/
def Event.echo? (labels : DataLabels) (rule : Node → Procedure) : Event → Option Echo
  | .completed target value => value.echo? labels target (rule value)
  | _ => none

/-- How the assignments of a walk after the given events are echoed by a rule. -/
def echoesAlong (labels : DataLabels) (rule : List Event → Node → Procedure) :
    List Event → List Event → List Echo
  | _, [] => []
  | earlier, event :: rest =>
    (event.echo? labels (rule earlier)).toList ++ echoesAlong labels rule
      (event :: earlier) rest

/-- Rules that agree on the assignments of a walk have the same echoes. -/
theorem echoesAlong_congr {labels : DataLabels}
    {rule rule' : List Event → Node → Procedure} {events earlier : List Event}
    (h : ∀ before target value after,
      events = before ++ .completed target value :: after →
      rule (before.reverse ++ earlier) value = rule' (before.reverse ++ earlier) value) :
    echoesAlong labels rule earlier events = echoesAlong labels rule' earlier events := by
  induction events generalizing earlier with
  | nil => rfl
  | cons event rest ih =>
    have hevent : event.echo? labels (rule earlier) =
        event.echo? labels (rule' earlier) := by
      cases event with
      | completed target value =>
        rw [Event.echo?, Event.echo?]
        exact congrArg (value.echo? labels target) (h [] target value rest rfl)
      | number | read | unknown => rfl
    rw [echoesAlong, echoesAlong, hevent, ih]
    intro before target value after hrest
    have hsame := h (event :: before) target value after (by rw [hrest]; rfl)
    rwa [List.reverse_cons, List.append_assoc] at hsame

/-- The instructions of an event after the given ones: those of an assignment that is
completed. -/
def Event.instrs? (labels : DataLabels) (earlier : List Event) :
    Event → Option (List Instruction)
  | .completed target value => do
    let load ← value.load? labels
    let echo ← value.echo? labels target (routineByKind earlier value)
    let message ← labels.message? target
    return load :: echo.instrs labels.newLine message
  | _ => some []

/-- `Emits labels earlier events instrs`: the instructions are those of the events, which
come after the earlier ones. -/
inductive Emits (labels : DataLabels) : List Event → List Event → List Instruction → Prop
  | nil {earlier} : Emits labels earlier [] []
  | cons {earlier event rest instrs₁ instrs₂} :
      event.instrs? labels earlier = some instrs₁ →
      Emits labels (event :: earlier) rest instrs₂ →
      Emits labels earlier (event :: rest) (instrs₁ ++ instrs₂)

theorem Event.instrs?_completed {labels : DataLabels} {earlier : List Event}
    {target : String} {value : Node} {instrs : List Instruction} :
    (Event.completed target value).instrs? labels earlier = some instrs ↔
      ∃ load echo message, value.load? labels = some load ∧
        value.echo? labels target (routineByKind earlier value) = some echo ∧
        labels.message? target = some message ∧
        instrs = load :: echo.instrs labels.newLine message := by
  simp [instrs?, Option.bind_eq_some_iff, eq_comm (a := instrs)]

namespace Emits

variable {labels : DataLabels} {earlier events events₁ events₂ : List Event}
  {instrs instrs₁ instrs₂ : List Instruction}

theorem append (h₁ : Emits labels earlier events₁ instrs₁)
    (h₂ : Emits labels (events₁.reverse ++ earlier) events₂ instrs₂) :
    Emits labels earlier (events₁ ++ events₂) (instrs₁ ++ instrs₂) := by
  induction h₁ with
  | nil => exact h₂
  | cons hevent _ ih =>
    rw [List.reverse_cons, List.append_assoc] at h₂
    rw [List.append_assoc]
    exact .cons hevent (ih h₂)

theorem one {event : Event} (h : event.instrs? labels earlier = some instrs) :
    Emits labels earlier [event] instrs := by
  rw [← List.append_nil instrs]
  exact .cons h .nil

/-- Where events are cut in two, so are their instructions. -/
theorem exists_of_append (h : Emits labels earlier (events₁ ++ events₂) instrs) :
    ∃ instrs₁ instrs₂, instrs = instrs₁ ++ instrs₂ ∧
    Emits labels earlier events₁ instrs₁ ∧
      Emits labels (events₁.reverse ++ earlier) events₂ instrs₂ := by
  induction events₁ generalizing earlier instrs with
  | nil => exact ⟨[], instrs, rfl, .nil, h⟩
  | cons event rest ih =>
    cases h with
    | cons hevent hrest =>
      obtain ⟨instrs₁, instrs₂, rfl, h₁, h₂⟩ := ih hrest
      refine ⟨_, instrs₂, (List.append_assoc _ _ _).symm, .cons hevent h₁, ?_⟩
      rw [List.reverse_cons, List.append_assoc]
      exact h₂

/-- The value of an assignment has no code of its own: it is loaded when the assignment is
completed. -/
theorem assignment {target : String} {value : Node}
    (hplain : value.isPlainAfter (value.events.reverse ++ earlier))
    (h : (Event.completed target value).instrs? labels (value.events.reverse ++ earlier) =
      some instrs) : Emits labels earlier (Node.assignment target value).events
      instrs := by
  have hvalue : Emits labels earlier value.events [] := by
    cases value with
    | number | identifier => exact .one rfl
    | boolean | string => exact .nil
    | _ => simp [Node.isPlainAfter] at hplain
  exact hvalue.append (.one h)

/-- What is stored by the code of the events is echoed by kind. -/
theorem echoes_eq (h : Emits labels earlier events instrs) (rest : List Code) :
    echoes (instrs.map .instr ++ rest) =
      echoesAlong labels routineByKind earlier events ++ echoes rest := by
  induction h with
  | nil => rfl
  | @cons earlier event events instrs₁ instrs₂ hevent _ ih =>
    rw [List.map_append, List.append_assoc, echoesAlong, List.append_assoc, ← ih]
    cases event with
    | completed target value =>
      obtain ⟨load, echo, message, hload, hecho, -, rfl⟩ :=
        Event.instrs?_completed.mp hevent
      rw [Event.echo?, hecho, List.map_cons, List.cons_append, echoes_load hload,
        echoes_instrs]
      rfl
    | number | read | unknown =>
      obtain rfl := Option.some.inj hevent
      rfl

theorem echoes_map (h : Emits labels earlier events instrs) :
    echoes (instrs.map .instr) = echoesAlong labels routineByKind earlier events := by
  have hechoes := h.echoes_eq []
  rwa [List.append_nil, echoes, List.append_nil] at hechoes

end Emits

/-- Whether a tree is a list of assignments. -/
def Node.isStraightLine : Node → Bool
  | .assignment _ _ => true
  | .last first => first.isStraightLine
  | .chain first next => first.isStraightLine && next.isStraightLine
  | _ => false

namespace Lowering

variable {ctx : Context} {level : Nat} {inChain : Bool} {s s' : Session}
  {code : List Code}
  {warnings : List Warning} {flags : Option Comparison} {earlier : List Event}

/-- The code of a number, a boolean or a variable is one instruction. -/
theorem Lowers.exists_load {value : Node}
    (h : Lowers ctx level inChain value s code warnings s' flags)
    (hplain : value.isPlainAfter earlier) (hvalue : ∀ text, value ≠ .string text) :
    flags = none ∧ ∃ load, value.load? ctx.labels = some load ∧ code = [.instr load] := by
  cases h with
  | number _ hnumber =>
    refine ⟨rfl, _, ?_, rfl⟩
    rw [Node.load?, hnumber]
    rfl
  | boolean => exact ⟨rfl, _, rfl, rfl⟩
  | identifier => exact ⟨rfl, _, rfl, rfl⟩
  | string => exact absurd rfl (hvalue _)
  | operator | assignLiteral | assignWord | last | chain | ifThen | ifElse | whileLoop
      | forLoop
  | unknown => simp [Node.isPlainAfter] at hplain

theorem storeWord_code (target message : String) (kind : ValueKind) :
    (storeWord ctx target message kind s).code =
      ((Echo.ofCell target (if kind = .string then .printString else .printNumber)).instrs
        ctx.labels.newLine message).map .instr := by
  unfold storeWord
  split <;> rfl

/-- The code of a list of assignments is that of its events. -/
theorem Lowers.emits {tree : Node}
    (h : Lowers ctx level inChain tree s code warnings s' flags)
    (hline : tree.isStraightLine) (hs : s.Recalls earlier)
    (hplain : assignsPlain (tree.events.reverse ++ earlier)) :
    ∃ instrs, code = instrs.map .instr ∧ Emits ctx.labels earlier tree.events instrs := by
  induction h generalizing earlier with
  | @assignLiteral _ _ _ target text message label _ hmessage hlabel =>
    refine ⟨_, rfl, .assignment rfl (Event.instrs?_completed.mpr ?_)⟩
    refine ⟨.lea .ax label, ⟨target, .lea .dx label, .printString⟩, message, ?_, ?_,
      hmessage, rfl⟩
    · rw [Node.load?, hlabel]
      rfl
    · rw [Node.echo?, hlabel]
      rfl
  | @assignWord _ _ s target value message _ _ s₁ _ _ hmessage hvalue hlowers _ =>
    rw [Node.events, List.reverse_append, List.append_assoc] at hplain
    obtain ⟨hplain, -⟩ := Bool.and_eq_true_iff.mp hplain
    obtain ⟨rfl, load, hload, rfl⟩ := hlowers.exists_load hplain hvalue
    -- The kind is looked up before the value is lowered, which makes no difference.
    have hkind : s.symbols.kindOf value =
        value.kindGiven (firstKind? (value.events.reverse ++ earlier)) := by
      rw [SymbolTable.kindOf_eq_kindGiven, Node.kindGiven_events]
      exact congrArg value.kindGiven (funext hs.kind?)
    refine ⟨_, ?_, .assignment hplain
      (Event.instrs?_completed.mpr ⟨load, _, message, hload,
        Node.echo?_of_ne_string hvalue _ _ _, hmessage, rfl⟩)⟩
    rw [storeWord_code, hkind]
    rfl
  | last _ _ ih => exact ih hline hs hplain
  | chain _ h₁ _ ih₁ ih₂ =>
    obtain ⟨hfirst, hnext⟩ := Bool.and_eq_true_iff.mp hline
    rw [Node.events, List.reverse_append, List.append_assoc] at hplain
    obtain ⟨instrs₁, rfl, hemits₁⟩ := ih₁ hfirst hs (allAssignments_of_append hplain)
    obtain ⟨instrs₂, rfl, hemits₂⟩ := ih₂ hnext (h₁.tells earlier hs).2 hplain
    exact ⟨_, List.map_append.symm, hemits₁.append hemits₂⟩
  | _ => simp [Node.isStraightLine] at hline

end Lowering

/-! ## Runs -/

/-- The word that a cell with the given content holds: an address, or a number that fits a
word. -/
def Content.word? (p : Platform) (labels : DataLabels) : Content → Option Word
  | .text literal => (labels.string? literal).map p.address
  | .number value => Numeral.encode? 16 (.decimal value)

/-- The cells hold what they hold after the given events. -/
def Machine.Holds (p : Platform) (labels : DataLabels) (history : List Event)
    (m : Machine) :
    Prop :=
  ∀ name content, contents history name = some content →
    content.word? p labels = some (m.cells name)

/-- The number, if it is one, fits a word, signed or not, so that it can be loaded. -/
def Loadable (text : String) : Prop :=
  ∀ value, Literal.value? text = some value → -32768 ≤ value ∧ value ≤ 65535

theorem Loadable.exists_encode? {text : String} (h : Loadable text) {value : Int}
    (hvalue : Literal.value? text = some value) :
    ∃ w, Numeral.encode? 16 (.decimal value) = some w := by
  obtain ⟨hlow, hhigh⟩ := h value hvalue
  refine ⟨BitVec.ofInt 16 value, if_pos ?_⟩
  by_cases hneg : value < 0
  · left
    exact BitVec.toInt_ofInt_eq_self (by decide) hlow (by rw [Numeral.value]; omega)
  · right
    rw [Numeral.value, BitVec.toNat_ofInt]
    omega

section Exec

variable {p : Platform} {labels : DataLabels} {earlier events : List Event} {m : Machine}

/-- A value is loaded as the word for its content. -/
theorem exists_exec_load {value : Node} {load : Instruction}
    (hload : value.load? labels = some load)
    (hfits : ∀ text, value = .number text → Loadable text)
    (hm : m.Holds p labels earlier) :
    ∃ w, m.exec? p load = some (m.set .ax w) ∧
      ∀ content, value.contentGiven (contents earlier) = some content →
        content.word? p labels = some w := by
  cases value with
  | number text =>
    obtain ⟨number, hnumber, rfl⟩ := Option.map_eq_some_iff.mp hload
    obtain ⟨w, hw⟩ := (hfits text rfl).exists_encode? hnumber
    refine ⟨w, ?_, ?_⟩
    · simp [Machine.exec?, Machine.move?, Machine.store?, Machine.word?, ax, imm, hw]
    · intro content hcontent
      rw [Node.contentGiven, hnumber] at hcontent
      obtain rfl := Option.some.inj hcontent
      exact hw
  | boolean value =>
    obtain rfl := Option.some.inj hload
    refine ⟨if value then 1 else 0, by cases value <;> rfl, ?_⟩
    intro content hcontent
    obtain rfl := Option.some.inj hcontent
    cases value <;> rfl
  | string text =>
    obtain ⟨label, hlabel, rfl⟩ := Option.map_eq_some_iff.mp hload
    refine ⟨p.address label, rfl, ?_⟩
    intro content hcontent
    obtain rfl := Option.some.inj hcontent
    rw [Content.word?, hlabel]
    rfl
  | identifier name =>
    obtain rfl := Option.some.inj hload
    exact ⟨m.cells name, rfl, fun content hcontent => hm name content hcontent⟩
  | _ => simp [Node.load?] at hload

/-- The word in `AX` is stored, and the echo leaves the cells alone. -/
theorem exists_exec_echo {value : Node} {target : String} {routine : Procedure}
    {echo : Echo} (hecho : value.echo? labels target routine = some echo)
    (newLine message : String) :
    ∃ m', (echo.instrs newLine message).foldlM (Machine.exec? p) m = some m' ∧
      m'.cells = Function.update m.cells target (m.registers .ax) := by
  rcases value.eq_string_or_ne with ⟨text, rfl⟩ | hvalue
  · obtain ⟨label, -, rfl⟩ := Option.map_eq_some_iff.mp hecho
    exact ⟨_, rfl, rfl⟩
  · rw [Node.echo?_of_ne_string hvalue] at hecho
    obtain rfl := Option.some.inj hecho
    cases routine <;> exact ⟨_, rfl, rfl⟩

/-- The code of one event runs, and then the cells hold what they hold after it. -/
theorem exists_exec_event {event : Event} {instrs : List Instruction}
    (hevent : event.instrs? labels earlier = some instrs)
    (hfits : ∀ target text, event = .completed target (.number text) → Loadable text)
    (hm : m.Holds p labels earlier) :
    ∃ m', instrs.foldlM (Machine.exec? p) m = some m' ∧
    m'.Holds p labels (event :: earlier) := by
  cases event with
  | completed target value =>
    obtain ⟨load, echo, message, hload, hecho, -, rfl⟩ :=
      Event.instrs?_completed.mp hevent
    obtain ⟨w, hexec, hword⟩ := exists_exec_load hload
      (fun text hvalue => hfits target text (congrArg _ hvalue)) hm
    obtain ⟨m', hexec', hcells⟩ := exists_exec_echo (p := p) (m := m.set .ax w) hecho
      labels.newLine message
    refine ⟨m', (foldlM_exec_cons hexec).trans hexec', fun name content hcontent => ?_⟩
    rw [hcells, Machine.cells_set, Machine.registers_set_self]
    rw [contents] at hcontent
    by_cases hname : name = target
    · rw [if_pos hname] at hcontent
      rw [hname, Function.update_self]
      exact hword content hcontent
    · rw [if_neg hname] at hcontent
      rw [Function.update_of_ne hname]
      exact hm name content hcontent
  | number | read | unknown =>
    obtain rfl := Option.some.inj hevent
    exact ⟨m, rfl, hm⟩

/-- The code of events runs, and then the cells hold what they hold after the events. -/
theorem Emits.exists_exec {instrs : List Instruction}
    (h : Emits labels earlier events instrs)
    (hfits : ∀ target text, .completed target (.number text) ∈ events → Loadable text)
    (hm : m.Holds p labels earlier) :
    ∃ m', instrs.foldlM (Machine.exec? p) m = some m' ∧
      m'.Holds p labels (events.reverse ++ earlier) := by
  induction h generalizing m with
  | nil => exact ⟨m, rfl, hm⟩
  | cons hevent _ ih =>
    obtain ⟨m₁, hexec₁, hm₁⟩ := exists_exec_event hevent
      (fun target text heq => hfits target text (heq ▸ List.mem_cons_self)) hm
    obtain ⟨m₂, hexec₂, hm₂⟩ :=
      ih (fun target text hmem => hfits target text (List.mem_cons_of_mem _ hmem)) hm₁
    refine ⟨m₂, ?_, ?_⟩
    · rw [List.foldlM_append, hexec₁]
      exact hexec₂
    · rw [List.reverse_cons, List.append_assoc]
      exact hm₂

theorem Machine.holds_nil (p : Platform) (labels : DataLabels) (m : Machine) :
    m.Holds p labels [] := by
  intro name content hcontent
  simp [contents] at hcontent

theorem Emits.exists_runs {instrs : List Instruction} (h : Emits labels [] events instrs)
    (hfits : ∀ target text, .completed target (.number text) ∈ events → Loadable text)
    (program rest : List Code) (m : Machine) :
    ∃ m', Runs p program ⟨instrs.map .instr ++ rest, m⟩ ⟨rest, m'⟩ ∧
      m'.Holds p labels events.reverse := by
  obtain ⟨m', hexec, hm'⟩ := h.exists_exec hfits (m.holds_nil p labels)
  rw [List.append_nil] at hm'
  exact ⟨m', .instrs hexec, hm'⟩

end Exec

/-! ## Programs -/

namespace Compilation

variable {settings : Settings} {tree : Node} {compiled : Compiled}

/-- The code of a list of assignments is that of its events. -/
theorem exists_emits_of_compile (h : compile settings tree = .ok compiled)
    (hline : tree.isStraightLine) (hplain : assignsPlain tree.events.reverse) :
    ∃ instrs : List Instruction, compiled.lines =
      opening compiled.data compiled.data.labels ++
      (instrs.map Code.instr).map .code ++ epilogue ∧
      Emits compiled.data.labels [] tree.events instrs := by
  obtain ⟨code, s', flags, hlowers, hlines, hdata, -⟩ := exists_lowers_of_compile h
  rw [← List.append_nil tree.events.reverse] at hplain
  obtain ⟨instrs, rfl, hemits⟩ := hlowers.emits hline Session.recalls_initial hplain
  rw [hdata] at hlines ⊢
  exact ⟨instrs, hlines, hemits⟩

theorem numbersValued_of_compile (h : compile settings tree = .ok compiled) :
    NumbersValued tree.events.reverse := by
  have hfirst : tree.firstFault? settings.maxDepth = none :=
    exists_compile_ok_iff.mp ⟨compiled, h⟩
  intro target text hmem
  have hassignment := Node.completed_mem_events_iff.mp (List.mem_reverse.mp hmem)
  exact (Node.firstFault?_eq_none_iff.mp hfirst).2 text
    (Node.mem_subtrees_of_mem_children hassignment List.mem_cons_self)

/-- What an assignment of a list stores is known. The routine by kind is the one for it
exactly when the value is a literal, or a variable whose cell holds a text if and only if
it is of kind string; this is so if no variable changed its sort before. -/
theorem exists_content_of_compile (h : compile settings tree = .ok compiled)
    (hplain : assignsPlain tree.events.reverse) {before after : List Event}
    {target : String} {value : Node}
    (hevents : tree.events = before ++ .completed target value :: after) :
    ∃ content, value.contentGiven (contents before.reverse) = some content ∧
      (routineByKind before.reverse value = content.routine ↔
        ∀ name, value = .identifier name →
          (firstKind? before.reverse name = some .string ↔
            content.routine = .printString)) ∧
      (keepsSorts before.reverse →
        routineByKind before.reverse value = content.routine) := by
  have hvalued := numbersValued_of_compile h
  rw [hevents, List.reverse_append, List.reverse_cons,
    List.append_assoc] at hplain hvalued
  obtain ⟨hvalue, hplain⟩ := Bool.and_eq_true_iff.mp (allAssignments_of_append hplain)
  have hvalued : NumbersValued (.completed target value :: before.reverse) :=
    fun target' text hmem => hvalued target' text (List.mem_append_right _ hmem)
  have hsome : (value.contentGiven (contents before.reverse)).isSome :=
    isSome_contentGiven hvalue
      (fun text htext => hvalued target text (htext ▸ List.mem_cons_self))
      (isSome_contents hplain hvalued.of_cons)
  obtain ⟨content, hcontent⟩ := Option.isSome_iff_exists.mp hsome
  refine ⟨content, hcontent, routineByKind_eq_iff hcontent, fun hkeeps => ?_⟩
  refine (routineByKind_eq_iff hcontent).mpr fun name hname => ?_
  rw [hname] at hcontent
  exact firstKind?_eq_string_iff hplain hvalued.of_cons hkeeps hcontent

/-- **How a list of assignments is echoed.** Every assignment of a list of assignments of
literals and of variables that were assigned before is echoed by kind: a literal that is a
text by its label, another value of kind string by the address in the cell, both through
`print_string`, and all other values through `PrintNumber`. What an assignment stores is
the text of a literal or a number, and the cells hold the words for it when the code of
the assignment has run. The routine is the one for what is stored if the value is a
literal; for a variable, exactly if its cell holds a text just when its first value was
one. So all routines are the ones for what is stored if no variable changes from texts to
numbers or back. -/
theorem echoes_of_compile (h : compile settings tree = .ok compiled)
    (hline : tree.isStraightLine) (hplain : assignsPlain tree.events.reverse) :
    ∃ code : List Code, compiled.lines =
        opening compiled.data compiled.data.labels ++ code.map .code ++ epilogue ∧
      echoes code = echoesAlong compiled.data.labels routineByKind [] tree.events ∧
      (keepsSorts tree.events.reverse →
        echoes code = echoesAlong compiled.data.labels routineByContent [] tree.events) ∧
      (∀ before target value after,
        tree.events = before ++ .completed target value :: after →
        ∃ content, value.contentGiven (contents before.reverse) = some content ∧
          (routineByKind before.reverse value = content.routine ↔
            ∀ name, value = .identifier name →
              (firstKind? before.reverse name = some .string ↔
                content.routine = .printString)) ∧
          (keepsSorts before.reverse →
            routineByKind before.reverse value = content.routine)) ∧
      ∀ before after, tree.events = before ++ after →
        ∃ code₁ code₂, code = code₁ ++ code₂ ∧
          echoes code₁ = echoesAlong compiled.data.labels routineByKind [] before ∧
          echoes code₂ =
            echoesAlong compiled.data.labels routineByKind before.reverse after ∧
          ∀ (p : Platform) (m : Machine),
            (∀ text, .number text ∈ tree.subtrees → Loadable text) →
            ∃ m', Runs p code ⟨code, m⟩ ⟨code₂, m'⟩ ∧
              m'.Holds p compiled.data.labels before.reverse := by
  obtain ⟨instrs, hlines, hemits⟩ := exists_emits_of_compile h hline hplain
  refine ⟨instrs.map .instr, hlines, hemits.echoes_map, fun hkeeps => ?_, ?_, ?_⟩
  · rw [hemits.echoes_map]
    refine echoesAlong_congr fun before target value after hevents => ?_
    obtain ⟨content, hcontent, -, hroutine⟩ := exists_content_of_compile h hplain hevents
    rw [hevents, List.reverse_append, List.reverse_cons, List.append_assoc] at hkeeps
    have hbefore : keepsSorts before.reverse :=
      (Bool.and_eq_true_iff.mp (allAssignments_of_append hkeeps)).2
    rw [List.append_nil, hroutine hbefore, routineByContent, hcontent]
    rfl
  · intro before target value after hevents
    exact exists_content_of_compile h hplain hevents
  · intro before after hevents
    rw [hevents] at hemits
    obtain ⟨instrs₁, instrs₂, rfl, hemits₁, hemits₂⟩ := hemits.exists_of_append
    rw [List.append_nil] at hemits₂
    refine ⟨instrs₁.map .instr, instrs₂.map .instr, List.map_append, hemits₁.echoes_map,
      hemits₂.echoes_map, ?_⟩
    intro p m hfits
    rw [List.map_append]
    refine hemits₁.exists_runs (fun target text hmem => hfits text ?_) _ _ m
    have hcompleted : .completed target (.number text) ∈ tree.events :=
      hevents ▸ List.mem_append_left after hmem
    exact Node.mem_subtrees_of_mem_children (Node.completed_mem_events_iff.mp hcompleted)
      List.mem_cons_self

/-- A text and a number that are copied. The text is copied before its variable gets
another. -/
def copies : Node :=
  .chain (.assignment "x" (.string "a")) (.chain (.assignment "y" (.identifier "x"))
    (.chain (.assignment "x" (.string "b")) (.chain (.assignment "k" (.number "7"))
      (.last (.assignment "j" (.identifier "k"))))))

theorem echoes_of_compile_copies :
    ∃ (compiled : Compiled) (code₁ code₂ : List Code) (p : Platform) (m m' : Machine),
      compile {} copies = .ok compiled ∧
      compiled.lines =
        opening compiled.data compiled.data.labels ++ (code₁ ++ code₂).map .code ++
          epilogue ∧
      ⟨"y", .mov dx (.cell "y"), .printString⟩ ∈ echoes (code₁ ++ code₂) ∧
      ⟨"j", .mov ax (.cell "j"), .printNumber⟩ ∈ echoes (code₁ ++ code₂) ∧
      echoes code₂ = [] ∧
      Runs p (code₁ ++ code₂) ⟨code₁ ++ code₂, m⟩ ⟨code₂, m'⟩ ∧ m'.cells "j" = 7 := by
  have hfirst : copies.firstFault? ({} : Settings).maxDepth = none := rfl
  have hcompile := compile_of_none hfirst
  have hcontent : ∀ labels : DataLabels,
      echoesAlong labels routineByContent [] copies.events =
        ((Node.string "a").echo? labels "x" .printString).toList ++
          (⟨"y", .mov dx (.cell "y"), .printString⟩ ::
            ((Node.string "b").echo? labels "x" .printString).toList ++
              [⟨"k", .mov ax (.cell "k"), .printNumber⟩,
                ⟨"j", .mov ax (.cell "j"), .printNumber⟩]) :=
    fun _ => rfl
  have hfits : ∀ text, .number text ∈ copies.subtrees → Loadable text := by
    intro text hmem value hvalue
    obtain rfl : text = "7" := by simpa [copies, Node.subtrees] using hmem
    obtain rfl : value = 7 := (Option.some.inj hvalue).symm
    decide
  obtain ⟨code, hlines, -, hechoes, -, hplaces⟩ := echoes_of_compile hcompile rfl rfl
  obtain ⟨code₁, code₂, rfl, -, hlast, hruns⟩ := hplaces _ [] (List.append_nil _).symm
  obtain ⟨m', hrun, hheld⟩ := hruns
    ⟨0, fun _ => 0, fun _ => [], fun _ => 9, fun _ => ⟨true, true, true⟩⟩
    ⟨fun _ => 0, ⟨false, false, false⟩, [], fun _ => 0, []⟩ hfits
  rw [hcontent] at hechoes
  refine ⟨_, code₁, code₂, _, _, m', hcompile, hlines, ?_, ?_, hlast, hrun, ?_⟩
  · rw [hechoes rfl]
    simp
  · rw [hechoes rfl]
    simp
  · exact (Option.some.inj (hheld "j" (.number 7) rfl)).symm

/-- A variable that changes from a text to a number and is copied then. -/
def changedCopy : Node :=
  .chain (.assignment "x" (.string "a")) (.chain (.assignment "x" (.number "1"))
    (.last (.assignment "y" (.identifier "x"))))

/-- A number that is echoed as a text: the variable that it is copied from held a text at
first. The word stored in `y` is the number, but `print_string` is called with it. -/
theorem echoes_changedCopy :
    changedCopy.isStraightLine ∧ assignsPlain changedCopy.events.reverse ∧
    ∃ (compiled : Compiled) (code : List Code), compile {} changedCopy = .ok compiled ∧
      compiled.lines =
        opening compiled.data compiled.data.labels ++ code.map .code ++ epilogue ∧
      (∀ (p : Platform) (m : Machine),
        ∃ m', Runs p code ⟨code, m⟩ ⟨[], m'⟩ ∧ m'.cells "y" = 1) ∧
      ⟨"y", .mov dx (.cell "y"), .printString⟩ ∈ echoes code ∧
      echoes code ≠
        echoesAlong compiled.data.labels routineByContent [] changedCopy.events := by
  have hfirst : changedCopy.firstFault? ({} : Settings).maxDepth = none := rfl
  have hcompile := compile_of_none hfirst
  have hkind : ∀ labels : DataLabels,
      echoesAlong labels routineByKind [] changedCopy.events =
        ((Node.string "a").echo? labels "x" .printString).toList ++
          [⟨"x", .mov ax (.cell "x"), .printNumber⟩,
            ⟨"y", .mov dx (.cell "y"), .printString⟩] :=
    fun _ => rfl
  have hcontent : ∀ labels : DataLabels,
      echoesAlong labels routineByContent [] changedCopy.events =
        ((Node.string "a").echo? labels "x" .printString).toList ++
          [⟨"x", .mov ax (.cell "x"), .printNumber⟩,
            ⟨"y", .mov ax (.cell "y"), .printNumber⟩] :=
    fun _ => rfl
  have hfits : ∀ target text, .completed target (.number text) ∈ changedCopy.events →
      Loadable text := by
    intro target text hmem value hvalue
    obtain ⟨rfl, rfl⟩ : target = "x" ∧ text = "1" := by
      simpa [changedCopy, Node.events] using hmem
    obtain rfl : value = 1 := (Option.some.inj hvalue).symm
    decide
  obtain ⟨instrs, hlines, hemits⟩ := exists_emits_of_compile hcompile rfl rfl
  refine ⟨rfl, rfl, _, instrs.map .instr, hcompile, hlines, fun p m => ?_, ?_, ?_⟩
  · obtain ⟨m', hrun, hheld⟩ := hemits.exists_runs (p := p) hfits (instrs.map .instr) [] m
    rw [List.append_nil] at hrun
    exact ⟨m', hrun, (Option.some.inj (hheld "y" (.number 1) rfl)).symm⟩
  · rw [hemits.echoes_map, hkind]
    simp
  · rw [hemits.echoes_map, hkind, hcontent]
    simp

end Compilation

end RealMode

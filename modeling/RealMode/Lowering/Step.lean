import RealMode.Assembly.Instruction
import RealMode.SymbolTable
import RealMode.Text.Quoted

/-!
# Steps of lowering

Lowering turns a tree into code. It starts from a session, the symbols and the label
counters so far, and yields code, warnings and the next session; it also fails or returns
a result. A failure keeps everything that was produced before it, so that a session can go
on after it and a partial listing can be shown.

- `Step` is what came of it, `Lowering` the computation.
- `Step.andThen` runs one after the other: code and warnings are appended, and a fault
  ends the run.
- `Fault` lists the causes of failure with their wording.
-/

namespace RealMode

/-- A cause for which lowering fails. -/
inductive Fault
  | tooDeep (limit : Nat) (kind : Kind)
  | malformedNumber (text : String)
  | undeclaredString (text : String)
  | undeclaredVariable (name : String)
deriving DecidableEq, Repr

namespace Fault

/-- What the user is told. -/
def diagnostic : Fault → Diagnostic
  | .tooDeep limit kind =>
    ((Diagnostic.error s!"program nesting exceeds {limit} levels").withNote
      s!"while lowering a {kind.name} node").withHelp
      "raise `max_depth` in tasmgen.toml or pass --max-depth"
  | .malformedNumber text =>
    (Diagnostic.error s!"malformed number literal '{text}'").withHelp
      "numeric literals are decimal, optionally with a fraction or exponent"
  | .undeclaredString text =>
    let message := s!"string literal {Text.quoted text} has no data declaration"
    (Diagnostic.error message).withHelp
      "collect static data from the same tree before generating code"
  | .undeclaredVariable name =>
    (Diagnostic.error s!"variable '{name}' has no data declaration").withHelp
      "collect static data from the same tree before generating code"

/-- Every fault is told as an error. -/
theorem severity_diagnostic (f : Fault) : f.diagnostic.severity = .error := by
  cases f <;> rfl

end Fault

/-- The constructs whose code labels are numbered. -/
inductive Construct
  | conditional
  | whileLoop
  | forLoop
  | boolean
deriving DecidableEq, Repr

/-- The next number of each construct. The numbers have no upper end. A generator that
counts in words of 32 bits numbers its labels alike as long as no counter has gone through
2^32 constructs, which takes a session with that many. -/
structure Counters where
  conditional : Nat := 0
  whileLoop : Nat := 0
  forLoop : Nat := 0
  boolean : Nat := 0
deriving DecidableEq, Repr

namespace Counters

/-- The next number of a construct. -/
def get (counters : Counters) : Construct → Nat
  | .conditional => counters.conditional
  | .whileLoop => counters.whileLoop
  | .forLoop => counters.forLoop
  | .boolean => counters.boolean

/-- Uses a number up. -/
def advance (counters : Counters) : Construct → Counters
  | .conditional => { counters with conditional := counters.conditional + 1 }
  | .whileLoop => { counters with whileLoop := counters.whileLoop + 1 }
  | .forLoop => { counters with forLoop := counters.forLoop + 1 }
  | .boolean => { counters with boolean := counters.boolean + 1 }

end Counters

/-- What lowering carries from one tree to the next. The depth is no part of it, since
every tree starts at level zero. -/
structure Session where
  symbols : SymbolTable := .empty
  counters : Counters := {}

/-- The session at the beginning. -/
def Session.initial : Session :=
  ⟨.empty, {}⟩

/-- What came of lowering something. -/
structure Step (α : Type) where
  code : List Code
  warnings : List Warning
  session : Session
  result : Except Fault α

/-- A computation that lowers something. -/
def Lowering (α : Type) : Type :=
  Session → Step α

namespace Step

variable {α β : Type}

/-- Goes on with the result: what follows is appended, unless there was a fault. -/
@[always_inline, inline]
def andThen (step : Step α) (f : α → Lowering β) : Step β :=
  match step with
  | ⟨code, warnings, session, .error fault⟩ => ⟨code, warnings, session, .error fault⟩
  | ⟨code, warnings, session, .ok a⟩ =>
    let rest := f a session
    ⟨code ++ rest.code, warnings ++ rest.warnings, rest.session, rest.result⟩

/-- After a result, the code and the warnings of what follows are appended. -/
theorem andThen_of_ok {step : Step α} {a : α} (h : step.result = .ok a)
    (f : α → Lowering β) :
    step.andThen f =
      ⟨step.code ++ (f a step.session).code, step.warnings ++ (f a step.session).warnings,
        (f a step.session).session, (f a step.session).result⟩ := by
  obtain ⟨code, warnings, session, result⟩ := step
  obtain rfl : result = .ok a := h
  rfl

/-- After a fault nothing follows. -/
theorem andThen_of_error {step : Step α} {fault : Fault}
    (h : step.result = .error fault) (f : α → Lowering β) :
    step.andThen f = ⟨step.code, step.warnings, step.session, .error fault⟩ := by
  obtain ⟨code, warnings, session, result⟩ := step
  obtain rfl : result = .error fault := h
  rfl

end Step

namespace Lowering

variable {α β : Type}

/-- Returns a result and does nothing else. -/
@[always_inline, inline]
protected def pure (a : α) : Lowering α :=
  fun session => ⟨[], [], session, .ok a⟩

/-- Goes on with the result. -/
@[always_inline, inline]
protected def bind (x : Lowering α) (f : α → Lowering β) : Lowering β :=
  fun session => (x session).andThen f

instance : Monad Lowering where
  pure := Lowering.pure
  bind := Lowering.bind

@[simp] theorem pure_apply (a : α) (session : Session) :
    (pure a : Lowering α) session = ⟨[], [], session, .ok a⟩ := rfl

@[simp] theorem bind_apply (x : Lowering α) (f : α → Lowering β) (session : Session) :
    (x >>= f) session = (x session).andThen f := rfl

/-- Fails. -/
def fail (fault : Fault) : Lowering α :=
  fun session => ⟨[], [], session, .error fault⟩

/-- Emits code. -/
def emit (code : List Code) : Lowering Unit :=
  fun session => ⟨code, [], session, .ok ()⟩

/-- Emits instructions. -/
def emitInstrs (instrs : List Instruction) : Lowering Unit :=
  emit (instrs.map .instr)

/-- Warns. -/
def warn (warning : Warning) : Lowering Unit :=
  fun session => ⟨[], [warning], session, .ok ()⟩

/-- The symbols so far. -/
def symbols : Lowering SymbolTable :=
  fun session => ⟨[], [], session, .ok session.symbols⟩

/-- Changes the symbols and passes on what the table warns about. -/
def modifySymbols (change : SymbolTable → SymbolTable) : Lowering Unit :=
  fun session =>
    let (warnings, symbols) := (change session.symbols).takeWarnings
    ⟨[], warnings, { session with symbols }, .ok ()⟩

/-- Takes the next number of a construct. -/
def nextTag (construct : Construct) : Lowering Nat :=
  fun session =>
    ⟨[], [], { session with counters := session.counters.advance construct },
      .ok (session.counters.get construct)⟩

/-- The value, or a fault if there is none. -/
def require (fault : Fault) : Option α → Lowering α
  | some a => Lowering.pure a
  | none => fail fault

end Lowering

end RealMode

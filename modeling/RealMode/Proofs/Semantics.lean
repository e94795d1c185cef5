import RealMode.Proofs.Machine

/-!
# What programs mean

The meaning of a tree is given on its own, without code: words for expressions, and for
statements a relation between the variables before, the text that is printed and the
variables after.

- `Node.eval?` evaluates an expression. Arithmetic is modulo `2 ^ 16`, division is without
  sign and undefined for the divisor zero, and comparisons are signed.
- `Node.effect` is the effect of a statement that ends. A loop has an effect for each
  finite number of rounds (`Effect.Loop`), and none if it does not end.
- `Node.isNumeric` and `Node.isStatement` are the trees that this is about: those in which
  variables hold numbers, and assignments, conditionals and loops stand where no value is
  asked for.
-/

namespace RealMode

/-- The words of the variables. -/
abbrev Store := String → Word

/-! ## Expressions -/

/-- The result of an arithmetic operator. -/
def Arithmetic.result? (a b : Word) : Arithmetic → Option Word
  | .add => some (a + b)
  | .sub => some (a - b)
  | .mul => some (a * b)
  | .div => if b = 0 then none else some (a / b)

/-- The result of an operator; that of a comparison is 1 or 0. -/
def BinaryOp.result? (a b : Word) : BinaryOp → Option Word
  | .arith op => op.result? a b
  | .compare c => some (if c.test a b then 1 else 0)

/-- The value of an expression. -/
def Node.eval? : Node → Store → Option Word
  | .number text, _ => (Literal.value? text).map (.ofInt 16)
  | .boolean value, _ => some (if value then 1 else 0)
  | .identifier name, σ => some (σ name)
  | .operator op lhs rhs, σ => do op.result? (← lhs.eval? σ) (← rhs.eval? σ)
  | _, _ => none

/-! ## Statements -/

/-- What a statement does: the variables before, the printed text and the variables
after. -/
abbrev Effect := Store → List Char → Store → Prop

namespace Effect

/-- Nothing is done. -/
def skip : Effect :=
  fun σ out σ' => out = [] ∧ σ' = σ

/-- One effect after the other. -/
def andThen (first second : Effect) : Effect :=
  fun σ out σ' => ∃ out₁ σ₁ out₂, first σ out₁ σ₁ ∧ second σ₁ out₂ σ' ∧ out = out₁ ++ out₂

/-- One of two effects, the second if the value is zero. -/
def branch (value : Store → Option Word) (body alternative : Effect) : Effect :=
  fun σ out σ' => ∃ w, value σ = some w ∧ if w = 0 then
    alternative σ out σ' else body σ out σ'

/-- An effect again and again, as long as the value is not zero. -/
inductive Loop (value : Store → Option Word) (body : Effect) : Effect
  | done {σ : Store} : value σ = some 0 → Loop value body σ [] σ
  | round {σ σ₁ σ₂ : Store} {w : Word} {out₁ out₂ : List Char} :
      value σ = some w → w ≠ 0 → body σ out₁ σ₁ → Loop value body σ₁ out₂ σ₂ →
      Loop value body σ (out₁ ++ out₂) σ₂

end Effect

/-- The effect of a statement. An assignment echoes its target and the value, a text is
printed on a line, and of an expression nothing is left but that it has a value. -/
def Node.effect : Node → Effect
  | .assignment target value => fun σ out σ' =>
    ∃ w, value.eval? σ = some w ∧
      out = (DataItem.message target).printed ++ decimal w ++ lineEnd ∧
      σ' = Function.update σ target w
  | .string text => fun σ out σ' =>
    out = (DataItem.literal text).printed ++ DataItem.lineBreak.printed ∧ σ' = σ
  | .last first => first.effect
  | .chain first next => first.effect.andThen next.effect
  | .ifThen cond body => .branch cond.eval? body.effect .skip
  | .ifElse _ cond body alternative => .branch cond.eval? body.effect alternative.effect
  | .whileLoop cond body => .Loop cond.eval? body.effect
  | .forLoop init cond step body =>
    init.effect.andThen (.Loop cond.eval? (body.effect.andThen step.effect))
  | expr => fun σ out σ' => (∃ w, expr.eval? σ = some w) ∧ Effect.skip σ out σ'

/-! ## The trees this is about -/

/-- Whether a tree is an expression over numbers that fit a word. -/
def Node.isNumeric : Node → Bool
  | .number text => (Literal.value? text).any Literal.fitsWord
  | .boolean _ | .identifier _ => true
  | .operator _ lhs rhs => lhs.isNumeric && rhs.isNumeric
  | _ => false

/-- Whether a tree is a statement over numbers: assignments of expressions, sequences,
conditionals, loops, texts to be printed, and expressions by themselves. -/
def Node.isStatement : Node → Bool
  | .assignment _ value => value.isNumeric
  | .string _ => true
  | .last first => first.isStatement
  | .chain first next => first.isStatement && next.isStatement
  | .ifThen cond body => cond.isNumeric && body.isStatement
  | .ifElse _ cond body alternative =>
    cond.isNumeric && body.isStatement && alternative.isStatement
  | .whileLoop cond body => cond.isNumeric && body.isStatement
  | .forLoop init cond step body =>
    init.isStatement && cond.isNumeric && step.isStatement && body.isStatement
  | expr => expr.isNumeric

theorem Node.isStatement_of_isNumeric {tree : Node} (h : tree.isNumeric) :
    tree.isStatement := by
  cases tree <;> first | exact h | exact nomatch h

end RealMode

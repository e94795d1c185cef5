import RealMode.Proofs.Evaluation
import RealMode.Proofs.ListingSymbols
import RealMode.Proofs.StackDiscipline

/-!
# The procedure that prints numbers

A call of `PrintNumber` is one step of the machine, with the effect that the procedure is
written for. Here the procedure itself is run, instruction by instruction, and shown to
have this effect.

It saves four registers, prints a minus sign if there is one, and goes through two loops.
The first divides by ten, pushes the digits, the lowest first, and counts them in `CX`;
the second pops and prints as many. So what the first loop leaves on the stack are, from
the top, the digits in the order in which a number is written.

- `codeFrom` is the code of the procedure from one of its places on, with an equation for
  each.
- `exists_runs_divideRound` and `exists_runs_divide`: a round of the first loop, and all
  of them, by induction on the number that is left.
- `exists_runs_printRound` and `exists_runs_print`: the same for the second loop, by
  induction on the words that are still to be printed.
- `exists_runs_digits` joins the loops, and `exists_runs_signCode` chooses the way to them
  by the sign.
- `exists_runs_body`: with the registers saved before and restored after, the procedure
  has no effect but the text.
- `codeOf` reads the code of a procedure back from the lines between its `PROC` and
  `ENDP`. In a finished listing this is the body of the procedure (`codeOf_append_lines`),
  and no label of the listing is defined twice (`Compilation.nodup_definedLabels_codeIn`),
  so that the procedure runs there as it does alone (`returns_printed`).
-/

namespace RealMode

/-! ## Texts -/

/-- The decimal text of a word that is not negative has no sign. -/
theorem decimal_of_nonneg {w : Word} (h : 0 ≤ w.toInt) :
    decimal w = Nat.toDigits 10 w.toNat := by
  rw [decimal, toInt_of_nonneg h]
  exact Nat.toList_repr

/-- The magnitude of a negative word is its negation without sign, also for the least
word. -/
theorem toInt_eq_negSucc {w : Word} (h : w.toInt < 0) :
    ∃ k, w.toInt = .negSucc k ∧ (-w).toNat = k + 1 := by
  have hnat := toInt_of_neg h
  have hbot := w.le_toInt
  have hlt := w.isLt
  have hneg : (-w).toNat = 65536 - w.toNat := by
    rw [BitVec.toNat_neg]
    omega
  refine ⟨65535 - w.toNat, ?_, ?_⟩
  · rw [Int.negSucc_eq]
    omega
  · omega

theorem decimal_of_neg {w : Word} (h : w.toInt < 0) :
    decimal w = '-' :: Nat.toDigits 10 (-w).toNat := by
  obtain ⟨k, hint, hnat⟩ := toInt_eq_negSucc h
  rw [decimal, hint, hnat]
  show ("-" ++ Nat.repr (k + 1)).toList = _
  rw [String.toList_append, Nat.toList_repr]
  rfl

theorem toNat_sub_one {w : Word} {n : Nat} (h : w.toNat = n + 1) : (w - 1).toNat = n := by
  have hlt := w.isLt
  rw [BitVec.toNat_sub, h]
  show (65536 - 1 + (n + 1)) % 65536 = n
  omega

/-- The character in the lower half of a word. -/
def lowCharacter (w : Word) : Char :=
  Char.ofNat (w.setWidth 8).toNat

theorem lowCharacter_append (high low : BitVec 8) :
    lowCharacter (high ++ low) = Char.ofNat low.toNat := by
  rw [lowCharacter, BitVec.setWidth_append_eq_right]

/-- The word with `'0'` added to its lower half. -/
def asDigit (w : Word) : Word :=
  w.extractLsb' 8 8 ++ (w.setWidth 8 + 48#8)

theorem lowCharacter_asDigit {w : Word} (h : w.toNat < 10) :
    lowCharacter (asDigit w) = Nat.digitChar w.toNat := by
  rw [asDigit, lowCharacter_append, BitVec.toNat_add, BitVec.toNat_setWidth]
  generalize w.toNat = n at h
  decide +revert

/-! ## Machines -/

/-- What the procedure works with: four registers, the flags, the stack, and what it has
printed. -/
structure Workspace where
  ax : Word
  bx : Word
  cx : Word
  dx : Word
  flags : Flags
  stack : List Word
  text : List Char

/-- Loads one of the four registers. -/
def Workspace.load (f : Workspace) (w : Word) : Register → Workspace
  | .ax => { f with ax := w }
  | .bx => { f with bx := w }
  | .cx => { f with cx := w }
  | .dx => { f with dx := w }
  | .ds => f

namespace Machine

variable (m : Machine)

/-- The workspace that the procedure finds. -/
def workspace : Workspace :=
  ⟨m.registers .ax, m.registers .bx, m.registers .cx, m.registers .dx, m.flags,
    m.stack, []⟩

/-- The machine with the contents of a workspace. The variables and the data segment are
as they are, and what has been printed comes after what was printed before. -/
def holding (f : Workspace) : Machine where
  registers
    | .ax => f.ax
    | .bx => f.bx
    | .cx => f.cx
    | .dx => f.dx
    | .ds => m.registers .ds
  flags := f.flags
  stack := f.stack
  cells := m.cells
  output := m.output ++ f.text

theorem holding_workspace (text : List Char) (flags : Flags) :
    m.holding { m.workspace with text := text, flags := flags } =
      (m.print text).setFlags flags := by
  have hregisters :
      (m.holding { m.workspace with text := text, flags := flags }).registers =
      m.registers := by
    funext r
    cases r <;> rfl
  exact congrArg (mk · flags m.stack m.cells (m.output ++ text)) hregisters

theorem holding_workspace_self : m.holding m.workspace = m := by
  refine (m.holding_workspace [] m.flags).trans ?_
  rw [print, List.append_nil]
  rfl

theorem holding_set (f : Workspace) (w : Word) {r : Register} (hr : r ≠ .ds) :
    (m.holding f).set r w = m.holding (f.load w r) := by
  cases r with
  | ds => exact absurd rfl hr
  | _ =>
    refine congrArg (mk · f.flags f.stack m.cells (m.output ++ f.text))
      (funext fun r' => ?_)
    cases r' <;> rfl

theorem holding_set_setFlags (f : Workspace) (w : Word) (flags : Flags) {r : Register}
    (hr : r ≠ .ds) :
    ((m.holding f).set r w).setFlags flags =
      m.holding { f.load w r with flags := flags } := by
  rw [m.holding_set f w hr]
  rfl

theorem holding_print (f : Workspace) (text : List Char) :
    (m.holding f).print text = m.holding { f with text := f.text ++ text } := by
  simp [holding, print]

end Machine

theorem Machine.byte_ah_setByte (m : Machine) (b : BitVec 8) :
    (m.setByte b .ah).byte .ah = b := by
  show BitVec.extractLsb' 8 8 ((m.set .ax _).registers .ax) = b
  rw [registers_set_self, BitVec.extractLsb'_append_eq_left]

/-- Function 2 of the operating system prints the character in `DL`. -/
theorem Machine.interrupt?_of_ah {p : Platform} {m : Machine} (h : m.byte .ah = 2) :
    m.interrupt? p 0x21 = some ((m.print [lowCharacter (m.registers .dx)]).resume
      ((p.leftover m).setWidth 8)) := by
  rw [interrupt?, if_pos rfl, h]
  rfl

theorem foldlM_exec_append {p : Platform} {m m' : Machine} {is is' : List Instruction}
    (h : is.foldlM (Machine.exec? p) m = some m') :
    (is ++ is').foldlM (Machine.exec? p) m = is'.foldlM (Machine.exec? p) m' := by
  rw [List.foldlM_append, h]
  rfl

namespace Runs

variable {p : Platform} {program rest place : List Code} {m : Machine}
  {target : CodeLabel}

theorem jumpIf_of_holds {condition : Condition}
    (hplace : goto? program target = some place) (h : condition.holds m.flags = true) :
    Runs p program ⟨.instr (.jumpIf condition target) :: rest, m⟩ ⟨place, m⟩ := by
  have hjump : Runs p program ⟨.instr (.jumpIf condition target) :: rest, m⟩ _ :=
    jumpIf hplace
  rwa [if_pos h] at hjump

theorem jumpIf_of_not_holds {condition : Condition}
    (hplace : goto? program target = some place) (h : condition.holds m.flags = false) :
    Runs p program ⟨.instr (.jumpIf condition target) :: rest, m⟩ ⟨rest, m⟩ := by
  have hjump : Runs p program ⟨.instr (.jumpIf condition target) :: rest, m⟩ _ :=
    jumpIf hplace
  rwa [if_neg (by simp [h])] at hjump

theorem loop (h : goto? program target = some place) :
    Runs p program ⟨.instr (.loop target) :: rest, m⟩
      ⟨if m.registers .cx - 1 = 0 then rest else place,
        m.set .cx (m.registers .cx - 1)⟩ := by
  refine .one ?_
  show (if (m.set .cx (m.registers .cx - 1)).registers .cx = 0 then
      some (Position.mk rest (m.set .cx (m.registers .cx - 1)))
    else (goto? program target).map (Position.mk · (m.set .cx (m.registers .cx - 1)))) = _
  rw [h, Machine.registers_set_self]
  split <;> rfl

end Runs

namespace Procedure

open Instruction

/-! ## The parts of the procedure -/

/-- The code of the procedure from one of its places on. -/
def codeFrom (place : PrintPlace) : List Code :=
  (goto? (body .printNumber) (.printNumber place)).getD []

/-- The code between the comparison with zero and the place where zero is printed: a
positive number has no sign, and that of a negative one is printed. -/
def signCode : List Code :=
  .instr (jumpIf .greater (.printNumber .digits)) ::
  .instr (jumpIf .equal (.printNumber .zero)) ::
  (List.map .instr ([push .ax, mov (.byte .dl) (char '-')] ++ printInstrs ++
    [pop .ax, neg .ax]) ++
    [.instr (jump (.printNumber .digits)), .label (.printNumber .zero)])

theorem body_printNumber :
    body .printNumber = List.map .instr [push .ax, push .bx, push .cx, push .dx,
        cmp (.word .ax) (dec 0)] ++ (signCode ++ codeFrom .zero) := rfl

theorem codeFrom_zero :
    codeFrom .zero = List.map .instr (mov (.byte .dl) (char '0') :: printInstrs) ++
      .instr (jump (.printNumber .newline)) :: .label (.printNumber .digits) ::
      codeFrom .digits := rfl

theorem codeFrom_digits :
    codeFrom .digits =
      List.map .instr [xor (.word .cx) (.word .cx), mov (.word .bx) (dec 10)] ++
      .label (.printNumber .divide) :: codeFrom .divide := rfl

theorem codeFrom_divide :
    codeFrom .divide = List.map .instr ([xor (.word .dx) (.word .dx), div .bx] ++
        [add (.byte .dl) (char '0'), push .dx, inc .cx, cmp (.word .ax) (dec 0)]) ++
      .instr (jumpIf .notEqual (.printNumber .divide)) :: .label (.printNumber .print) ::
      codeFrom .print := rfl

theorem codeFrom_print :
    codeFrom .print = List.map .instr (pop .dx :: printInstrs) ++
      .instr (loop (.printNumber .print)) :: .label (.printNumber .newline) ::
      codeFrom .newline := rfl

theorem codeFrom_newline :
    codeFrom .newline = List.map .instr (mov (.byte .dl) (hex 0x0d) :: printInstrs ++
        mov (.byte .dl) (hex 0x0a) :: printInstrs ++
        [pop .dx, pop .cx, pop .bx, pop .ax]) ++
      [.instr ret] := rfl

/-- The places of the procedure are found wherever it stands in a program. -/
theorem goto?_place {program rest : List Code} (hnodup : (definedLabels program).Nodup)
    (hsuffix : body .printNumber ++ rest <:+ program) (place : PrintPlace) :
    goto? program (.printNumber place) = some (codeFrom place ++ rest) := by
  have hbody : goto? (body .printNumber) (.printNumber place) =
      some (codeFrom place) := by
    cases place <;> rfl
  obtain ⟨j, hlabel, hplace⟩ := exists_label_of_goto? hbody
  have hdrop : (body .printNumber).drop j =
      .label (.printNumber place) :: codeFrom place := by
    rw [List.drop_eq_getElem?_toList_append, hlabel, hplace]
    rfl
  obtain ⟨before, hbefore⟩ := List.drop_suffix j (body .printNumber)
  refine goto?_eq_of_suffix hnodup (.trans ⟨before, ?_⟩ hsuffix)
  rw [← hbefore, hdrop, List.append_assoc]
  rfl

/-! ## Straight code -/

section Straight

variable {p : Platform} {m : Machine} (f : Workspace)

theorem exec?_pop {r : Register} (hr : r ≠ .ds) (w : Word) (stack : List Word) :
    (m.holding { f with stack := w :: stack }).exec? p (pop r) =
      some (m.holding (Workspace.load { f with stack := stack } w r)) :=
  congrArg some (m.holding_set { f with stack := stack } w hr)

theorem exists_exec_clear {r : Register} (hr : r ≠ .ds) :
    ∃ flags, (m.holding f).exec? p (xor (.word r) (.word r)) =
      some (m.holding { f.load 0 r with flags := flags }) := by
  refine ⟨.ofXor ((m.holding f).registers r) ((m.holding f).registers r), ?_⟩
  show some (((m.holding f).set r
    ((m.holding f).registers r ^^^ (m.holding f).registers r)).setFlags _) = _
  rw [BitVec.xor_self, m.holding_set_setFlags f _ _ hr]
  rfl

/-- The character in `DL` is printed. The operating system may leave anything in `AL`. -/
theorem exists_exec_printInstrs :
    ∃ ax, printInstrs.foldlM (Machine.exec? p) (m.holding f) =
      some (m.holding { f with ax := ax, text := f.text ++ [lowCharacter f.dx] }) := by
  obtain ⟨ax, hfunction⟩ : ∃ ax, (m.holding f).setByte 2 .ah =
      m.holding { f with ax := ax } :=
    ⟨_, m.holding_set f _ (r := .ax) (by decide)⟩
  have hah : (m.holding { f with ax := ax }).byte .ah = 2 := by
    rw [← hfunction, Machine.byte_ah_setByte]
  have hload : (m.holding f).exec? p (mov (.byte .ah) (hex 2)) =
      some (m.holding { f with ax := ax }) :=
    congrArg some hfunction
  have hprint : (m.holding { f with ax := ax }).exec? p (interrupt (.hex 0x21 'h')) =
      some _ :=
    Machine.interrupt?_of_ah hah
  rw [m.holding_print] at hprint
  exact ⟨_, (foldlM_exec_cons hload).trans ((foldlM_exec_cons hprint).trans
    (congrArg some (m.holding_set _ _ (r := .ax) (by decide))))⟩

/-- A character that is written in the code is printed. -/
theorem exists_exec_literal {x : Operand} {b : BitVec 8}
    (hx : (m.holding f).byte? x = some b) :
    ∃ ax dx, (mov (.byte .dl) x :: printInstrs).foldlM (Machine.exec? p) (m.holding f) =
      some (m.holding
        { f with ax := ax, dx := dx, text := f.text ++ [Char.ofNat b.toNat] }) := by
  have hload : (m.holding f).exec? p (mov (.byte .dl) x) =
      some (m.holding { f with dx := f.dx.extractLsb' 8 8 ++ b }) := by
    rw [Machine.exec?, Machine.move?, hx]
    exact congrArg some (m.holding_set f _ (r := .dx) (by decide))
  obtain ⟨ax, hprint⟩ := exists_exec_printInstrs (p := p) (m := m)
    { f with dx := f.dx.extractLsb' 8 8 ++ b }
  rw [lowCharacter_append] at hprint
  exact ⟨ax, _, (foldlM_exec_cons hload).trans hprint⟩

/-- The sign is printed and the number is negated. -/
theorem exists_exec_sign :
    ∃ dx, ([push .ax, mov (.byte .dl) (char '-')] ++ printInstrs ++
      [pop .ax, neg .ax]).foldlM
      (Machine.exec? p) (m.holding f) =
        some (m.holding { f with ax := -f.ax, dx := dx, flags := .ofSub 0 f.ax,
                                 text := f.text ++ ['-'] }) := by
  have hpush : (m.holding f).exec? p (push .ax) =
      some (m.holding { f with stack := f.ax :: f.stack }) := rfl
  obtain ⟨ax, dx, hprint⟩ :=
    exists_exec_literal (p := p) (m := m) (b := 45#8) (x := char '-')
    { f with stack := f.ax :: f.stack } rfl
  have hpop : (m.holding { f with ax := ax, dx := dx, stack := f.ax :: f.stack,
                                  text := f.text ++ ['-'] }).exec? p (pop .ax) =
      some (m.holding { f with dx := dx, text := f.text ++ ['-'] }) :=
    exec?_pop { f with ax := ax, dx := dx, text := f.text ++ ['-'] }
      (by decide) f.ax f.stack
  have hneg : (m.holding { f with dx := dx, text := f.text ++ ['-'] }).exec? p (neg .ax) =
      some (m.holding { f with ax := -f.ax, dx := dx, flags := .ofSub 0 f.ax,
                               text := f.text ++ ['-'] }) :=
    congrArg some (m.holding_set_setFlags { f with dx := dx, text := f.text ++ ['-'] }
      (-f.ax) _ (r := .ax) (by decide))
  exact ⟨dx, (foldlM_exec_append ((foldlM_exec_cons hpush).trans hprint)).trans
    ((foldlM_exec_cons hpop).trans (foldlM_exec_cons hneg))⟩

/-- The number of digits is zero at first, and they are to be decimal. -/
theorem exists_exec_prepare :
    ∃ flags, [xor (.word .cx) (.word .cx), mov (.word .bx) (dec 10)].foldlM
      (Machine.exec? p)
      (m.holding f) = some (m.holding { f with bx := 10, cx := 0, flags := flags }) := by
  obtain ⟨flags, hclear⟩ := exists_exec_clear (p := p) (m := m) (r := .cx) f (by decide)
  have hten : (m.holding { f with cx := 0, flags := flags }).exec? p
    (mov (.word .bx) (dec 10)) =
      some (m.holding { f with bx := 10, cx := 0, flags := flags }) :=
    congrArg some (m.holding_set { f with cx := 0, flags := flags } 10 (r := .bx)
      (by decide))
  exact ⟨flags, (foldlM_exec_cons hclear).trans (foldlM_exec_cons hten)⟩

/-- A word is divided by ten: the upper half of the dividend is cleared first. -/
theorem exists_exec_divide (hbx : f.bx = 10) :
    ∃ flags, [xor (.word .dx) (.word .dx), div .bx].foldlM (Machine.exec? p)
      (m.holding f) =
      some (m.holding { f with ax := f.ax / 10, dx := f.ax % 10, flags := flags }) := by
  obtain ⟨ax, bx, cx, dx, flags₀, stack, text⟩ := f
  obtain rfl : bx = 10 := hbx
  obtain ⟨flags, hclear⟩ := exists_exec_clear (p := p) (m := m) (r := .dx)
    ⟨ax, 10, cx, dx, flags₀, stack, text⟩ (by decide)
  obtain ⟨flags', hdivide⟩ : ∃ flags',
    (m.holding ⟨ax, 10, cx, 0, flags, stack, text⟩).exec? p
      (div .bx) = some (m.holding ⟨ax / 10, 10, cx, ax % 10, flags', stack, text⟩) := by
    refine ⟨p.undefinedFlags (m.holding ⟨ax, 10, cx, 0, flags, stack, text⟩),
      (divide?_of_dx_eq_zero rfl (show (10 : Word) ≠ 0 by decide)).trans ?_⟩
    rw [m.holding_set _ _ (by decide), m.holding_set_setFlags _ _ _ (by decide)]
    rfl
  exact ⟨flags', (foldlM_exec_cons hclear).trans (foldlM_exec_cons hdivide)⟩

/-- A number below ten in `DX` is made a digit, pushed and counted. -/
theorem exec_pushDigit :
    [add (.byte .dl) (char '0'), push .dx, inc .cx, cmp (.word .ax) (dec 0)].foldlM
        (Machine.exec? p) (m.holding f) =
      some (m.holding { f with cx := f.cx + 1, dx := asDigit f.dx, flags := .ofSub f.ax 0,
                               stack := asDigit f.dx :: f.stack }) := by
  let digit : Workspace :=
    { f with dx := asDigit f.dx, flags := .ofAdd (f.dx.setWidth 8) 48#8 }
  have hadd : (m.holding f).exec? p (add (.byte .dl) (char '0')) =
      some (m.holding digit) :=
    congrArg some (m.holding_set_setFlags f (asDigit f.dx) _ (r := .dx) (by decide))
  let pushed : Workspace := { digit with stack := asDigit f.dx :: f.stack }
  have hpush : (m.holding digit).exec? p (push .dx) = some (m.holding pushed) := rfl
  have hcount : (m.holding pushed).exec? p (inc .cx) =
      some (m.holding { pushed with cx := f.cx + 1, flags := .ofAdd f.cx 1 }) :=
    congrArg some (m.holding_set_setFlags pushed (f.cx + 1) _ (r := .cx) (by decide))
  exact (foldlM_exec_cons hadd).trans
    ((foldlM_exec_cons hpush).trans (foldlM_exec_cons hcount))

/-- One round of the first loop, up to its jump: the lowest digit goes to the stack. -/
theorem exists_exec_divideRound (hbx : f.bx = 10) :
    ∃ w, lowCharacter w = Nat.digitChar (f.ax.toNat % 10) ∧
      ([xor (.word .dx) (.word .dx), div .bx] ++
        [add (.byte .dl) (char '0'), push .dx, inc .cx,
          cmp (.word .ax) (dec 0)]).foldlM (Machine.exec? p) (m.holding f) =
      some (m.holding
        { f with ax := f.ax / 10, cx := f.cx + 1, dx := w,
                 flags := .ofSub (f.ax / 10) 0, stack := w :: f.stack }) := by
  obtain ⟨flags, hdivide⟩ := exists_exec_divide (p := p) (m := m) f hbx
  have hpush := exec_pushDigit (p := p) (m := m)
    { f with ax := f.ax / 10, dx := f.ax % 10, flags := flags }
  refine ⟨asDigit (f.ax % 10), ?_, (foldlM_exec_append hdivide).trans hpush⟩
  exact lowCharacter_asDigit (show f.ax.toNat % 10 < 10 from Nat.mod_lt _ (by decide))

/-- One round of the second loop, up to its jump: a digit is taken off the stack and
printed. -/
theorem exists_exec_printRound (w : Word) (stack : List Word) :
    ∃ ax, (pop .dx :: printInstrs).foldlM (Machine.exec? p)
        (m.holding { f with stack := w :: stack }) =
      some (m.holding { f with ax := ax, dx := w, stack := stack,
                               text := f.text ++ [lowCharacter w] }) := by
  have hpop := exec?_pop (p := p) (m := m) (r := .dx) f (by decide) w stack
  obtain ⟨ax, hprint⟩ := exists_exec_printInstrs (p := p) (m := m)
    { f with dx := w, stack := stack }
  exact ⟨ax, (foldlM_exec_cons hpop).trans hprint⟩

/-- The registers are taken from the stack. -/
theorem exec_restore (ax bx cx dx : Word) (stack : List Word) :
    [pop .dx, pop .cx, pop .bx, pop .ax].foldlM (Machine.exec? p)
        (m.holding { f with stack := dx :: cx :: bx :: ax :: stack }) =
      some (m.holding ⟨ax, bx, cx, dx, f.flags, stack, f.text⟩) := by
  have hdx := exec?_pop (p := p) (m := m) (r := .dx) f (by decide) dx
    (cx :: bx :: ax :: stack)
  have hcx := exec?_pop (p := p) (m := m) (r := .cx) { f with dx := dx } (by decide) cx
    (bx :: ax :: stack)
  have hbx := exec?_pop (p := p) (m := m) (r := .bx) { f with cx := cx, dx := dx }
    (by decide) bx
    (ax :: stack)
  have hax :=
    exec?_pop (p := p) (m := m) (r := .ax) { f with bx := bx, cx := cx, dx := dx }
    (by decide) ax stack
  exact (foldlM_exec_cons hdx).trans ((foldlM_exec_cons hcx).trans
    ((foldlM_exec_cons hbx).trans (foldlM_exec_cons hax)))

/-- The line is ended and the registers are restored. -/
theorem exec_newline (ax bx cx dx : Word) (stack : List Word) :
    (mov (.byte .dl) (hex 0x0d) :: printInstrs ++ mov (.byte .dl) (hex 0x0a) ::
      printInstrs ++ [pop .dx, pop .cx, pop .bx, pop .ax]).foldlM (Machine.exec? p)
        (m.holding { f with stack := dx :: cx :: bx :: ax :: stack }) =
      some (m.holding ⟨ax, bx, cx, dx, f.flags, stack, f.text ++ lineEnd⟩) := by
  obtain ⟨ax₁, dx₁, hreturn⟩ :=
    exists_exec_literal (p := p) (m := m) (x := hex 0x0d) (b := 13#8)
    { f with stack := dx :: cx :: bx :: ax :: stack } rfl
  obtain ⟨ax₂, dx₂, hfeed⟩ :=
    exists_exec_literal (p := p) (m := m) (x := hex 0x0a) (b := 10#8)
    ⟨ax₁, f.bx, f.cx, dx₁, f.flags, dx :: cx :: bx :: ax :: stack, f.text ++ ['\r']⟩ rfl
  have hrestore := exec_restore (p := p) (m := m)
    ⟨ax₂, f.bx, f.cx, dx₂, f.flags, f.stack, f.text ++ ['\r'] ++ ['\n']⟩ ax bx cx dx stack
  refine (foldlM_exec_append ((foldlM_exec_append hreturn).trans hfeed)).trans
    (hrestore.trans ?_)
  rw [List.append_assoc]
  rfl

end Straight

/-! ## Runs -/

section Running

variable {p : Platform} {m : Machine} {program rest : List Code}
  (hnodup : (definedLabels program).Nodup)
    (hsuffix : body .printNumber ++ rest <:+ program)
include hnodup hsuffix

/-- A round of the first loop. The loop is left when nothing but the digit was left. -/
theorem exists_runs_divideRound (f : Workspace) (hbx : f.bx = 10) :
    ∃ w flags, lowCharacter w = Nat.digitChar (f.ax.toNat % 10) ∧
      Runs p program ⟨codeFrom .divide ++ rest, m.holding f⟩
        ⟨codeFrom (if f.ax.toNat < 10 then .print else .divide) ++ rest,
          m.holding { f with ax := f.ax / 10, cx := f.cx + 1, dx := w, flags := flags,
                             stack := w :: f.stack }⟩ := by
  obtain ⟨w, hw, hround⟩ := exists_exec_divideRound (p := p) (m := m) f hbx
  refine ⟨w, .ofSub (f.ax / 10) 0, hw, ?_⟩
  have hjump : Condition.notEqual.holds (.ofSub (f.ax / 10) 0) = !(f.ax / 10 == 0) :=
    Comparison.eq.holds_falseCondition (f.ax / 10) 0
  have hquotient : (f.ax / 10 == 0) = decide (f.ax.toNat < 10) := by
    have hdiv : (f.ax / 10).toNat = f.ax.toNat / 10 := rfl
    rw [Bool.eq_iff_iff, beq_iff_eq, decide_eq_true_iff, ← BitVec.toNat_inj, hdiv]
    show f.ax.toNat / 10 = 0 ↔ _
    omega
  rw [hquotient] at hjump
  have hplace := goto?_place hnodup hsuffix .divide
  rw [codeFrom_divide, List.append_assoc]
  refine (Runs.instrs hround).trans ?_
  by_cases hlt : f.ax.toNat < 10
  · rw [if_pos hlt]
    exact (Runs.jumpIf_of_not_holds hplace (hjump.trans (by simp [hlt]))).trans (.label _)
  · rw [if_neg hlt]
    exact Runs.jumpIf_of_holds hplace (hjump.trans (by simp [hlt]))

/-- The first loop leaves the digits of the number on the stack, the highest on the top,
and their number is added to `CX`. -/
theorem exists_runs_divide (f : Workspace) (hbx : f.bx = 10) :
    ∃ ax dx flags ws, ws.map lowCharacter = Nat.toDigits 10 f.ax.toNat ∧
      Runs p program ⟨codeFrom .divide ++ rest, m.holding f⟩ ⟨codeFrom .print ++ rest,
        m.holding { f with ax := ax, cx := f.cx + BitVec.ofNat 16 ws.length, dx := dx,
                           flags := flags, stack := ws ++ f.stack }⟩ := by
  -- Every round but the last leaves a smaller number.
  induction hn : f.ax.toNat using Nat.strong_induction_on generalizing f with
  | _ n ih =>
    subst hn
    obtain ⟨w, flags, hw, hround⟩ :=
      exists_runs_divideRound (p := p) (m := m) hnodup hsuffix f hbx
    by_cases hlt : f.ax.toNat < 10
    · rw [if_pos hlt] at hround
      refine ⟨_, w, flags, [w], ?_, hround⟩
      rw [Nat.toDigits_of_lt_base hlt, List.map_singleton, hw, Nat.mod_eq_of_lt hlt]
    · rw [if_neg hlt] at hround
      obtain ⟨ax, dx, flags', ws, hws, hrounds⟩ := ih (f.ax.toNat / 10) (by omega)
        { f with ax := f.ax / 10, cx := f.cx + 1, dx := w, flags := flags,
                 stack := w :: f.stack } hbx rfl
      refine ⟨ax, dx, flags', ws ++ [w], ?_, hround.trans ?_⟩
      · have hdigits :=
          Nat.toDigits_of_base_le (b := 10) (by decide) (Nat.le_of_not_lt hlt)
        rw [hdigits, List.map_append, hws, List.map_singleton, hw]
      · have hcount : f.cx + 1 + BitVec.ofNat 16 ws.length =
            f.cx + BitVec.ofNat 16 (ws ++ [w]).length := by
          rw [List.length_append, BitVec.ofNat_add, BitVec.add_assoc]
          exact congrArg (f.cx + ·) (BitVec.add_comm _ _)
        have hstack : ws ++ w :: f.stack = ws ++ [w] ++ f.stack := by simp
        rw [← hcount, ← hstack]
        exact hrounds

/-- A round of the second loop. The loop is left when the count has come down to zero. -/
theorem exists_runs_printRound (f : Workspace) (w : Word) (stack : List Word) :
    ∃ ax, Runs p program ⟨codeFrom .print ++ rest,
      m.holding { f with stack := w :: stack }⟩
      ⟨codeFrom (if f.cx - 1 = 0 then .newline else .print) ++ rest,
        m.holding { f with ax := ax, cx := f.cx - 1, dx := w, stack := stack,
                           text := f.text ++ [lowCharacter w] }⟩ := by
  obtain ⟨ax, hround⟩ := exists_exec_printRound (p := p) (m := m) f w stack
  refine ⟨ax, ?_⟩
  rw [codeFrom_print, List.append_assoc]
  refine (Runs.instrs hround).trans
    ((Runs.loop (goto?_place hnodup hsuffix .print)).trans ?_)
  rw [m.holding_set _ _ (by decide)]
  show Runs p program ⟨if f.cx - 1 = 0 then _ else _, _⟩ _
  by_cases hzero : f.cx - 1 = 0
  · rw [if_pos hzero, if_pos hzero]
    exact .label _
  · rw [if_neg hzero, if_neg hzero]
    exact .refl _

/-- The second loop prints as many words as `CX` counts. -/
theorem exists_runs_print (f : Workspace) (w : Word) (ws stack : List Word)
    (hcx : f.cx.toNat = ws.length + 1) :
    ∃ ax dx,
      Runs p program ⟨codeFrom .print ++ rest,
      m.holding { f with stack := w :: ws ++ stack }⟩
      ⟨codeFrom .newline ++ rest,
        m.holding { f with ax := ax, cx := 0, dx := dx, stack := stack,
                           text := f.text ++ (w :: ws).map lowCharacter }⟩ := by
  have hcount := toNat_sub_one hcx
  induction ws generalizing f w with
  | nil =>
    obtain ⟨ax, hround⟩ :=
      exists_runs_printRound (p := p) (m := m) hnodup hsuffix f w stack
    have hzero : f.cx - 1 = 0 := BitVec.eq_of_toNat_eq hcount
    rw [if_pos hzero, hzero] at hround
    exact ⟨ax, w, hround⟩
  | cons w' ws ih =>
    obtain ⟨ax, hround⟩ := exists_runs_printRound (p := p) (m := m) hnodup hsuffix f w
      (w' :: ws ++ stack)
    have hzero : f.cx - 1 ≠ 0 := by
      intro h
      rw [h] at hcount
      exact absurd hcount (by simp)
    rw [if_neg hzero] at hround
    obtain ⟨ax', dx, hrounds⟩ := ih
      { f with ax := ax, cx := f.cx - 1, dx := w, text := f.text ++ [lowCharacter w] }
      w' hcount (toNat_sub_one hcount)
    rw [List.append_assoc] at hrounds
    exact ⟨ax', dx, hround.trans hrounds⟩

/-- A word is printed without sign. -/
theorem exists_runs_digits (f : Workspace) :
    ∃ ax bx cx dx flags, Runs p program ⟨codeFrom .digits ++ rest, m.holding f⟩
      ⟨codeFrom .newline ++ rest, m.holding ⟨ax, bx, cx, dx, flags, f.stack,
        f.text ++ Nat.toDigits 10 f.ax.toNat⟩⟩ := by
  obtain ⟨flags, hprepare⟩ := exists_exec_prepare (p := p) (m := m) f
  obtain ⟨ax, dx, flags', ws, hws, hdivide⟩ :=
    exists_runs_divide (p := p) (m := m) hnodup hsuffix
    { f with bx := 10, cx := 0, flags := flags } rfl
  have hlength : 0 < ws.length ∧ ws.length ≤ 5 := by
    rw [← List.length_map lowCharacter, hws]
    have hlt := f.ax.isLt
    refine ⟨List.length_pos_iff.mpr Nat.toDigits_ne_nil, ?_⟩
    exact (Nat.length_toDigits_le_iff (by decide) (by decide)).mpr (by omega)
  obtain ⟨w, ws, rfl⟩ := List.exists_cons_of_length_pos hlength.1
  have hcx : (0#16 + BitVec.ofNat 16 (w :: ws).length).toNat = ws.length + 1 := by
    rw [BitVec.zero_add, BitVec.toNat_ofNat]
    exact Nat.mod_eq_of_lt (by omega)
  obtain ⟨ax', dx', hprint⟩ := exists_runs_print (p := p) (m := m) hnodup hsuffix
    ⟨ax, 10, 0 + BitVec.ofNat 16 (w :: ws).length, dx, flags', f.stack, f.text⟩ w ws
      f.stack hcx
  rw [hws] at hprint
  refine ⟨ax', 10, 0, dx', flags', ?_⟩
  rw [codeFrom_digits, List.append_assoc]
  exact (Runs.instrs hprepare).trans ((Runs.label _).trans (hdivide.trans hprint))

/-- Zero is printed without a loop. -/
theorem exists_runs_zero (f : Workspace) :
    ∃ ax dx, Runs p program ⟨codeFrom .zero ++ rest, m.holding f⟩
      ⟨codeFrom .newline ++ rest, m.holding { f with ax := ax, dx := dx,
                                                     text := f.text ++ ['0'] }⟩ := by
  obtain ⟨ax, dx, hprint⟩ :=
    exists_exec_literal (p := p) (m := m) (x := char '0') (b := 48#8) f rfl
  refine ⟨ax, dx, ?_⟩
  rw [codeFrom_zero, List.append_assoc]
  exact (Runs.instrs hprint).trans (Runs.jump (goto?_place hnodup hsuffix .newline))

/-- The word that was compared with zero is printed with its sign. -/
theorem exists_runs_signCode (f : Workspace) (hflags : f.flags = .ofSub f.ax 0) :
    ∃ ax bx cx dx flags,
      Runs p program ⟨signCode ++ (codeFrom .zero ++ rest), m.holding f⟩
      ⟨codeFrom .newline ++ rest, m.holding ⟨ax, bx, cx, dx, flags, f.stack,
        f.text ++ decimal f.ax⟩⟩ := by
  have hgreater : Condition.greater.holds f.flags = !decide (f.ax.toInt ≤ 0) :=
    hflags ▸ Comparison.le.holds_falseCondition f.ax 0
  have hequal : Condition.equal.holds f.flags = !(f.ax != 0) :=
    hflags ▸ Comparison.ne.holds_falseCondition f.ax 0
  have hdigits := goto?_place hnodup hsuffix .digits
  have hzero := goto?_place hnodup hsuffix .zero
  rcases Int.lt_trichotomy f.ax.toInt 0 with hneg | heq | hpos
  · have hne : f.ax ≠ 0#16 := by
      intro h
      rw [h] at hneg
      exact absurd hneg (by decide)
    obtain ⟨dx, hsign⟩ := exists_exec_sign (p := p) (m := m) f
    obtain ⟨ax, bx, cx, dx', flags, hrun⟩ :=
      exists_runs_digits (p := p) (m := m) hnodup hsuffix
      { f with ax := -f.ax, dx := dx, flags := .ofSub 0 f.ax, text := f.text ++ ['-'] }
    refine ⟨ax, bx, cx, dx', flags, ?_⟩
    rw [decimal_of_neg hneg, List.append_cons]
    have hskip : Runs p program ⟨signCode ++ (codeFrom .zero ++ rest), m.holding f⟩ _ :=
      (Runs.jumpIf_of_not_holds hdigits
        (hgreater.trans (by simp [Int.le_of_lt hneg]))).trans
        (Runs.jumpIf_of_not_holds hzero (hequal.trans (by simp [hne])))
    rw [List.append_eq, List.append_assoc] at hskip
    exact hskip.trans ((Runs.instrs hsign).trans ((Runs.jump hdigits).trans hrun))
  · obtain ⟨ax, dx, hrun⟩ := exists_runs_zero (p := p) (m := m) hnodup hsuffix f
    have hword : f.ax = 0 := BitVec.eq_of_toInt_eq heq
    refine ⟨ax, f.bx, f.cx, dx, f.flags, ?_⟩
    rw [hword]
    exact (Runs.jumpIf_of_not_holds hdigits (hgreater.trans (by simp [heq]))).trans
      ((Runs.jumpIf_of_holds hzero (hequal.trans (by simp [hword]))).trans hrun)
  · obtain ⟨ax, bx, cx, dx, flags, hrun⟩ :=
      exists_runs_digits (p := p) (m := m) hnodup hsuffix f
    refine ⟨ax, bx, cx, dx, flags, ?_⟩
    rw [decimal_of_nonneg (Int.le_of_lt hpos)]
    exact (Runs.jumpIf_of_holds hdigits (hgreater.trans (by simp [hpos]))).trans hrun

end Running

/-- Wherever the procedure stands in a program, it comes to its return with nothing
changed but the text and the flags. -/
theorem exists_runs_body (p : Platform) {program rest : List Code}
    (hnodup : (definedLabels program).Nodup)
    (hsuffix : body .printNumber ++ rest <:+ program) (m : Machine) :
    ∃ flags, Runs p program ⟨body .printNumber ++ rest, m⟩ ⟨.instr ret :: rest,
      (m.print (decimal (m.registers .ax) ++ lineEnd)).setFlags flags⟩ := by
  let saved : List Word :=
    m.registers .dx :: m.registers .cx :: m.registers .bx :: m.registers .ax :: m.stack
  have hsave : [push .ax, push .bx, push .cx, push .dx, cmp (.word .ax) (dec 0)].foldlM
      (Machine.exec? p) (m.holding m.workspace) = some (m.holding { m.workspace with
        flags := .ofSub (m.registers .ax) 0, stack := saved }) := rfl
  rw [m.holding_workspace_self] at hsave
  obtain ⟨ax, bx, cx, dx, flags, hprint⟩ :=
    exists_runs_signCode (p := p) (m := m) hnodup hsuffix
      { m.workspace with flags := .ofSub (m.registers .ax) 0, stack := saved } rfl
  have hend := exec_newline (p := p) (m := m)
    ⟨ax, bx, cx, dx, flags, m.stack, decimal (m.registers .ax)⟩ (m.registers .ax)
    (m.registers .bx) (m.registers .cx) (m.registers .dx) m.stack
  refine ⟨flags, ?_⟩
  rw [← m.holding_workspace, body_printNumber, List.append_assoc, List.append_assoc]
  refine (Runs.instrs hsave).trans (hprint.trans ?_)
  rw [codeFrom_newline, List.append_assoc]
  exact Runs.instrs hend

end Procedure

/-! ## The procedures in a listing -/

/-- The code of a line. -/
def Line.code? : Line → Option Code
  | .code c | .procCode c => some c
  | _ => none

/-- The code in lines, in order. -/
def codeIn (lines : List Line) : List Code :=
  lines.filterMap Line.code?

theorem codeIn_append (lines lines' : List Line) :
    codeIn (lines ++ lines') = codeIn lines ++ codeIn lines' :=
  List.filterMap_append

@[simp] theorem codeIn_map_code (code : List Code) : codeIn (code.map .code) = code := by
  rw [codeIn, List.filterMap_map]
  exact List.filterMap_some

@[simp] theorem codeIn_map_procCode (code : List Code) :
    codeIn (code.map .procCode) = code := by
  rw [codeIn, List.filterMap_map]
  exact List.filterMap_some

namespace Procedure

/-- The lines behind the one that starts a procedure. -/
def linesFrom (procedure : Procedure) (lines : List Line) : List Line :=
  (lines.dropWhile (· ≠ .procStart procedure)).tail

/-- The code between the lines that start and end a procedure. -/
def codeOf (procedure : Procedure) (lines : List Line) : List Code :=
  codeIn ((procedure.linesFrom lines).takeWhile (· ≠ .procEnd procedure))

/-- The code behind a procedure. -/
def codeAfter (procedure : Procedure) (lines : List Line) : List Code :=
  codeIn ((procedure.linesFrom lines).dropWhile (· ≠ .procEnd procedure))

/-- The code of a procedure and what is behind it end the code of the lines. -/
theorem codeOf_append_codeAfter_suffix (procedure : Procedure) (lines : List Line) :
    procedure.codeOf lines ++ procedure.codeAfter lines <:+ codeIn lines := by
  rw [codeOf, codeAfter, ← codeIn_append, List.takeWhile_append_dropWhile]
  exact List.IsSuffix.filterMap _ ((List.tail_suffix _).trans (List.dropWhile_suffix _))

/-- Between the lines that start and end a procedure stands its body. -/
theorem codeOf_append_lines {procedure : Procedure} {front : List Line}
    (hfront : .procStart procedure ∉ front) (back : List Line) :
    procedure.codeOf (front ++ (procedure.lines ++ back)) = procedure.body := by
  have hlines : procedure.linesFrom (front ++ (procedure.lines ++ back)) =
      procedure.body.map .procCode ++ .procEnd procedure :: back := by
    rw [linesFrom, List.dropWhile_append_of_pos, lines, List.cons_append,
      List.dropWhile_cons_of_neg (by simp), List.tail_cons, List.append_assoc]
    · rfl
    · intro line hline
      exact decide_eq_true (ne_of_mem_of_not_mem hline hfront)
  rw [codeOf, hlines, List.takeWhile_append_of_pos (by simp),
    List.takeWhile_cons_of_neg (by simp), List.append_nil, codeIn_map_procCode]

end Procedure

namespace Compilation

variable {settings : Settings} {tree : Node} {compiled : Compiled}

/-- The data segment has neither code nor procedures. -/
theorem code?_of_mem_segment {data : StaticData} {labels : DataLabels} {line : Line}
    (h : line ∈ data.segment labels) :
    line.code? = none ∧ ∀ procedure, line ≠ .procStart procedure := by
  rcases StaticData.mem_segment_iff.mp h with
    rfl | ⟨name, -, rfl | ⟨label, -, rfl⟩⟩ | ⟨literal, label, -, rfl⟩ | rfl | rfl
  all_goals exact ⟨rfl, by simp⟩

theorem codeIn_segment (data : StaticData) (labels : DataLabels) :
    codeIn (data.segment labels) = [] := by
  rw [codeIn, List.filterMap_eq_nil_iff]
  exact fun line hline => (code?_of_mem_segment hline).1

/-- In a finished listing, the procedures stand behind the code of the program, and
nothing before them starts a procedure. -/
theorem exists_lines_eq (h : compile settings tree = .ok compiled) :
    ∃ front back, compiled.lines = front ++ (Procedure.allLines ++ back) ∧
      ∀ procedure, .procStart procedure ∉ front := by
  obtain ⟨code, hlines, -⟩ := exists_lines_eq_perm h
  obtain ⟨back, hback⟩ : ∃ back,
      epilogue = [.code (.instr (.jump .programEnd))] ++ (Procedure.allLines ++ back) :=
    ⟨_, rfl⟩
  rw [hback, ← List.append_assoc] at hlines
  refine ⟨_, back, hlines, fun procedure hmem => ?_⟩
  simp only [opening, List.mem_append, or_assoc] at hmem
  rcases hmem with hsegment | hprologue | hcode | hjump
  · exact (code?_of_mem_segment hsegment).2 procedure rfl
  · simp [prologue] at hprologue
  · simp at hcode
  · simp at hjump

/-- The code of a finished listing defines no label twice. -/
theorem nodup_definedLabels_codeIn (h : compile settings tree = .ok compiled) :
    (definedLabels (codeIn compiled.lines)).Nodup := by
  obtain ⟨code, hlines, hperm⟩ := exists_lines_eq_perm h
  have hcode : codeIn compiled.lines =
      codeIn (.blank :: prologue) ++ code ++ codeIn epilogue := by
    rw [hlines, opening, codeIn_append, codeIn_append, codeIn_append, codeIn_segment,
      codeIn_map_code, List.nil_append]
  -- The texts of the labels are symbols of the code, which are distinct.
  refine List.Nodup.of_map CodeLabel.text ?_
  have hfixed :
      List.Sublist ((.start :: definedLabels (codeIn epilogue)).map CodeLabel.text)
        runtimeSymbols := by decide
  have hlabels : (definedLabels (codeIn compiled.lines)).Perm
      (tree.labelsFrom {} ++ .start :: definedLabels (codeIn epilogue)) := by
    rw [hcode, definedLabels_append, definedLabels_append, List.append_assoc]
    exact ((hperm.append_right _).cons .start).trans List.perm_middle.symm
  rw [(hlabels.map CodeLabel.text).nodup_iff, List.map_append]
  exact tree.nodup_codeSymbols.sublist ((List.Sublist.refl _).append hfixed)

end Compilation

namespace Procedure

open Instruction

/-- **Numbers are printed as they are.** Take the lines of the procedures as they are
appended, or a whole finished listing. The code between `PrintNumber PROC` and
`PrintNumber ENDP` comes to its return and has printed the word in `AX` as a signed
decimal number and ended the line. The registers, the stack and the variables are as they
were, whatever the operating system leaves in `AL`; a call can be taken as one step. -/
theorem returns_printed (p : Platform) {lines : List Line}
    (hlines : lines = allLines ∨ ∃ settings tree compiled,
      Compilation.compile settings tree = .ok compiled ∧ lines = compiled.lines)
    (m : Machine) :
    codeOf .printNumber lines = codeOf .printNumber allLines ∧
    ∃ m', Runs p (codeIn lines)
        ⟨codeOf .printNumber lines ++ codeAfter .printNumber lines, m⟩
        ⟨.instr ret :: codeAfter .printNumber lines, m'⟩ ∧
      step? p (codeIn lines) ⟨.instr ret :: codeAfter .printNumber lines, m'⟩ =
        some ⟨[], m'⟩ ∧
      m'.output = m.output ++ (decimal (m.registers .ax) ++ lineEnd) ∧
      m'.registers = m.registers ∧ m'.stack = m.stack ∧ m'.cells = m.cells ∧
      m'.setFlags (p.undefinedFlags m) = m.call p .printNumber := by
  have hbody : codeOf .printNumber allLines = body .printNumber :=
    codeOf_append_lines (by decide) []
  obtain ⟨hcode, hnodup⟩ : codeOf .printNumber lines = body .printNumber ∧
      (definedLabels (codeIn lines)).Nodup := by
    rcases hlines with rfl | ⟨settings, tree, compiled, hcompile, rfl⟩
    · exact ⟨hbody, by decide⟩
    · refine ⟨?_, Compilation.nodup_definedLabels_codeIn hcompile⟩
      obtain ⟨front, back, hlines, hfront⟩ := Compilation.exists_lines_eq hcompile
      rw [hlines, allLines, List.append_assoc, ← List.append_assoc front]
      refine codeOf_append_lines (fun hmem => ?_) back
      rcases List.mem_append.mp hmem with hmem | hmem
      · exact hfront .printNumber hmem
      · exact absurd hmem (by decide)
  have hsuffix := codeOf_append_codeAfter_suffix .printNumber lines
  rw [hcode] at hsuffix ⊢
  obtain ⟨flags, hrun⟩ := exists_runs_body p hnodup hsuffix m
  exact ⟨hbody.symm, _, hrun, rfl, rfl, rfl, rfl, rfl, rfl⟩

/-- The least word, whose magnitude is no signed word, with a system that overwrites
`AL`. -/
theorem returns_printed_least :
    ∃ (p : Platform) (m m' : Machine), m.registers .ax = 0x8000 ∧ m.stack = [1, 2] ∧
      Runs p (codeIn allLines) ⟨codeOf .printNumber allLines, m⟩ ⟨[.instr ret], m'⟩ ∧
      m'.output = "-32768\r\n".toList ∧ m'.registers .ax = 0x8000 ∧
      m'.stack = [1, 2] := by
  have hafter : codeAfter .printNumber allLines = [] := by decide
  obtain ⟨-, m', hrun, -, houtput, hregisters, hstack, -, -⟩ := returns_printed
    ⟨0, fun _ => 0, fun _ => [], fun _ => 0xff, fun _ => ⟨true, true, true⟩⟩ (.inl rfl)
    ⟨fun _ => 0x8000, ⟨false, false, false⟩, [1, 2], fun _ => 7, []⟩
  rw [hafter, List.append_nil] at hrun
  exact ⟨_, _, m', rfl, rfl, hrun, houtput.trans (by decide),
    congrFun hregisters .ax, hstack⟩

end Procedure

end RealMode

import RealMode.Proofs.Machine

/-!
# The stack in generated code

A word is pushed while the other operand of an operator is computed. An operand may be any
tree, so that loops and branches run while words are waiting, and each place of the code
must have one height of the stack whichever way it is reached.

- `StackHeights code height`: an assignment of heights to the places of code that agrees
  with every line, and with every jump and its label.
- `StackHeights.atHeight_of_runs`: along every run, the stack is the stack at the start
  with as many words on it as the height of the place. This is about any code that has
  heights.
- `Lowering.Lowers.level`: generated code can be put at any height, stays at or above it,
  and comes back to it. `Level` also says which labels a piece of code jumps to at its own
  height without defining them, so that pieces can be put together before the labels of a
  construct are in place.
-/

namespace RealMode

/-! ## Heights of places -/

/-- The heights of the stack at the places of code, where the place `i` is before the line
`i` and the last one is after all lines. -/
structure StackHeights (code : List Code) (height : Nat → Nat) : Prop where
  start : height 0 = 0
  finish : height code.length = 0
  push : ∀ i r, code[i]? = some (.instr (.push r)) → height (i + 1) = height i + 1
  pop : ∀ i r, code[i]? = some (.instr (.pop r)) → 1 ≤ height i ∧
    height (i + 1) = height i - 1
  keep : ∀ i c, code[i]? = some c → (∀ r, c ≠ .instr (.push r) ∧ c ≠ .instr (.pop r)) →
    height (i + 1) = height i
  /-- A jump goes to a label that is there once, at the height of the jump. -/
  jump : ∀ i c l, code[i]? = some c → c.target? = some l →
    ∃ j, code[j]? = some (.label l) ∧ height j = height i ∧
      ∀ j', code[j']? = some (.label l) → j' = j
  /-- The code is left at its end only. -/
  stays : .instr .ret ∉ code

/-! ## What a step does to the stack -/

namespace Machine

variable {p : Platform} {m m' : Machine}

@[simp] theorem stack_setByte (m : Machine) (b : BitVec 8) (r : ByteRegister) :
    (m.setByte b r).stack = m.stack := by
  cases r <;> rfl

/-- Storing leaves the stack as it is. -/
theorem stack_of_store? {w : Word} {target : Operand} (h : m.store? w target = some m') :
    m'.stack = m.stack := by
  cases target with
  | word r | cell name =>
    obtain rfl := Option.some.inj h
    rfl
  | byte | number | dataSegment => cases h

/-- Moving leaves the stack as it is. -/
theorem stack_of_move? {target source : Operand} (h : m.move? p target source = some m') :
    m'.stack = m.stack := by
  unfold move? at h
  split at h
  · obtain ⟨b, -, rfl⟩ := Option.map_eq_some_iff.mp h
    exact stack_setByte ..
  · obtain ⟨w, -, hstore⟩ := Option.bind_eq_some_iff.mp h
    exact stack_of_store? hstore

/-- Computing into an operand leaves the stack as it is. -/
theorem stack_of_combine? {f : ∀ {w}, BitVec w → BitVec w → BitVec w}
    {flags : ∀ {w}, BitVec w → BitVec w → Flags} {target source : Operand}
    (h : m.combine? p f flags target source = some m') : m'.stack = m.stack := by
  unfold combine? at h
  split at h
  · obtain ⟨b, -, rfl⟩ := Option.map_eq_some_iff.mp h
    exact stack_setByte ..
  · obtain ⟨a, -, h⟩ := Option.bind_eq_some_iff.mp h
    obtain ⟨b, -, h⟩ := Option.bind_eq_some_iff.mp h
    obtain ⟨m₁, hstore, h⟩ := Option.bind_eq_some_iff.mp h
    obtain rfl := Option.some.inj h
    rw [stack_setFlags]
    exact stack_of_store? hstore

theorem stack_of_compare? {flags : ∀ {w}, BitVec w → BitVec w → Flags}
    {left right : Operand} (h : m.compare? p flags left right = some m') :
    m'.stack = m.stack := by
  unfold compare? at h
  split at h
  · obtain ⟨b, -, rfl⟩ := Option.map_eq_some_iff.mp h
    rfl
  · obtain ⟨a, -, h⟩ := Option.bind_eq_some_iff.mp h
    obtain ⟨b, -, h⟩ := Option.bind_eq_some_iff.mp h
    obtain rfl := Option.some.inj h
    rfl

theorem stack_of_divide? {divisor : Word} (h : m.divide? p divisor = some m') :
    m'.stack = m.stack := by
  simp only [divide?] at h
  split at h
  · cases h
  · obtain rfl := Option.some.inj h
    rfl

theorem stack_of_interrupt? {vector : Int} (h : m.interrupt? p vector = some m') :
    m'.stack = m.stack := by
  unfold interrupt? at h
  split at h
  · split at h
    · obtain rfl := Option.some.inj h
      rfl
    · obtain rfl := Option.some.inj h
      rfl
    · cases h
  · cases h

/-- Only `PUSH` and `POP` change the stack. -/
theorem stack_of_exec? {i : Instruction} (h : m.exec? p i = some m')
    (hi : ∀ r, i ≠ .push r ∧ i ≠ .pop r) : m'.stack = m.stack := by
  cases i with
  | push r => exact absurd rfl (hi r).1
  | pop r => exact absurd rfl (hi r).2
  | mov => exact stack_of_move? h
  | add | sub | xor =>
    rw [exec?] at h
    exact stack_of_combine? h
  | cmp => exact stack_of_compare? h
  | div => exact stack_of_divide? h
  | interrupt => exact stack_of_interrupt? h
  | lea | mul | inc | neg =>
    obtain rfl := Option.some.inj h
    rfl
  | call procedure =>
    obtain rfl := Option.some.inj h
    cases procedure <;> rfl
  | jump | jumpIf | loop | ret => cases h

end Machine

/-- What a step does at a line: the stack before it, the code to be run next, and the
stack then. -/
inductive StackStep (program rest : List Code) :
    Code → List Word → List Code → List Word → Prop
  | push {r w stack} : StackStep program rest (.instr (.push r)) stack rest (w :: stack)
  | pop {r w stack} : StackStep program rest (.instr (.pop r)) (w :: stack) rest stack
  | keep {c stack} : (∀ r, c ≠ .instr (.push r) ∧ c ≠ .instr (.pop r)) →
      StackStep program rest c stack rest stack
  | jump {c l place stack} : c.target? = some l → goto? program l = some place →
      StackStep program rest c stack place stack
  | ret {stack} : StackStep program rest (.instr .ret) stack [] stack

namespace StackStep

variable {p : Platform} {program rest rest' : List Code} {m m' : Machine}

/-- An instruction that neither jumps nor halts goes on to the next line. -/
theorem of_exec? {i : Instruction}
    (h : (m.exec? p i).map (Position.mk rest) = some ⟨rest', m'⟩) :
    StackStep program rest (.instr i) m.stack rest' m'.stack := by
  obtain ⟨m₁, hexec, heq⟩ := Option.map_eq_some_iff.mp h
  obtain ⟨rfl, rfl⟩ := Position.mk.inj heq
  cases i with
  | push r =>
    obtain rfl := Option.some.inj hexec
    exact .push
  | pop r =>
    rw [Machine.exec?] at hexec
    split at hexec
    · cases hexec
    · rename_i w stack hstack
      obtain rfl := Option.some.inj hexec
      rw [hstack]
      exact .pop
  | _ =>
    rw [Machine.stack_of_exec? hexec fun r => ⟨by simp, by simp⟩]
    exact .keep fun r => ⟨by simp, by simp⟩

/-- A jump goes to the line of its label, with the stack as it is. -/
theorem of_goto? {c : Code} {l : CodeLabel} {m₁ : Machine} (htarget : c.target? = some l)
    (h : (goto? program l).map (Position.mk · m₁) = some ⟨rest', m'⟩) :
    StackStep program rest c m₁.stack rest' m'.stack := by
  obtain ⟨place, hplace, heq⟩ := Option.map_eq_some_iff.mp h
  obtain ⟨rfl, rfl⟩ := Position.mk.inj heq
  exact .jump htarget hplace

/-- What one step does to the line and the stack. -/
theorem of_step? {c : Code} (h : step? p program ⟨c :: rest, m⟩ = some ⟨rest', m'⟩) :
    StackStep program rest c m.stack rest' m'.stack := by
  rcases c with l | i
  · obtain ⟨rfl, rfl⟩ := Position.mk.inj (Option.some.inj h)
    exact .keep fun r => ⟨by simp, by simp⟩
  cases i with
  | jump target => exact of_goto? rfl h
  | jumpIf condition target =>
    simp only [step?] at h
    split at h
    · exact of_goto? rfl h
    · obtain ⟨rfl, rfl⟩ := Position.mk.inj (Option.some.inj h)
      exact .keep fun r => ⟨by simp, by simp⟩
  | loop target =>
    -- Counting down leaves the stack alone.
    simp only [step?] at h
    rw [← m.stack_set .cx (m.registers .cx - 1)]
    split at h
    · obtain ⟨rfl, rfl⟩ := Position.mk.inj (Option.some.inj h)
      exact .keep fun r => ⟨by simp, by simp⟩
    · exact of_goto? rfl h
  | ret =>
    obtain ⟨rfl, rfl⟩ := Position.mk.inj (Option.some.inj h)
    exact .ret
  | _ => exact of_exec? (p := p) h

end StackStep

/-! ## Runs -/

/-- A jump lands after a line with its label. -/
theorem exists_label_of_goto? {program place : List Code} {target : CodeLabel}
    (h : goto? program target = some place) :
    ∃ j, program[j]? = some (.label target) ∧ place = program.drop (j + 1) := by
  induction program with
  | nil => cases h
  | cons c rest ih =>
    have hlater : goto? rest target = some place →
        ∃ j, (c :: rest)[j]? = some (.label target) ∧
        place = (c :: rest).drop (j + 1) := by
      intro hrest
      obtain ⟨j, hlabel, hplace⟩ := ih hrest
      exact ⟨j + 1, hlabel, hplace⟩
    cases c with
    | instr i => exact hlater h
    | label l =>
      rw [goto?] at h
      split at h
      · rename_i heq
        subst heq
        exact ⟨0, rfl, (Option.some.inj h).symm⟩
      · exact hlater h

/-- The stack at a place is `base` with as many words on it as the height of the place. -/
def AtHeight (code : List Code) (height : Nat → Nat) (base : List Word)
    (position : Position) :
    Prop :=
  ∃ i, i ≤ code.length ∧ position.code = code.drop i ∧
    ∃ pushed, pushed.length = height i ∧ position.machine.stack = pushed ++ base

namespace StackHeights

variable {p : Platform} {code : List Code} {height : Nat → Nat} {base : List Word}

/-- A step keeps the stack at the height of the line it stands at. -/
theorem atHeight_of_step? (hheights : StackHeights code height)
    {position position' : Position} (hat : AtHeight code height base position)
    (hstep : step? p code position = some position') :
    AtHeight code height base position' := by
  obtain ⟨rest₀, m⟩ := position
  obtain ⟨rest', m'⟩ := position'
  obtain ⟨i, hi, hcode, pushed, hlength, hstack⟩ := hat
  dsimp only at hcode hstack
  cases rest₀ with
  | nil => cases hstep
  | cons c rest =>
    have hline : code[i]? = some c := by
      have := congrArg List.head? hcode
      simpa using this.symm
    have hrest : rest = code.drop (i + 1) := by
      have := congrArg List.tail hcode
      simpa using this
    have hnext : i + 1 ≤ code.length := (List.getElem?_eq_some_iff.mp hline).1
    have hmoves := StackStep.of_step? hstep
    rw [hstack] at hmoves
    generalize hbefore : pushed ++ base = before, hafter : m'.stack = after at hmoves
    cases hmoves with
    | @push r w _ =>
      refine ⟨i + 1, hnext, hrest, w :: pushed, ?_,
        hafter.trans (congrArg _ hbefore.symm)⟩
      rw [hheights.push i r hline, List.length_cons, hlength]
    | @pop r w _ =>
      -- The word that is popped was pushed in this code.
      obtain ⟨hpos, hlower⟩ := hheights.pop i r hline
      cases pushed with
      | nil => exact absurd hlength (Nat.ne_of_lt hpos)
      | cons w' pushed =>
        have htail : pushed ++ base = after := (List.cons.inj hbefore).2
        refine ⟨i + 1, hnext, hrest, pushed, ?_, hafter.trans htail.symm⟩
        rw [hlower, ← hlength, List.length_cons, Nat.add_sub_cancel]
    | keep hkeep =>
      refine ⟨i + 1, hnext, hrest, pushed, ?_, hafter.trans hbefore.symm⟩
      rw [hheights.keep i c hline hkeep, hlength]
    | @jump _ l _ _ htarget hgoto =>
      obtain ⟨j, hlabel, hheight, honly⟩ := hheights.jump i c l hline htarget
      obtain ⟨j', hlabel', hplace⟩ := exists_label_of_goto? hgoto
      obtain rfl := honly j' hlabel'
      refine ⟨j' + 1, (List.getElem?_eq_some_iff.mp hlabel).1, hplace, pushed, ?_,
        hafter.trans hbefore.symm⟩
      rw [hheights.keep j' _ hlabel fun r => ⟨by simp, by simp⟩, hheight, hlength]
    | ret => exact absurd (List.mem_of_getElem? hline) hheights.stays

/-- Along every run, the stack is the one at the start with the words of the place on
it. -/
theorem atHeight_of_runs (hheights : StackHeights code height) {m : Machine}
    {position : Position} (hruns : Runs p code ⟨code, m⟩ position) :
    AtHeight code height m.stack position := by
  induction hruns with
  | refl => exact ⟨0, Nat.zero_le _, rfl, [], hheights.start.symm, rfl⟩
  | tail _ hstep ih => exact hheights.atHeight_of_step? ih hstep

/-- Nothing is left on the stack at the end. -/
theorem stack_eq_of_atHeight (hheights : StackHeights code height) {position : Position}
    (hat : AtHeight code height base position) (hend : position.code = []) :
    position.machine.stack = base := by
  obtain ⟨i, hi, hcode, pushed, hlength, hstack⟩ := hat
  rw [hend] at hcode
  have hlast : i = code.length := Nat.le_antisymm hi (List.drop_eq_nil_iff.mp hcode.symm)
  rw [hlast, hheights.finish] at hlength
  rw [hstack, List.length_eq_zero_iff.mp hlength, List.nil_append]

end StackHeights

/-! ## Code at a height -/

/-- The height after a line, by the height before it. -/
def Code.nextHeight (height : Nat) : Code → Nat
  | .instr (.push _) => height + 1
  | .instr (.pop _) => height - 1
  | _ => height

/-- The height after lines that are gone through in order. -/
def heightAfter (height : Nat) (code : List Code) : Nat :=
  code.foldl Code.nextHeight height

/-- The lines of code, each with the height before it. -/
def heights (height : Nat) : List Code → List (Nat × Code)
  | [] => []
  | c :: rest => (height, c) :: heights (c.nextHeight height) rest

/-- The second part starts at the height the first ends at. -/
theorem heightAfter_append (height : Nat) (code₁ code₂ : List Code) :
    heightAfter height (code₁ ++ code₂) = heightAfter (heightAfter height code₁) code₂ :=
  List.foldl_append

/-- So the heights of joined code are those of the parts. -/
theorem heights_append (height : Nat) (code₁ code₂ : List Code) :
    heights height (code₁ ++ code₂) =
      heights height code₁ ++ heights (heightAfter height code₁) code₂ := by
  induction code₁ generalizing height with
  | nil => rfl
  | cons c rest ih =>
    rw [List.cons_append, heights, ih, heights, List.cons_append]
    rfl

/-- The height before a line is what the lines before it come to. -/
theorem getElem?_heights (height : Nat) (code : List Code) (i : Nat) :
    (heights height code)[i]? = code[i]?.map (heightAfter height (code.take i), ·) := by
  induction code generalizing height i with
  | nil => rfl
  | cons c rest ih =>
    cases i with
    | zero => rfl
    | succ i => exact ih (c.nextHeight height) i

theorem heightAfter_take_succ {height : Nat} {code : List Code} {i : Nat} {c : Code}
    (h : code[i]? = some c) : heightAfter height (code.take (i + 1)) =
      c.nextHeight (heightAfter height (code.take i)) := by
  rw [List.take_add_one, h, heightAfter_append]
  rfl

/-- Lines that leave the height alone and do not leave the code. -/
def Code.isSteady : Code → Bool
  | .instr (.push _) | .instr (.pop _) | .instr .ret => false
  | _ => true

/-- `Level height out own code`: put at the given height, the code comes back to it and
pops only what it has pushed. A jump goes to a label at its own height, or it is at the
given height and goes to one of `out`, which stand elsewhere. The labels `own` are defined
at the given height. -/
structure Level (height : Nat) (out own : List CodeLabel) (code : List Code) : Prop where
  returns : heightAfter height code = height
  pops : ∀ k r, (k, .instr (.pop r)) ∈ heights height code → height < k
  stays : .instr .ret ∉ code
  labels : ∀ l ∈ own, (height, .label l) ∈ heights height code
  jumps : ∀ k c l, (k, c) ∈ heights height code → c.target? = some l →
    (k, .label l) ∈ heights height code ∨ k = height ∧ l ∈ out

namespace Level

variable {height : Nat} {out out₁ out₂ own own₁ own₂ : List CodeLabel}
  {code code₁ code₂ : List Code}

/-- Steady lines are all at the height of the first. -/
theorem heights_of_isSteady (height : Nat) (h : code.all Code.isSteady = true) :
    heights height code = code.map (height, ·) ∧ heightAfter height code = height := by
  induction code with
  | nil => exact ⟨rfl, rfl⟩
  | cons c rest ih =>
    rw [List.all_cons, Bool.and_eq_true] at h
    obtain ⟨hc, hrest⟩ := h
    have hnext : c.nextHeight height = height := by
      unfold Code.isSteady at hc
      unfold Code.nextHeight
      split <;> simp_all
    obtain ⟨ih₁, ih₂⟩ := ih hrest
    constructor
    · rw [heights, hnext, ih₁, List.map_cons]
    · rw [heightAfter, List.foldl_cons, hnext]
      exact ih₂

/-- Code that neither pushes nor pops stays at its height. -/
theorem steady (h : code.all Code.isSteady = true) (hout : jumpTargets code = out)
    (hown : definedLabels code = own) : Level height out own code := by
  subst hout hown
  obtain ⟨hheights, hreturns⟩ := heights_of_isSteady height h
  have hmem : ∀ {k c}, (k, c) ∈ heights height code ↔ k = height ∧ c ∈ code := by
    intro k c
    rw [hheights, List.mem_map]
    constructor
    · rintro ⟨_, hc, heq⟩
      obtain ⟨rfl, rfl⟩ := Prod.mk.inj heq
      exact ⟨rfl, hc⟩
    · rintro ⟨rfl, hc⟩
      exact ⟨c, hc, rfl⟩
  have hsteady : ∀ c ∈ code, c.isSteady = true := List.all_eq_true.mp h
  refine { returns := hreturns, pops := ?_, stays := ?_, labels := ?_, jumps := ?_ }
  · intro k r hpop
    exact absurd (hsteady _ (hmem.mp hpop).2) (by simp [Code.isSteady])
  · intro hret
    exact absurd (hsteady _ hret) (by simp [Code.isSteady])
  · intro l hl
    obtain ⟨c, hc, hlabel⟩ := List.mem_filterMap.mp hl
    cases c with
    | instr i => cases hlabel
    | label l' =>
      obtain rfl := Option.some.inj hlabel
      exact hmem.mpr ⟨rfl, hc⟩
  · intro k c l hjump htarget
    obtain ⟨hk, hc⟩ := hmem.mp hjump
    exact .inr ⟨hk, List.mem_filterMap.mpr ⟨c, hc, htarget⟩⟩

/-- Code that comes back to its height can be followed by more at that height. -/
theorem append (h₁ : Level height out₁ own₁ code₁) (h₂ : Level height out₂ own₂ code₂) :
    Level height (out₁ ++ out₂) (own₁ ++ own₂) (code₁ ++ code₂) := by
  have hheights :
      heights height (code₁ ++ code₂) = heights height code₁ ++ heights height code₂ := by
    rw [heights_append, h₁.returns]
  refine { returns := ?_, pops := ?_, stays := ?_, labels := ?_, jumps := ?_ }
  · rw [heightAfter_append, h₁.returns, h₂.returns]
  · intro k r hpop
    rw [hheights] at hpop
    exact (List.mem_append.mp hpop).elim (h₁.pops k r) (h₂.pops k r)
  · intro hret
    exact (List.mem_append.mp hret).elim h₁.stays h₂.stays
  · intro l hl
    rw [hheights]
    exact List.mem_append.mpr ((List.mem_append.mp hl).imp (h₁.labels l) (h₂.labels l))
  · intro k c l hjump htarget
    rw [hheights] at hjump ⊢
    rw [List.mem_append, List.mem_append]
    rcases List.mem_append.mp hjump with hjump | hjump
    · exact (h₁.jumps k c l hjump htarget).imp .inl fun h => ⟨h.1, .inl h.2⟩
    · exact (h₂.jumps k c l hjump htarget).imp .inr fun h => ⟨h.1, .inr h.2⟩

/-- A steady line may be put in front. -/
theorem line {c : Code} (hc : c.isSteady = true) (h : Level height out own code) :
    Level height (jumpTargets [c] ++ out) (definedLabels [c] ++ own) (c :: code) :=
  (steady (by rw [List.all_cons, hc]; rfl) rfl rfl).append h

/-- A construct is complete when it defines the labels that it jumps to. -/
theorem close (h : Level height out own code) (hout : ∀ l ∈ out, l ∈ own) :
    Level height [] [] code := by
  refine { returns := h.returns, pops := h.pops, stays := h.stays, labels :=
    nofun, jumps := ?_ }
  intro k c l hjump htarget
  rcases h.jumps k c l hjump htarget with hlabel | ⟨rfl, hl⟩
  · exact .inl hlabel
  · exact .inl (h.labels l (hout l hl))

/-- Complete code can run one higher while a word waits on the stack. -/
theorem bracket (h : Level (height + 1) [] [] code) (r r' : Register) :
    Level height [] [] (.instr (.push r) :: (code ++ [.instr (.pop r')])) := by
  have hheights : heights height (.instr (.push r) :: (code ++ [.instr (.pop r')])) =
      (height, .instr (.push r)) :: (heights (height + 1) code ++
        [(height + 1, .instr (.pop r'))]) := by
    rw [heights, Code.nextHeight, heights_append, h.returns]
    rfl
  -- The two lines of its own neither jump nor end the code.
  have hmem : ∀ {k c},
    (k, c) ∈ heights height (.instr (.push r) :: (code ++ [.instr (.pop r')])) ↔
      (k, c) = (height, .instr (.push r)) ∨ (k, c) ∈ heights (height + 1) code ∨
        (k, c) = (height + 1, .instr (.pop r')) := by
    intro k c
    rw [hheights, List.mem_cons, List.mem_append, List.mem_singleton]
  refine { returns := ?_, pops := ?_, stays := ?_, labels := nofun, jumps := ?_ }
  · show heightAfter (height + 1) (code ++ [.instr (.pop r')]) = height
    rw [heightAfter_append, h.returns]
    rfl
  · intro k r'' hpop
    rcases hmem.mp hpop with heq | hpop | heq
    · cases heq
    · exact Nat.lt_of_succ_lt (h.pops k r'' hpop)
    · cases heq
      exact Nat.lt_succ_self height
  · intro hret
    rcases List.mem_cons.mp hret with heq | hret
    · cases heq
    · rcases List.mem_append.mp hret with hret | hret
      · exact h.stays hret
      · cases List.mem_singleton.mp hret
  · intro k c l hjump htarget
    rcases hmem.mp hjump with heq | hjump | heq
    · cases heq
      cases htarget
    · exact (h.jumps k c l hjump htarget).imp
        (fun hlabel => hmem.mpr (.inr (.inl hlabel)))
        fun h => nomatch h.2
    · cases heq
      cases htarget

/-- A label of code without repeated labels is at one place. -/
theorem eq_of_getElem?_label {l : CodeLabel} (hnodup : (definedLabels code).Nodup)
    {i j : Nat} (hi : code[i]? = some (.label l)) (hj : code[j]? = some (.label l)) :
    i = j := by
  have hpairs := List.pairwise_filterMap.mp hnodup
  have hne : ∀ {i j : Nat}, i < j → code[i]? = some (.label l) →
      code[j]? ≠ some (.label l) := by
    intro i j hlt hi hj
    obtain ⟨hi', hi⟩ := List.getElem?_eq_some_iff.mp hi
    obtain ⟨hj', hj⟩ := List.getElem?_eq_some_iff.mp hj
    have := List.pairwise_iff_getElem.mp hpairs i j hi' hj' hlt
    rw [hi, hj] at this
    exact this l rfl l rfl rfl
  rcases Nat.lt_trichotomy i j with hlt | heq | hgt
  · exact absurd hj (hne hlt hi)
  · exact heq
  · exact absurd hi (hne hgt hj)

/-- Complete code has heights: those that its lines come to from 0. -/
theorem stackHeights (h : Level 0 [] [] code) (hnodup : (definedLabels code).Nodup) :
    StackHeights code fun i => heightAfter 0 (code.take i) := by
  have hat : ∀ {i c}, code[i]? = some c →
      (heightAfter 0 (code.take i), c) ∈ heights 0 code := by
    intro i c hline
    refine List.mem_of_getElem? (i := i) ?_
    rw [getElem?_heights, hline]
    rfl
  refine { start := rfl, finish := ?_, push := ?_, pop := ?_, keep := ?_, jump := ?_,
           stays := h.stays }
  · rw [List.take_length, h.returns]
  · intro i r hline
    exact heightAfter_take_succ hline
  · intro i r hline
    exact ⟨h.pops _ r (hat hline), heightAfter_take_succ hline⟩
  · intro i c hline hkeep
    rw [heightAfter_take_succ hline]
    unfold Code.nextHeight
    split
    · exact absurd rfl (hkeep _).1
    · exact absurd rfl (hkeep _).2
    · rfl
  · intro i c l hline htarget
    rcases h.jumps _ c l (hat hline) htarget with hlabel | ⟨-, hout⟩
    · obtain ⟨j, hj⟩ := List.mem_iff_getElem?.mp hlabel
      rw [getElem?_heights] at hj
      obtain ⟨c', hc', heq⟩ := Option.map_eq_some_iff.mp hj
      obtain ⟨hheight, rfl⟩ := Prod.mk.inj heq
      exact ⟨j, hc', hheight, fun j' hj' => eq_of_getElem?_label hnodup hj' hc'⟩
    · cases hout

end Level

/-! ## Generated code -/

namespace Lowering

variable {ctx : Context} {height : Nat}

theorem level_materialize (flags : Option Comparison) (s : Session) :
    Level height [] [] (materialize flags s).code := by
  cases flags with
  | none => exact .steady rfl rfl rfl
  | some c =>
    have h : Level height [.boolEnd (s.counters.get .boolean)]
      [.boolEnd (s.counters.get .boolean)]
        (materialize (some c) s).code := .steady rfl rfl rfl
    exact h.close fun _ => id

/-- A branch leaves the stack level and jumps to its target. -/
theorem level_branchUnless (target : CodeLabel) (flags : Option Comparison)
    (s : Session) :
    Level height [target] [] (branchUnless target flags s).code := by
  cases flags <;> exact .steady rfl rfl rfl

theorem level_operatorInstrs (op : BinaryOp) :
    Level height [] [] ((operatorInstrs op).map .instr) := by
  rcases op with a | c
  · cases a <;> exact .steady rfl rfl rfl
  · exact .steady rfl rfl rfl

/-- The right operand runs one higher than the left one. -/
theorem level_operator {op : BinaryOp} {code₁ code₂ : List Code}
    (h₁ : Level height [] [] code₁) (h₂ : Level (height + 1) [] [] code₂) :
    Level height [] [] (code₁ ++ .instr (.push .ax) ::
      (code₂ ++ List.map .instr ([.mov bx ax, .pop .ax] ++ operatorInstrs op))) := by
  have hmove : Level (height + 1) [] [] [.instr (.mov bx ax)] := .steady rfl rfl rfl
  have hbracket := (h₂.append hmove).bracket .ax .ax
  simpa using h₁.append (hbracket.append (level_operatorInstrs op))

theorem level_storeWord (target message : String) (kind : ValueKind) (s : Session) :
    Level height [] [] (storeWord ctx target message kind s).code := by
  unfold storeWord
  split <;> exact .steady rfl rfl rfl

/-- The code of a tree is complete, at whatever height it is put. -/
theorem Lowers.level {level : Nat} {inChain : Bool} {tree : Node} {s s' : Session}
    {code : List Code} {warnings : List Warning} {flags : Option Comparison}
    (h : Lowers ctx level inChain tree s code warnings s' flags) :
    ∀ height, Level height [] [] code := by
  induction h with
  | number | string | boolean | identifier | unknown | assignLiteral =>
    intro height
    exact .steady rfl rfl rfl
  | operator _ _ _ ihl ihr =>
    intro height
    exact level_operator ((ihl height).append (level_materialize ..))
      ((ihr (height + 1)).append (level_materialize ..))
  | assignWord _ _ _ _ ih =>
    intro height
    exact ((ih height).append (level_materialize _ _)).append (level_storeWord _ _ _ _)
  | last _ _ ih => exact ih
  | chain _ _ _ ih₁ ih₂ =>
    intro height
    exact (ih₁ height).append (ih₂ height)
  | ifThen _ _ _ _ ihc ihb =>
    intro height
    refine Level.close
      ((((ihc height).append (level_branchUnless ..)).append (ihb height)).append
      (.steady rfl rfl rfl)) ?_
    simp [Instruction.target?]
  | ifElse _ _ _ _ _ ihc ihb iha =>
    intro height
    refine Level.close
      ((((ihc height).append (level_branchUnless ..)).append (ihb height)).append
      (.line rfl (.line rfl ((iha height).append (.steady rfl rfl rfl))))) ?_
    simp [Instruction.target?]
  | whileLoop _ _ _ _ ihc ihb =>
    intro height
    refine Level.close (.line rfl ((((ihc height).append (level_branchUnless ..)).append
      (ihb height)).append (.steady rfl rfl rfl))) ?_
    simp [Instruction.target?]
  | forLoop _ _ _ _ _ _ ihi ihc ihb ihs =>
    intro height
    refine Level.close ((ihi height).append (.line rfl ((((ihc height).append
      (level_branchUnless ..)).append ((ihb height).append (ihs height))).append
        (.steady rfl rfl rfl)))) ?_
    simp [Instruction.target?]

/-- The code of a whole program is level, and its jumps stay inside it. -/
theorem level_program {tree : Option Node} {s : Session}
    (hok : (program ctx tree s).result = .ok ()) :
    Level 0 [] [] (program ctx tree s).code := by
  cases tree with
  | none => exact .steady rfl rfl rfl
  | some tree =>
    obtain ⟨flags, hnode⟩ := node_eq_of_program_ok hok
    exact (lowers_of_node_eq hnode).level 0

/-- **Stack discipline.** Where a tree is lowered to the end, from whatever session, the
places of its code have heights: 0 at both ends, raised by each `PUSH`, lowered by each
`POP` and never below 0, and the same at a jump and at its label. So on every machine,
wherever a run of the code has come to, the stack is the one at the start with as many
words on it as the height there, and at the end it is the one at the start. -/
theorem exists_stackHeights_program (ctx : Context) (tree : Option Node) (s : Session)
    (hok : (program ctx tree s).result = .ok ()) :
    ∃ height, StackHeights (program ctx tree s).code height ∧
      ∀ (p : Platform) (m : Machine) (position : Position),
        Runs p (program ctx tree s).code ⟨(program ctx tree s).code, m⟩ position →
          AtHeight (program ctx tree s).code height m.stack position ∧
            (position.code = [] → position.machine.stack = m.stack) := by
  have hheights :=
    (level_program hok).stackHeights (nodup_definedLabels_program ctx tree s)
  refine ⟨_, hheights, fun p m position hruns => ?_⟩
  have hat := hheights.atHeight_of_runs hruns
  exact ⟨hat, hheights.stack_eq_of_atHeight hat⟩

/-- A loop in the right operand of a sum: it starts over and ends while the left one is
waiting. -/
theorem exists_stackHeights_program_loopOperand :
    (program ⟨⟨"new_line", ∅, ∅⟩, {}⟩ (some (.operator (.arith .add) (.boolean true)
      (.whileLoop (.boolean false) (.boolean true)))) ⟨.empty, ⟨2, 3, 4, 5⟩⟩).result =
      .ok () ∧
    ∃ height, StackHeights
      ([.instr (.mov ax (imm 1)), .instr (.push .ax), .label (.whileStart 3),
        .instr (.mov ax (imm 0)), .instr (.cmp ax (imm 0)),
        .instr (.jumpIf .equal (.whileEnd 3)), .instr (.mov ax (imm 1)),
        .instr (.jump (.whileStart 3)), .label (.whileEnd 3), .instr (.mov bx ax),
        .instr (.pop .ax), .instr (.add ax bx)] : List Code) height := by
  refine ⟨rfl, ?_⟩
  obtain ⟨height, hheights, -⟩ := exists_stackHeights_program ⟨⟨"new_line", ∅, ∅⟩, {}⟩
    (some (.operator (.arith .add) (.boolean true)
      (.whileLoop (.boolean false) (.boolean true))))
    ⟨.empty, ⟨2, 3, 4, 5⟩⟩ rfl
  exact ⟨height, hheights⟩

end Lowering

end RealMode

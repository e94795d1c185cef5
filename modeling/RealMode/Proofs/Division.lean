import RealMode.Proofs.Expressions

/-!
# Division and signs

Words are signed where they are written, compared and printed. Division is the exception:
the upper half of the dividend is cleared and `DIV` takes both operands as numbers without
sign, so that a negative operand counts as itself plus `65536`.

- `toInt_udiv_eq_tdiv_iff` says for which words this is the signed quotient all the same,
  by cases on the signs: always for two words that are not negative, and hardly ever for
  others.
- `exists_runs_division`: the code of a division leaves the quotient without sign.
- `signed_quotient_iff` puts them together.
-/

namespace RealMode

/-! ## Quotients of words -/

section Quotients

variable {a b : Word}

/-- Two words that are not negative are divided as they are. -/
theorem toInt_udiv_of_nonneg (ha : 0 ≤ a.toInt) (hb : 0 ≤ b.toInt) :
    (a / b).toInt = a.toInt.tdiv b.toInt := by
  have hle : (a / b).toNat ≤ a.toNat := by
    rw [BitVec.toNat_udiv]
    exact Nat.div_le_self _ _
  have hquotient : (a / b).toInt = (a / b).toNat := by
    have htop := a.toInt_lt
    rw [toInt_of_nonneg ha] at htop
    rw [BitVec.toInt_eq_toNat_cond, if_pos (by omega)]
  rw [hquotient, BitVec.toNat_udiv, toInt_of_nonneg ha, toInt_of_nonneg hb,
    Int.ofNat_tdiv]

/-- A negative dividend counts as a large one: its quotient is not negative, unless it is
the dividend itself. -/
theorem toInt_udiv_eq_tdiv_iff_of_neg_of_pos (ha : a.toInt < 0) (hb : 0 < b.toInt) :
    (a / b).toInt = a.toInt.tdiv b.toInt ↔ b = 1 := by
  have htop := b.toInt_lt
  have hbNat := toInt_of_nonneg (Int.le_of_lt hb)
  constructor
  · intro h
    by_contra hne
    have hone : b.toNat ≠ 1 := fun h1 => hne (BitVec.eq_of_toNat_eq h1)
    have haNat := toInt_of_neg ha
    have hbot := a.le_toInt
    have hlt := a.isLt
    -- At least 1, since the dividend is larger than the divisor, and less than 32768.
    have hpos : 0 < (a / b).toNat := by
      rw [BitVec.toNat_udiv]
      exact Nat.div_pos (by omega) (by omega)
    have hhalf : (a / b).toNat ≤ a.toNat / 2 := by
      rw [BitVec.toNat_udiv]
      exact Nat.div_le_div_left (by omega) (by omega)
    have hquotient : (a / b).toInt = (a / b).toNat := by
      rw [BitVec.toInt_eq_toNat_cond, if_pos (by omega)]
    have hsigned : 0 ≤ (-a.toInt).tdiv b.toInt := Int.tdiv_nonneg (by omega) (by omega)
    rw [Int.neg_tdiv] at hsigned
    omega
  · rintro rfl
    simp

/-- A negative divisor counts as one that is larger than the dividend. -/
theorem toInt_udiv_eq_tdiv_iff_of_nonneg_of_neg (ha : 0 ≤ a.toInt) (hb : b.toInt < 0) :
    (a / b).toInt = a.toInt.tdiv b.toInt ↔ a.toInt < -b.toInt := by
  have htop := a.toInt_lt
  have hbot := b.le_toInt
  have haNat := toInt_of_nonneg ha
  have hbNat := toInt_of_neg hb
  have hquotient : (a / b).toInt = 0 := by
    rw [BitVec.toInt_eq_toNat_cond, BitVec.toNat_udiv, Nat.div_eq_of_lt (by omega)]
    rfl
  have hmagnitude : (a.toInt.tdiv b.toInt).natAbs = a.toInt.natAbs / b.toInt.natAbs :=
    Int.natAbs_tdiv ..
  rw [hquotient, eq_comm, ← Int.natAbs_eq_zero, hmagnitude, Nat.div_eq_zero_iff]
  omega

/-- Of two negative words the larger one is the larger number without sign, but the
smaller one in magnitude. -/
theorem toInt_udiv_eq_tdiv_iff_of_neg_of_neg (ha : a.toInt < 0) (hb : b.toInt < 0) :
    (a / b).toInt = a.toInt.tdiv b.toInt ↔ a = b := by
  have haBot := a.le_toInt
  have hbBot := b.le_toInt
  have haNat := toInt_of_neg ha
  have hbNat := toInt_of_neg hb
  have hpos : 0 < b.toInt.natAbs := by omega
  -- The signed quotient is that of the magnitudes.
  have hsigned : a.toInt.tdiv b.toInt = (a.toInt.natAbs / b.toInt.natAbs : Nat) := by
    have hnonneg : 0 ≤ (-a.toInt).tdiv (-b.toInt) := Int.tdiv_nonneg (by omega) (by omega)
    rw [Int.neg_tdiv, Int.tdiv_neg, Int.neg_neg] at hnonneg
    rw [← Int.natAbs_of_nonneg hnonneg]
    exact congrArg Nat.cast (Int.natAbs_tdiv ..)
  rw [hsigned, BitVec.toInt_eq_toNat_cond, BitVec.toNat_udiv, ← BitVec.toNat_inj]
  rcases Nat.lt_trichotomy a.toNat b.toNat with hlt | heq | hgt
  · have hmagnitude : 0 < a.toInt.natAbs / b.toInt.natAbs := Nat.div_pos (by omega) hpos
    rw [Nat.div_eq_of_lt hlt, if_pos (by decide)]
    omega
  · have hmagnitude : a.toInt.natAbs = b.toInt.natAbs := by omega
    rw [heq, hmagnitude, Nat.div_self hpos, Nat.div_self (by omega), if_pos (by decide)]
    exact iff_of_true rfl rfl
  · have hmagnitude : a.toInt.natAbs < b.toInt.natAbs := by omega
    have hone : a.toNat / b.toNat = 1 := Nat.div_eq_of_lt_le (by omega) (by omega)
    rw [hone, Nat.div_eq_of_lt hmagnitude, if_pos (by decide)]
    omega

/-- Division without sign gives the signed quotient of two words exactly if neither is
negative, the divisor is negative and larger in magnitude than a dividend that is not, the
divisor is 1, or the two are equal. -/
theorem toInt_udiv_eq_tdiv_iff (hb : b ≠ 0) :
    (a / b).toInt = a.toInt.tdiv b.toInt ↔
      0 ≤ a.toInt ∧ (0 < b.toInt ∨ a.toInt < -b.toInt) ∨ b = 1 ∨ a = b := by
  have hb0 : b.toInt ≠ 0 := fun h => hb (BitVec.toInt_inj.mp h)
  have hone : b = 1 ↔ b.toInt = 1 := BitVec.toInt_inj.symm
  have hequal : a = b ↔ a.toInt = b.toInt := BitVec.toInt_inj.symm
  by_cases ha : 0 ≤ a.toInt
  · by_cases hneg : b.toInt < 0
    · rw [toInt_udiv_eq_tdiv_iff_of_nonneg_of_neg ha hneg, hone, hequal]
      omega
    · exact iff_of_true (toInt_udiv_of_nonneg ha (by omega)) (.inl ⟨ha, .inl (by omega)⟩)
  · by_cases hneg : b.toInt < 0
    · rw [toInt_udiv_eq_tdiv_iff_of_neg_of_neg (by omega) hneg, hone, hequal]
      omega
    · rw [toInt_udiv_eq_tdiv_iff_of_neg_of_pos (by omega) (by omega), hone, hequal]
      omega

end Quotients

/-! ## The code of a division -/

namespace Lowering

variable {ctx : Context} {level : Nat} {inChain : Bool} {lhs rhs : Node} {s s' : Session}
  {code : List Code} {warnings : List Warning} {flags : Option Comparison}

/-- The code of a division runs to its end and leaves the quotient without sign in
`AX`. -/
theorem exists_runs_division (hlhs : lhs.isNumeric) (hrhs : rhs.isNumeric)
    (hnode : node ctx level inChain (.operator (.arith .div) lhs rhs) s =
      ⟨code, warnings, s', .ok flags⟩)
    (p : Platform) {program rest : List Code} (hnodup : (definedLabels program).Nodup)
    (hsuffix : code ++ rest <:+ program) {m : Machine} {a b : Word}
    (ha : lhs.eval? m.cells = some a) (hb : rhs.eval? m.cells = some b) (hne : b ≠ 0) :
    ∃ m', Runs p program ⟨code ++ rest, m⟩ ⟨rest, m'⟩ ∧ m.SameMemory m' ∧
      m'.registers .ax = a / b := by
  have hlowers := lowers_of_node_eq hnode
  have hnumeric : (Node.operator (.arith .div) lhs rhs).isNumeric :=
    Bool.and_eq_true_iff.mpr ⟨hlhs, hrhs⟩
  have hvalue : (Node.operator (.arith .div) lhs rhs).eval? m.cells = some (a / b) := by
    rw [Node.eval?, ha, hb]
    exact if_neg hne
  obtain ⟨m', hrun, hsame, hleaves⟩ :=
    computes_of_lowers (p := p) hnodup hlowers hnumeric rest hsuffix m _ hvalue
  rw [hlowers.flags_eq] at hleaves
  exact ⟨m', hrun, hsame, hleaves⟩

/-- **When division agrees with the signed reading of words.** The division of two
expressions is lowered to the end exactly when all of its nodes are within the limit.
Wherever its code stands in a program that defines no label twice, and whatever the
machine holds, if the operands have the values `a` and `b` and `b` is not zero, it runs to
its end, leaves the variables, the output and the stack as they were, and the quotient
without sign in `AX`. This is the signed quotient, truncated toward zero, exactly if
neither operand is negative, or the dividend is not negative and smaller than the
magnitude of a negative divisor, or the divisor is 1, or the operands are equal. -/
theorem signed_quotient_iff (ctx : Context) (level : Nat) (inChain : Bool) (s : Session)
    (lhs rhs : Node) (hlhs : lhs.isNumeric) (hrhs : rhs.isNumeric) :
    let division : Node := .operator (.arith .div) lhs rhs
    ((∃ code warnings s' flags,
        node ctx level inChain division s = ⟨code, warnings, s', .ok flags⟩) ↔
      ∀ v ∈ division.visits level inChain, v.level < ctx.settings.maxDepth) ∧
    ∀ {code warnings s' flags},
      node ctx level inChain division s = ⟨code, warnings, s', .ok flags⟩ →
      ∀ (p : Platform) (program rest : List Code), (definedLabels program).Nodup →
        code ++ rest <:+ program → ∀ (m : Machine) (a b : Word),
        lhs.eval? m.cells = some a → rhs.eval? m.cells = some b → b ≠ 0 →
        ∃ m', Runs p program ⟨code ++ rest, m⟩ ⟨rest, m'⟩ ∧
          m'.cells = m.cells ∧ m'.output = m.output ∧ m'.stack = m.stack ∧
          (m'.registers .ax).toNat = a.toNat / b.toNat ∧
          ((m'.registers .ax).toInt = a.toInt.tdiv b.toInt ↔
            0 ≤ a.toInt ∧ (0 < b.toInt ∨ a.toInt < -b.toInt) ∨ b = 1 ∨ a = b) := by
  intro division
  have hnumeric : division.isNumeric := Bool.and_eq_true_iff.mpr ⟨hlhs, hrhs⟩
  refine ⟨exists_node_eq_ok_iff hnumeric s, ?_⟩
  intro code warnings s' flags hnode p program rest hnodup hsuffix m a b ha hb hne
  obtain ⟨m', hrun, hsame, hax⟩ :=
    exists_runs_division hlhs hrhs hnode p hnodup hsuffix ha hb hne
  refine ⟨m', hrun, hsame.cells, hsame.output, hsame.stack, ?_, ?_⟩
  · rw [hax, BitVec.toNat_udiv]
  · rw [hax, toInt_udiv_eq_tdiv_iff hne]

/-- A variable that holds -5 is divided by -5: here the two quotients agree. -/
theorem signed_quotient_iff_equal :
    let division : Node := .operator (.arith .div) (.identifier "x") (.number "-5")
    ∃ (code : List Code) (warnings : List Warning) (s' : Session) (p : Platform)
      (m m' : Machine),
      node ⟨⟨"new_line", ∅, ∅⟩, {}⟩ 0 false division .initial =
        ⟨code, warnings, s', .ok none⟩ ∧
      (m.cells "x").toInt = -5 ∧ Runs p code ⟨code, m⟩ ⟨[], m'⟩ ∧
      (m'.registers .ax).toInt = Int.tdiv (-5) (-5) := by
  intro division
  have hquotient := signed_quotient_iff ⟨⟨"new_line", ∅, ∅⟩, {}⟩ 0 false .initial
    (.identifier "x") (.number "-5") rfl rfl
  obtain ⟨code, warnings, s', flags, hnode⟩ := hquotient.1.mpr (by simp [Node.visits])
  obtain rfl : flags = none := (lowers_of_node_eq hnode).flags_eq
  have hnodup :=
    nodup_definedLabels_node ⟨⟨"new_line", ∅, ∅⟩, {}⟩ 0 false division .initial
  rw [hnode] at hnodup
  obtain ⟨m', hrun, -, -, -, -, hsigned⟩ := hquotient.2 hnode
    ⟨0, fun _ => 0, fun _ => [], fun _ => 9, fun _ => ⟨true, true, true⟩⟩ code [] hnodup
    ⟨[], List.append_nil code⟩ ⟨fun _ => 7, ⟨false, false, false⟩, [], fun _ => -5, []⟩
    (-5) (-5) rfl rfl (by decide)
  rw [List.append_nil] at hrun
  exact ⟨code, warnings, s', _, _, m', hnode, rfl, hrun, hsigned.mpr (by decide)⟩

/-- The code of -4 / 2 leaves 32766, where the signed quotient is -2. -/
theorem not_signed_quotient_minusFour :
    let division : Node := .operator (.arith .div) (.number "-4") (.number "2")
    ∃ (code : List Code) (warnings : List Warning) (s' : Session) (p : Platform)
      (m m' : Machine),
      node ⟨⟨"new_line", ∅, ∅⟩, {}⟩ 0 false division .initial =
        ⟨code, warnings, s', .ok none⟩ ∧
      Runs p code ⟨code, m⟩ ⟨[], m'⟩ ∧
      (m'.registers .ax).toInt = 32766 ∧ (m'.registers .ax).toInt ≠ Int.tdiv (-4) 2 := by
  intro division
  have hnumeric : division.isNumeric := rfl
  obtain ⟨code, warnings, s', flags, hnode⟩ : ∃ code warnings s' flags,
      node ⟨⟨"new_line", ∅, ∅⟩, {}⟩ 0 false division .initial =
        ⟨code, warnings, s', .ok flags⟩ :=
    (exists_node_eq_ok_iff hnumeric .initial).mpr (by simp [division, Node.visits])
  obtain rfl : flags = none := (lowers_of_node_eq hnode).flags_eq
  have hnodup :=
    nodup_definedLabels_node ⟨⟨"new_line", ∅, ∅⟩, {}⟩ 0 false division .initial
  rw [hnode] at hnodup
  obtain ⟨m', hrun, -, hax⟩ := exists_runs_division rfl rfl hnode
    ⟨0, fun _ => 0, fun _ => [], fun _ => 9, fun _ => ⟨true, true, true⟩⟩ hnodup
    ⟨[], List.append_nil code⟩
    (m := ⟨fun _ => 7, ⟨false, false, false⟩, [], fun _ => 0, []⟩)
    (a := -4) (b := 2) rfl rfl (by decide)
  rw [List.append_nil] at hrun
  refine ⟨code, warnings, s', _, _, m', hnode, hrun, ?_, ?_⟩
  · rw [hax]
    decide
  · rw [hax]
    decide

end Lowering

end RealMode

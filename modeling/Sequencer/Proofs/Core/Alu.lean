import Mathlib
import Sequencer.Proofs.Core.Tick
import Sequencer.Proofs.Decoding

/-! The operations of the ALU on two's complement words.

    The comparison takes the sign of a difference that may have wrapped and corrects it: `a - b` is
    off by `2 ^ 32` exactly where the correction applies (`toInt_sub_cases`), so what comes out is
    the order of the signed values (`lessThan_iff`). An operation is not symmetric in general;
    `apply_comm_iff` says for which operations and words the order of the operands makes no
    difference. The registered ALU applies the operation that it captured, and has a result as soon
    as the operands that this operation looks at are there (`Alu.out_eq`). -/

namespace Sequencer.AluOp

variable (a b : UInt32)

/-! ### Signed comparison -/

theorem signBit_iff (x : UInt32) : signBit x = true ↔ x.toBitVec.toInt < 0 := by
  have hx := x.toNat_lt
  have hshift : (x >>> 31).toNat = x.toNat / 2 ^ 31 := by
    rw [UInt32.toNat_shiftRight]
    exact Nat.shiftRight_eq_div_pow x.toNat 31
  rw [signBit, beq_iff_eq, ← UInt32.toNat_inj, hshift, BitVec.toInt_neg_iff]
  change _ = 1 ↔ 2 ^ 32 ≤ 2 * x.toNat
  omega

theorem toInt_range (x : UInt32) : -2 ^ 31 ≤ x.toBitVec.toInt ∧ x.toBitVec.toInt < 2 ^ 31 :=
  ⟨x.toBitVec.le_toInt, x.toBitVec.toInt_lt⟩

/-- A difference of words is the difference of the signed values, unless that leaves the range. -/
theorem toInt_sub_cases :
    (a - b).toBitVec.toInt = a.toBitVec.toInt - b.toBitVec.toInt ∨
    (a - b).toBitVec.toInt = a.toBitVec.toInt - b.toBitVec.toInt + 2 ^ 32 ∨
    (a - b).toBitVec.toInt = a.toBitVec.toInt - b.toBitVec.toInt - 2 ^ 32 := by
  have ha := toInt_range a
  have hb := toInt_range b
  rw [UInt32.toBitVec_sub, BitVec.toInt_sub, Int.bmod_def]
  omega

theorem lessThan_iff : lessThan a b = true ↔ a.toBitVec.toInt < b.toBitVec.toInt := by
  have hra := toInt_range a
  have hrb := toInt_range b
  have hrd := toInt_range (a - b)
  have hsub := toInt_sub_cases a b
  have hsa := signBit_iff a
  have hsb := signBit_iff b
  have hsd := signBit_iff (a - b)
  -- the three signs decide which of the differences it is
  change (signBit (a - b) != (signBit a != signBit b && signBit (a - b) != signBit a)) = true ↔ _
  cases ha : signBit a <;> cases hb : signBit b <;> cases hab : signBit (a - b) <;>
    simp only [ha, hb, hab, Bool.false_eq_true, false_iff, true_iff, not_lt] at hsa hsb hsd <;>
    simp <;> omega

theorem lessThan_comm_iff : lessThan a b = lessThan b a ↔ a = b := by
  refine ⟨fun h => ?_, fun h => by rw [h]⟩
  rw [Bool.eq_iff_iff, lessThan_iff, lessThan_iff] at h
  exact UInt32.toBitVec_inj.mp (BitVec.toInt_inj.mp (by omega))

/-- A comparison gives one where it holds and zero elsewhere. -/
theorem toUInt32_eq_ite {q : Bool} {p : Prop} [Decidable p] (h : q = true ↔ p) :
    q.toUInt32 = if p then 1 else 0 := by
  by_cases hp : p
  · rw [if_pos hp, h.mpr hp]
    rfl
  · rw [if_neg hp, Bool.eq_false_iff.mpr (mt h.mp hp)]
    rfl

theorem apply_le : le.apply a b = if a.toBitVec.toInt < b.toBitVec.toInt then 1 else 0 :=
  toUInt32_eq_ite (lessThan_iff a b)

theorem apply_ge : ge.apply a b = if b.toBitVec.toInt ≤ a.toBitVec.toInt then 1 else 0 := by
  refine toUInt32_eq_ite ?_
  rw [Bool.not_eq_true', Bool.eq_false_iff, ne_eq, lessThan_iff, not_lt]

theorem apply_eq : eq.apply a b = if a.toBitVec.toInt = b.toBitVec.toInt then 1 else 0 := by
  refine toUInt32_eq_ite ?_
  rw [beq_iff_eq, BitVec.toInt_inj, UInt32.toBitVec_inj]

/-! ### Wrapping arithmetic -/

theorem toInt_add_modEq :
    (a + b).toBitVec.toInt ≡ a.toBitVec.toInt + b.toBitVec.toInt [ZMOD 2 ^ 32] := by
  rw [UInt32.toBitVec_add, BitVec.toInt_add]
  exact Int.bmod_emod

theorem toInt_sub_modEq :
    (a - b).toBitVec.toInt ≡ a.toBitVec.toInt - b.toBitVec.toInt [ZMOD 2 ^ 32] := by
  rw [UInt32.toBitVec_sub, BitVec.toInt_sub]
  exact Int.bmod_emod

/-! ### Exchanging the operands -/

theorem sub_comm_iff : a - b = b - a ↔ a = b ∨ a = b + 0x80000000 := by
  have ha := a.toNat_lt
  have hb := b.toNat_lt
  have hhalf : (0x80000000 : UInt32).toNat = 2 ^ 31 := rfl
  rw [← UInt32.toNat_inj, ← UInt32.toNat_inj, ← UInt32.toNat_inj, UInt32.toNat_sub,
    UInt32.toNat_sub, UInt32.toNat_add, hhalf]
  omega

theorem toUInt32_inj {p q : Bool} : p.toUInt32 = q.toUInt32 ↔ p = q := by
  cases p <;> cases q <;> decide

/-- The order of the operands makes no difference for sums, for the test for equality and for zero.
    For any other operation it makes none only between equal words, and for a difference also
    between words that are half the range apart. -/
theorem apply_comm_iff (op : AluOp) : op.apply a b = op.apply b a ↔
    op = .add ∨ op = .eq ∨ op = .zero ∨ a = b ∨ op = .sub ∧ a = b + 0x80000000 := by
  cases op with
  | id0 => simp [apply]
  | add => simp [apply, UInt32.add_comm]
  | sub => simpa [apply] using sub_comm_iff a b
  | eq => simp [apply, BEq.comm (a := a)]
  | le => simpa [apply, toUInt32_inj] using lessThan_comm_iff a b
  | ge => simpa [apply, toUInt32_inj] using lessThan_comm_iff a b
  | id1 => simp [apply, eq_comm]
  | zero => simp [apply]

end Sequencer.AluOp

namespace Sequencer.Alu

/-! ### The result line -/

theorem out_apply (x y : UInt32) (op : AluOp) :
    Alu.out ⟨some x, some y, some op⟩ = some (op.apply x y) := by
  cases op <;> rfl

/-- The operands that the operation looks at are there. -/
def Supplied (op : AluOp) (x y : Option UInt32) : Prop :=
  (op ≠ .id1 ∧ op ≠ .zero → x.isSome = true) ∧ (op ≠ .id0 ∧ op ≠ .zero → y.isSome = true)

instance (op : AluOp) (x y : Option UInt32) : Decidable (Supplied op x y) :=
  inferInstanceAs (Decidable (_ ∧ _))

/-- Without an operand the result is what the operation gives with any word in its place. -/
theorem out_eq (op : AluOp) (x y : Option UInt32) (a b : UInt32) :
    Alu.out ⟨x, y, some op⟩ =
      if Supplied op x y then some (op.apply (x.getD a) (y.getD b)) else none := by
  cases op <;> cases x <;> cases y <;> rfl

/-- The edge captures what the lines carry, whatever was captured before. -/
theorem captured_of_latch {c c' : Core} (h : c.latch = .ok c') :
    c'.alu = ⟨c.lines.aluIn0, c.lines.aluIn1, c.control.aluOp⟩ := by
  obtain ⟨_, _, _, _, _, _, -, -, -, -, -, -, rfl⟩ := Core.latch_eq_ok.mp h
  rfl

/-- Read as two's complement numbers, `le` is the strict order, `ge` its complement and `eq`
    equality, and sums and differences are those modulo `2 ^ 32`. With both operands captured the
    result line carries what the operation gives; with one missing it carries a result exactly if
    the operation does not look at that operand, and then the result of any word in its place. What
    is captured is what the lines carry at an edge. -/
theorem signed_order_on_result_line (a b : UInt32) :
    AluOp.le.apply a b = (if a.toBitVec.toInt < b.toBitVec.toInt then 1 else 0) ∧
    AluOp.ge.apply a b = (if b.toBitVec.toInt ≤ a.toBitVec.toInt then 1 else 0) ∧
    AluOp.eq.apply a b = (if a.toBitVec.toInt = b.toBitVec.toInt then 1 else 0) ∧
    (AluOp.add.apply a b).toBitVec.toInt ≡ a.toBitVec.toInt + b.toBitVec.toInt [ZMOD 2 ^ 32] ∧
    (AluOp.sub.apply a b).toBitVec.toInt ≡ a.toBitVec.toInt - b.toBitVec.toInt [ZMOD 2 ^ 32] ∧
    (∀ op, Alu.out ⟨some a, some b, some op⟩ = some (op.apply a b)) ∧
    (∀ op x y, (Alu.out ⟨x, y, some op⟩).isSome = true ↔
      (op ≠ .id1 ∧ op ≠ .zero → x.isSome = true) ∧ (op ≠ .id0 ∧ op ≠ .zero → y.isSome = true)) ∧
    (∀ op x y v, Alu.out ⟨x, y, some op⟩ = some v → v = op.apply (x.getD a) (y.getD b)) ∧
    ∀ c c' : Core, c.latch = .ok c' →
      c'.alu = ⟨c.lines.aluIn0, c.lines.aluIn1, c.control.aluOp⟩ := by
  refine ⟨AluOp.apply_le a b, AluOp.apply_ge a b, AluOp.apply_eq a b, AluOp.toInt_add_modEq a b,
    AluOp.toInt_sub_modEq a b, out_apply a b, ?_, ?_, fun _ _ => captured_of_latch⟩
  · intro op x y
    rw [out_eq op x y a b, Option.isSome_ite]
    rfl
  · intro op x y v h
    rw [out_eq op x y a b, Option.ite_none_right_eq_some] at h
    exact (Option.some.inj h.2).symm

/-- The least number is below the greatest although their difference wraps to one, and an edge that
    captures them gives this. The greatest alone passes as operand 1 of `id1`, and is not enough for
    the comparison. -/
theorem signed_order_on_result_line_wrapped :
    (0x80000000 - 0x7fffffff : UInt32) = 1 ∧ AluOp.le.apply 0x80000000 0x7fffffff = 1 ∧
      AluOp.ge.apply 0x80000000 0x7fffffff = 0 ∧
      (∃ c c' : Core, c.lines.aluIn0 = some 0x80000000 ∧ c.lines.aluIn1 = some 0x7fffffff ∧
        c.control.aluOp = some .le ∧ c.latch = .ok c' ∧ c'.alu.out = some 1) ∧
      (Alu.out ⟨none, some 0x7fffffff, some .id1⟩).isSome = true ∧
      ¬ (Alu.out ⟨none, some 0x7fffffff, some .le⟩).isSome = true := by
  obtain ⟨hle, hge, -, -, -, hout, hsome, -, hlatch⟩ :=
    signed_order_on_result_line 0x80000000 0x7fffffff
  have hedge : ∃ fresh c c' : Core, Core.new .narrow = pure fresh ∧
      c = { fresh with
        lines := { fresh.lines with aluIn0 := some 0x80000000, aluIn1 := some 0x7fffffff }
        control := { fresh.control with aluOp := some .le } } ∧
      c.latch = .ok c' :=
    ⟨_, _, _, rfl, rfl, rfl⟩
  obtain ⟨fresh, c, c', -, hc, hedge⟩ := hedge
  have hless : AluOp.le.apply 0x80000000 0x7fffffff = 1 := by
    rw [hle]
    decide
  have halu : c'.alu = ⟨some 0x80000000, some 0x7fffffff, some .le⟩ := by
    rw [hlatch c c' hedge, hc]
  refine ⟨by decide, hless, ?_, ⟨c, c', by rw [hc], by rw [hc], by rw [hc], hedge, ?_⟩, ?_, ?_⟩
  · rw [hge]
    decide
  · rw [halu, hout, hless]
  · rw [hsome]
    decide
  · rw [hsome]
    decide

end Sequencer.Alu

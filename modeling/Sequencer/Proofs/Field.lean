import Mathlib
import Sequencer.Word

/-! Reading and writing a field of a word.

    Inside the word neither access faults: `extract` returns the bits that the field covers, and
    `insert` replaces them when the value fits and refuses it otherwise. So a field reads back what
    was put into it. -/

namespace Sequencer

/-! ### Bits of a word -/

namespace Word

theorem getLsbD_ones {width i : Nat} (h : i < 128) :
    (ones width).getLsbD i = decide (i < width) := by
  rw [ones, BitVec.getLsbD_ofNat, Nat.one_shiftLeft, Nat.testBit_two_pow_sub_one]
  simp [h]

/-- The bits of a word that is less than a power of two. -/
theorem getLsbD_of_toNat_lt {v : Word} {width i : Nat} (h : v.toNat < 2 ^ width) (hi : width ≤ i) :
    v.getLsbD i = false :=
  Nat.testBit_lt_two_pow (lt_of_lt_of_le h (Nat.pow_le_pow_right (by decide) hi))

/-- A word is less than a power of two when its upper bits are clear. -/
theorem toNat_lt_of_getLsbD {v : Word} {width : Nat} (h : ∀ i, width ≤ i → v.getLsbD i = false) :
    v.toNat < 2 ^ width :=
  Nat.lt_pow_two_of_testBit _ h

theorem and_not_ones_eq_zero_iff {v : Word} {width : Nat} :
    v &&& ~~~(ones width) = 0 ↔ v.toNat < 2 ^ width := by
  constructor
  · intro h
    refine toNat_lt_of_getLsbD fun i hi => ?_
    by_cases hlt : i < 128
    · have hbit : (v &&& ~~~(ones width)).getLsbD i = false := by rw [h]; exact BitVec.getLsbD_zero
      rw [BitVec.getLsbD_and, BitVec.getLsbD_not, getLsbD_ones hlt] at hbit
      simpa only [hlt, Nat.not_lt.mpr hi, decide_true, decide_false, Bool.not_false, Bool.and_true]
        using hbit
    · exact BitVec.getLsbD_of_ge v i (by omega)
  · intro h
    apply BitVec.eq_of_getLsbD_eq
    intro i hi
    rw [BitVec.getLsbD_and, BitVec.getLsbD_not, getLsbD_ones hi]
    by_cases hlt : i < width
    · simp [hlt]
    · rw [getLsbD_of_toNat_lt h (Nat.le_of_not_lt hlt)]
      simp

/-- The guard of the mask leaves no width at which it faults. -/
theorem mask_eq (width : Nat) : mask width = .ok (ones width) := by
  unfold mask
  split
  case isTrue hw =>
    refine congrArg Except.ok (BitVec.eq_of_getLsbD_eq fun i hi => ?_)
    rw [BitVec.getLsbD_allOnes, getLsbD_ones hi, decide_eq_true hi, decide_eq_true (by omega)]
  case isFalse hw =>
    rw [Checked.mask_of_lt (Nat.lt_of_not_le hw)]
    rfl

/-- The lowest `width` bits of a word. -/
def low (w : Word) (width : Nat) : Word := w &&& ones width

/-- Cutting a word to its lowest bits is taking a remainder. -/
theorem toNat_low (w : Word) (width : Nat) : (w.low width).toNat = w.toNat % 2 ^ width := by
  refine Nat.eq_of_testBit_eq fun i => ?_
  rw [Nat.testBit_mod_two_pow, BitVec.testBit_toNat, BitVec.testBit_toNat, low, BitVec.getLsbD_and]
  by_cases hi : i < 128
  · rw [getLsbD_ones hi, Bool.and_comm]
  · rw [BitVec.getLsbD_of_ge w i (by omega), Bool.false_and, Bool.and_false]

theorem low_of_toNat_lt {w : Word} {width : Nat} (h : w.toNat < 2 ^ width) : w.low width = w :=
  BitVec.eq_of_toNat_eq (by rw [toNat_low, Nat.mod_eq_of_lt h])

theorem low_low (w : Word) (width : Nat) : (w.low width).low width = w.low width :=
  BitVec.eq_of_toNat_eq (by simp only [toNat_low, Nat.mod_mod])

theorem getLsbD_low {width i : Nat} (w : Word) (h : i < width) :
    (w.low width).getLsbD i = w.getLsbD i := by
  rw [BitVec.getLsbD, toNat_low, Nat.testBit_mod_two_pow, decide_eq_true h, Bool.true_and]
  rfl

end Word

namespace Field

/-- Does the field hold bit `i` of the word? -/
def Covers (f : Field) (i : Nat) : Prop := f.offset ≤ i ∧ i < f.offset + f.width

instance (f : Field) (i : Nat) : Decidable (f.Covers i) := inferInstanceAs (Decidable (_ ∧ _))

/-- The fields share no bit. -/
def Apart (f g : Field) : Prop := ∀ i, f.Covers i → ¬ g.Covers i

/-- A field of less than a word that ends inside the word. -/
structure Inside (f : Field) : Prop where
  width_lt : f.width < 128
  top_le : f.offset + f.width ≤ 128

/-- The bits of a word that a field covers. -/
def value (f : Field) (raw : Word) : Word := (raw >>> f.offset) &&& Word.ones f.width

/-- A word with the bits of a field replaced. -/
def put (f : Field) (raw v : Word) : Word :=
  (raw &&& ~~~(Word.ones f.width <<< f.offset)) ||| (v <<< f.offset)

/-! ### Access inside the word -/

theorem extract_of_inside {f : Field} (h : f.Inside) (raw : Word) :
    f.extract raw = .ok (f.value raw) := by
  obtain ⟨hw, ht⟩ := h
  unfold extract value
  split
  case isTrue h0 => rw [h0]; simp [Word.ones]
  case isFalse h0 => rw [if_pos (by omega)]

theorem getLsbD_value (f : Field) (raw : Word) (i : Nat) :
    (f.value raw).getLsbD i = (raw.getLsbD (f.offset + i) && decide (i < f.width)) := by
  rw [value, BitVec.getLsbD_and, BitVec.getLsbD_ushiftRight]
  by_cases hi : i < 128
  · rw [Word.getLsbD_ones hi]
  · rw [BitVec.getLsbD_of_ge raw _ (by omega)]
    rfl

/-- The value of a field depends on the bits that the field covers, and on no others. -/
theorem value_congr {f : Field} {v w : Word} (h : ∀ i, f.Covers i → v.getLsbD i = w.getLsbD i) :
    f.value v = f.value w := by
  apply BitVec.eq_of_getLsbD_eq
  intro i _
  rw [getLsbD_value, getLsbD_value]
  by_cases hi : i < f.width
  · rw [h (f.offset + i) ⟨by omega, by omega⟩]
  · simp [hi]

theorem getLsbD_put {f : Field} (h : f.Inside) {v : Word} (hv : v.toNat < 2 ^ f.width) (raw : Word)
    (i : Nat) :
    (f.put raw v).getLsbD i = if f.Covers i then v.getLsbD (i - f.offset) else raw.getLsbD i := by
  obtain ⟨hw, ht⟩ := h
  by_cases hi : i < 128
  · rw [put, BitVec.getLsbD_or, BitVec.getLsbD_and, BitVec.getLsbD_not, BitVec.getLsbD_shiftLeft,
      BitVec.getLsbD_shiftLeft]
    simp only [hi, decide_true, Bool.true_and]
    by_cases hlo : i < f.offset
    · rw [if_neg (fun hc => by exact absurd hc.1 (by omega))]
      simp [hlo]
    · rw [Word.getLsbD_ones (by omega)]
      by_cases hc : f.Covers i
      · have hin : i - f.offset < f.width := by have := hc.2; omega
        simp [hc, hlo, hin]
      · have hout : ¬ i - f.offset < f.width := fun hlt => hc ⟨by omega, by omega⟩
        simp [hc, hlo, hout, Word.getLsbD_of_toNat_lt hv (Nat.le_of_not_lt hout)]
  · rw [if_neg (fun hc => by have := hc.2; omega), BitVec.getLsbD_of_ge _ i (by omega),
      BitVec.getLsbD_of_ge _ i (by omega)]

theorem put_of_width_eq_zero {f : Field} (h : f.Inside) (h0 : f.width = 0) {v raw : Word}
    (hv : v.toNat < 2 ^ f.width) : f.put raw v = raw := by
  apply BitVec.eq_of_getLsbD_eq
  intro i _
  rw [getLsbD_put h hv, if_neg (fun hc => by have := hc.1; have := hc.2; omega)]

theorem insert_of_inside {f : Field} (h : f.Inside) (raw v : Word) :
    f.insert raw v = .ok (if v.toNat < 2 ^ f.width then some (f.put raw v) else none) := by
  unfold insert
  by_cases h0 : f.width = 0
  · rw [if_pos h0]
    have hfit : v.toNat < 2 ^ f.width ↔ v = 0 := by
      rw [h0, pow_zero, Nat.lt_one_iff, BitVec.toNat_eq]; rfl
    by_cases hv : v = 0
    · rw [if_pos hv, if_pos (hfit.mpr hv), put_of_width_eq_zero h h0 (hfit.mpr hv)]
    · rw [if_neg hv, if_neg (mt hfit.mp hv)]
  · have hw := h.width_lt
    have ht := h.top_le
    rw [if_neg h0, if_neg (by omega)]
    by_cases hv : v.toNat < 2 ^ f.width
    · rw [if_neg (not_not.mpr (Word.and_not_ones_eq_zero_iff.mpr hv)), if_neg (by omega), if_pos hv]
      rfl
    · rw [if_pos (mt Word.and_not_ones_eq_zero_iff.mp hv), if_neg hv]

theorem value_toNat_lt (f : Field) (raw : Word) :
    (f.value raw).toNat < 2 ^ f.width := by
  refine Word.toNat_lt_of_getLsbD fun i hi => ?_
  rw [getLsbD_value]
  simp [Nat.not_lt.mpr hi]

/-- A field reads back what was put into it. -/
theorem value_put_self {f : Field} (h : f.Inside) {v : Word} (hv : v.toNat < 2 ^ f.width)
    (raw : Word) : f.value (f.put raw v) = v := by
  apply BitVec.eq_of_getLsbD_eq
  intro i _
  rw [getLsbD_value, getLsbD_put h hv]
  by_cases hi : i < f.width
  · rw [if_pos ⟨by omega, by omega⟩, Nat.add_sub_cancel_left]
    simp [hi]
  · simp [hi, Word.getLsbD_of_toNat_lt hv (Nat.le_of_not_lt hi)]

end Field

end Sequencer

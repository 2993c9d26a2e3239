import Mathlib
import Sequencer.Lookup.Table
import Sequencer.Proofs.Checked

/-! Which tables can serve a cluster.

    `LookupTable.requirements` lists what a table has to meet, in the order in which it is checked.
    A table with too many lines is refused before a word is shifted by their number, so no table
    makes the checks fault (`requires_validate`). -/

namespace Sequencer

/-- A bit outside of the lowest `n` makes a number at least `2 ^ n`. -/
theorem and_not_low_eq_zero_iff {x low : UInt32} {n : Nat} (h : low.toNat = 2 ^ n - 1) :
    x &&& ~~~low = 0 ↔ x.toNat < 2 ^ n := by
  have hdistrib : x &&& (low ||| ~~~low) = (x &&& low) ||| (x &&& ~~~low) :=
    UInt32.toBitVec_inj.mp BitVec.and_or_distrib_left
  rw [UInt32.or_not_self, UInt32.and_neg_one] at hdistrib
  have hsplit : x &&& ~~~low = 0 ↔ x &&& low = x := by
    constructor
    · intro h0
      rw [h0, UInt32.or_zero] at hdistrib
      exact hdistrib.symm
    · intro hx
      rw [← hx, UInt32.and_assoc, UInt32.and_not_self, UInt32.and_zero]
  rw [hsplit, ← UInt32.toNat_inj, UInt32.toNat_and, h, Nat.and_two_pow_sub_one_eq_mod]
  constructor
  · intro hmod
    rw [← hmod]
    exact Nat.mod_lt _ (by positivity)
  · exact Nat.mod_eq_of_lt

namespace LookupTable

variable {t : LookupTable} {nCores : Nat}

/-- What a table has to meet to serve `nCores` cores, in the order in which it is checked. -/
def requirements (t : LookupTable) (nCores : Nat) : List (Requirement TableError) :=
  [⟨t.nMeas ≤ maxMeasLines, .tooManyLines t.nMeas⟩,
   ⟨nCores ≤ t.nMeas, .tooFewLines t.nMeas nCores⟩,
   ⟨t.requiredMask.toNat < 2 ^ t.nMeas, .requiredMaskOutOfRange t.requiredMask t.nMeas⟩,
   ⟨t.entries.size = 2 ^ t.nMeas, .size (2 ^ t.nMeas) t.entries.size⟩]

theorem requires_validate (t : LookupTable) (nCores : Nat) :
    (t.validate nCores).Requires (t.requirements nCores) := by
  simp only [validate]
  refine Attempt.requires_check (by simp) rfl fun hlines => ?_
  refine Attempt.requires_check (by simp) rfl fun _ => ?_
  -- There are few enough lines now for both shifts.
  have hle : t.nMeas ≤ 16 := Nat.not_lt.mp hlines
  have hmask : Checked.mask 32 t.nMeas = .ok (1 <<< t.nMeas - 1) := Checked.mask_of_lt (by omega)
  have hsize : Checked.power 64 t.nMeas = .ok (2 ^ t.nMeas) := by
    rw [Checked.power_of_lt (by omega), Nat.one_shiftLeft]
  have hlow : (1 <<< t.nMeas - 1).toUInt32.toNat = 2 ^ t.nMeas - 1 := by
    rw [Checked.toNat_mask (by omega), Nat.one_shiftLeft]
  simp only [hmask, hsize, Attempt.liftM_ok_bind]
  refine Attempt.requires_check (by simp [and_not_low_eq_zero_iff hlow]) rfl fun _ => ?_
  exact Attempt.requires_check (by simp) rfl fun _ => Attempt.requires_of_pure rfl rfl

/-- In a valid table every combination of required lines has an entry. -/
theorem mask_lt_of_validate (h : t.validate nCores = pure ()) :
    t.requiredMask.toNat < t.entries.size := by
  have hmet := Requirement.firstError_eq_none.mp
    ((t.requires_validate nCores).exists_pure_iff.mp ⟨(), h⟩)
  simp only [requirements, List.forall_mem_cons, decide_eq_true_eq] at hmet
  obtain ⟨-, -, hbits, hentries, -⟩ := hmet
  rw [hentries]
  exact hbits

/-- Two lines, both required, where each core is told the value of its own line. -/
def echo : LookupTable := ⟨2, 3, #[0, 1, 2, 3]⟩

theorem exists_zero (nMeas : Nat) : ∃ t, zero nMeas = .ok t := by
  have hle : min nMeas maxMeasLines ≤ 16 := min_le_right _ _
  rw [zero, Checked.mask_of_lt (by omega), Checked.ok_bind, Checked.power_of_lt (by omega)]
  exact ⟨_, rfl⟩

end LookupTable

end Sequencer

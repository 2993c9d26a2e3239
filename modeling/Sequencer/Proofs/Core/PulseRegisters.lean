import Mathlib
import Sequencer.Core.PulseRegisters
import Sequencer.Proofs.Checked

/-! The pulse registers, one parameter at a time.

    What is written to a parameter is cut to its width. The mask is a shifted one, and the guard in
    front of the shift takes the widths at which there is none; so a clock edge of the registers
    returns whatever their widths are (`exists_latch`), and a stored value is the remainder of the
    written one (`exists_truncate`). -/

namespace Sequencer

inductive Parameter where
  | envWord
  | phase
  | freq
  | amp
  | cfg
  deriving DecidableEq, Repr

namespace Bundle

variable {α β γ : Type}

def get (b : Bundle α) : Parameter → α
  | .envWord => b.envWord
  | .phase => b.phase
  | .freq => b.freq
  | .amp => b.amp
  | .cfg => b.cfg

@[simp] theorem get_fill (a : α) (p : Parameter) : (fill a).get p = a := by
  cases p <;> rfl

@[simp] theorem get_map (f : α → β) (b : Bundle α) (p : Parameter) :
    (b.map f).get p = f (b.get p) := by
  cases p <;> rfl

@[simp] theorem get_zipWith (f : α → β → γ) (a : Bundle α) (b : Bundle β) (p : Parameter) :
    (a.zipWith f b).get p = f (a.get p) (b.get p) := by
  cases p <;> rfl

/-- A bundle of computations returns the bundle of their results. -/
theorem sequence_eq_ok {b : Bundle (Checked α)} {b' : Bundle α} :
    b.sequence = .ok b' ↔ ∀ p, b.get p = .ok (b'.get p) := by
  constructor
  · intro h
    simp only [sequence, Checked.bind_eq_ok, Checked.pure_eq_ok, Except.ok.injEq] at h
    obtain ⟨envWord, henv, phase, hphase, freq, hfreq, amp, hamp, cfg, hcfg, rfl⟩ := h
    intro p
    cases p <;> assumption
  · intro h
    obtain ⟨envWord, phase, freq, amp, cfg⟩ := b
    obtain rfl := h .envWord
    obtain rfl := h .phase
    obtain rfl := h .freq
    obtain rfl := h .amp
    obtain rfl := h .cfg
    rfl

theorem exists_sequence {b : Bundle (Checked α)} (h : ∀ p, ∃ a, b.get p = .ok a) :
    ∃ b', b.sequence = .ok b' := by
  choose f hf using h
  refine ⟨⟨f .envWord, f .phase, f .freq, f .amp, f .cfg⟩, sequence_eq_ok.mpr fun p => ?_⟩
  cases p <;> exact hf _

end Bundle

namespace PulseRegisters

variable {r r' : PulseRegisters} {writes : PulseWrites} {cstrobe phaseReset : Bool}

/-- Cutting a data word to a width is taking a remainder, at every width. -/
theorem exists_truncate (width : Nat) (x : UInt32) :
    ∃ y, truncate width x = .ok y ∧ y.toNat = x.toNat % 2 ^ width := by
  unfold truncate
  split
  case isTrue h =>
    have hle : 2 ^ 32 ≤ 2 ^ width := Nat.pow_le_pow_right (by decide) h
    exact ⟨x, rfl, (Nat.mod_eq_of_lt (x.toNat_lt.trans_le hle)).symm⟩
  case isFalse h =>
    have hlt := Nat.lt_of_not_le h
    rw [Checked.mask_of_lt hlt]
    refine ⟨_, rfl, ?_⟩
    rw [UInt32.toNat_and, Checked.toNat_mask hlt, Nat.one_shiftLeft,
      Nat.and_two_pow_sub_one_eq_mod]

/-- A parameter that is not written keeps its value. -/
theorem store_none {width : Nat} {old y : UInt32} : store width old none = .ok y ↔ y = old :=
  ⟨fun h => (Except.ok.inj h).symm, fun h => congrArg Except.ok h.symm⟩

/-- A parameter that is written holds the value cut to its width. -/
theorem toNat_store {width : Nat} {old x y : UInt32} (h : store width old (some x) = .ok y) :
    y.toNat = x.toNat % 2 ^ width := by
  obtain ⟨z, hz, hmod⟩ := exists_truncate width x
  obtain rfl := Except.ok.inj (hz.symm.trans h)
  exact hmod

/-- No edge of the registers faults. -/
theorem exists_latch (r : PulseRegisters) (writes : PulseWrites) (cstrobe phaseReset : Bool) :
    ∃ r', r.latch writes cstrobe phaseReset = .ok r' := by
  have hstore (p : Parameter) : ∃ y,
      (((r.widths.map store).zipWith (· ·) r.out.data).zipWith (· ·) writes).get p = .ok y := by
    rw [Bundle.get_zipWith, Bundle.get_zipWith, Bundle.get_map]
    cases writes.get p with
    | none => exact ⟨_, rfl⟩
    | some x =>
      obtain ⟨y, hy, -⟩ := exists_truncate (r.widths.get p) x
      exact ⟨y, hy⟩
  obtain ⟨data, hdata⟩ := Bundle.exists_sequence hstore
  exact ⟨_, Checked.bind_eq_ok.mpr ⟨data, hdata, rfl⟩⟩

/-- What an edge stores. -/
theorem latch_eq_ok (h : r.latch writes cstrobe phaseReset = .ok r') :
    r'.widths = r.widths ∧ r'.out.cstrobe = cstrobe ∧ r'.out.phaseReset = phaseReset ∧
      ∀ p, store (r.widths.get p) (r.out.data.get p) (writes.get p) = .ok (r'.out.data.get p) := by
  obtain ⟨data, hdata, hr⟩ := Checked.bind_eq_ok.mp h
  obtain rfl := Except.ok.inj hr
  refine ⟨rfl, rfl, rfl, fun p => ?_⟩
  have hp := Bundle.sequence_eq_ok.mp hdata p
  rwa [Bundle.get_zipWith, Bundle.get_zipWith, Bundle.get_map] at hp

end PulseRegisters

end Sequencer

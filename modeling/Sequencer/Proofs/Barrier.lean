import Mathlib
import Sequencer.Barrier
import Sequencer.Proofs.Checked

/-! The edge of the barrier.

    No shift of the participant mask faults, whatever the mask and however many cores are attached:
    a number without a bit in the mask is set apart before the shift. So every edge has a result,
    and it releases the participants exactly if there are any, all of them are attached and ask for
    one id, and they were not released in the cycle before (`exists_latch`). -/

namespace Sequencer.Barrier

variable {b b' : Barrier} {rs : List Request} {i : Nat}

/-! ### The mask -/

theorem testBit_of_le (b : Barrier) (h : 32 ≤ i) : b.participants.toNat.testBit i = false :=
  Nat.testBit_lt_two_pow
    (b.participants.toNat_lt.trans_le (Nat.pow_le_pow_right (by decide) h))

theorem isParticipant_eq (b : Barrier) (core : Nat) :
    b.isParticipant core = .ok (b.participants.toNat.testBit core) := by
  unfold isParticipant
  split
  case isTrue h =>
    rw [Checked.shiftRight_of_lt _ h, Checked.ok_bind, Checked.shiftRight_and_one _ h]
    cases b.participants.toNat.testBit core <;> rfl
  case isFalse h => rw [b.testBit_of_le (Nat.not_lt.mp h)]

theorem isParticipant_iff :
    b.isParticipant i = .ok true ↔ b.participants.toNat.testBit i = true := by
  rw [isParticipant_eq, Except.ok.injEq]

theorem exists_participant (h : b.participants ≠ 0) : ∃ i, b.isParticipant i = .ok true := by
  by_contra hnone
  simp only [isParticipant_iff, not_exists, Bool.not_eq_true] at hnone
  refine h (UInt32.toNat_inj.mp (Nat.eq_of_testBit_eq fun i => ?_))
  rw [UInt32.toNat_zero, Nat.zero_testBit, hnone i]

theorem participants_ne_zero (h : b.isParticipant i = .ok true) : b.participants ≠ 0 := by
  intro h0
  rw [isParticipant_iff, h0, UInt32.toNat_zero, Nat.zero_testBit] at h
  cases h

/-- The barrier sees whether all of its participants are among the attached cores. -/
theorem exists_attached (b : Barrier) (n : Nat) : ∃ all, b.attached n = .ok all ∧
    (all = true ↔ ∀ i, b.isParticipant i = .ok true → i < n) := by
  simp only [isParticipant_iff]
  unfold attached
  split
  case isTrue h =>
    refine ⟨true, rfl, iff_of_true rfl fun i hi => ?_⟩
    by_contra hge
    rw [b.testBit_of_le (h.trans (Nat.not_lt.mp hge))] at hi
    cases hi
  case isFalse h =>
    have hn := Nat.not_le.mp h
    rw [Checked.shiftRight_of_lt _ hn, Checked.ok_bind]
    refine ⟨_, rfl, ?_⟩
    rw [beq_iff_eq, ← UInt32.toNat_inj, Checked.toNat_shiftRight _ hn, UInt32.toNat_zero]
    constructor
    · intro h0 i hi
      by_contra hge
      rw [← Nat.add_sub_cancel' (Nat.not_lt.mp hge), ← Nat.testBit_shiftRight, h0,
        Nat.zero_testBit] at hi
      cases hi
    · intro hall
      refine Nat.eq_of_testBit_eq fun i => ?_
      rw [Nat.testBit_shiftRight, Nat.zero_testBit, Bool.eq_false_iff]
      intro hi
      have := hall (n + i) hi
      omega

/-! ### The requests -/

/-- From the requests of the attached cores the barrier takes those of its participants. -/
theorem exists_waiting (b : Barrier) : ∀ (index : Nat) (rs : List Request),
    ∃ qs, b.waiting index rs = .ok qs ∧
      ∀ q, q ∈ qs ↔ ∃ i : Nat, rs[i]? = some q ∧ b.isParticipant (index + i) = .ok true
  | _, [] => ⟨[], rfl, by simp⟩
  | index, r :: rs => by
    obtain ⟨qs, hqs, hmem⟩ := exists_waiting b (index + 1) rs
    rw [waiting, isParticipant_eq, Checked.ok_bind, hqs, Checked.ok_bind]
    refine ⟨_, rfl, fun q => ?_⟩
    -- The first request stands at number `index`, the others one further each.
    have hsplit : (∃ i : Nat, (r :: rs)[i]? = some q ∧ b.isParticipant (index + i) = .ok true) ↔
        (r = q ∧ b.isParticipant index = .ok true) ∨ q ∈ qs := by
      rw [hmem, ← Nat.or_exists_add_one]
      simp only [List.getElem?_cons_zero, List.getElem?_cons_succ, Option.some.injEq, Nat.add_zero,
        Nat.add_assoc, Nat.add_comm 1]
    rw [hsplit, isParticipant_iff]
    split
    case isTrue h => simp only [List.mem_cons, h, and_true, eq_comm]
    case isFalse h => simp only [h, Bool.false_eq_true, and_false, false_or]

theorem agree_iff {l : List Request} :
    agree l = true ↔ l ≠ [] ∧ ∃ id, ∀ q ∈ l, q = ⟨true, id⟩ := by
  cases l with
  | nil => simp [agree]
  | cons first rest =>
    simp only [agree, Bool.and_eq_true, List.all_eq_true, beq_iff_eq, ne_eq, reduceCtorEq,
      not_false_eq_true, true_and, List.forall_mem_cons]
    constructor
    · rintro ⟨hfirst, hrest⟩
      refine ⟨first.id, ?_, fun q hq => ?_⟩
      · rw [← hfirst]
      · rw [← (hrest q hq).2, ← (hrest q hq).1]
    · rintro ⟨id, rfl, hrest⟩
      refine ⟨rfl, fun q hq => ?_⟩
      rw [hrest q hq]
      exact ⟨rfl, rfl⟩

/-! ### The edge -/

/-- Every participant is attached, and all of them ask for the barrier with this id. -/
def Unanimous (b : Barrier) (rs : List Request) (id : UInt16) : Prop :=
  ∀ i, b.isParticipant i = .ok true → rs[i]? = some ⟨true, id⟩

/-- The edge releases the participants if there are any, they are unanimous, and it has not just
    released them. -/
theorem exists_releases (b : Barrier) (rs : List Request) : ∃ fires, b.releases rs = .ok fires ∧
    (fires = true ↔ b.fire = false ∧ b.participants ≠ 0 ∧ ∃ id, b.Unanimous rs id) := by
  obtain ⟨qs, hqs, hmem⟩ := b.exists_waiting 0 rs
  obtain ⟨all, hall, hattached⟩ := b.exists_attached rs.length
  simp only [Nat.zero_add] at hmem
  rw [releases, hqs, Checked.ok_bind, hall, Checked.ok_bind]
  refine ⟨_, rfl, ?_⟩
  simp only [Bool.and_eq_true, Bool.not_eq_true', agree_iff, hattached, and_assoc]
  refine and_congr_right fun _ => ?_
  constructor
  · rintro ⟨hne, ⟨id, hid⟩, hlt⟩
    obtain ⟨q, hq⟩ := List.exists_mem_of_ne_nil _ hne
    obtain ⟨i, -, hi⟩ := (hmem q).mp hq
    refine ⟨participants_ne_zero hi, id, fun i hi => ?_⟩
    have hsome := List.getElem?_eq_getElem (hlt i hi)
    rw [hsome, hid _ ((hmem _).mpr ⟨i, hsome, hi⟩)]
  · rintro ⟨hne, id, hid⟩
    refine ⟨?_, ⟨id, fun q hq => ?_⟩, fun i hi => (List.getElem?_eq_some_iff.mp (hid i hi)).1⟩
    · obtain ⟨i, hi⟩ := exists_participant hne
      exact List.ne_nil_of_mem ((hmem _).mpr ⟨i, hid i hi, hi⟩)
    · obtain ⟨i, hq, hi⟩ := (hmem q).mp hq
      exact Option.some.inj (hq.symm.trans (hid i hi))

theorem exists_latch (b : Barrier) (rs : List Request) : ∃ b', b.latch rs = .ok b' := by
  obtain ⟨fires, hfires, -⟩ := b.exists_releases rs
  exact ⟨_, by rw [latch, hfires]; rfl⟩

theorem fire_latch (h : b.latch rs = .ok b') : b'.fire = true ↔
    b.fire = false ∧ b.participants ≠ 0 ∧ ∃ id, b.Unanimous rs id := by
  obtain ⟨fires, hfires, hiff⟩ := b.exists_releases rs
  rw [latch, hfires] at h
  obtain rfl := Except.ok.inj h
  exact hiff

theorem participants_latch (h : b.latch rs = .ok b') : b'.participants = b.participants := by
  obtain ⟨fires, -, h⟩ := Checked.bind_eq_ok.mp h
  obtain rfl := Except.ok.inj h
  rfl

theorem reset_latch (h : b.latch rs = .ok b') : b'.reset = b.reset := by
  rw [reset, reset, participants_latch h]

/-! ### The ready lines -/

theorem exists_ready (b : Barrier) (core : Nat) : ∃ ready, b.ready core = .ok ready := by
  unfold ready
  split
  · exact ⟨_, b.isParticipant_eq core⟩
  · exact ⟨_, rfl⟩

theorem ready_of_quiet (h : b.fire = false) (core : Nat) : b.ready core = .ok false := by
  rw [ready, h]
  rfl

theorem ready_of_fire (h : b.fire = true) (core : Nat) : b.ready core = b.isParticipant core := by
  rw [ready, h]
  rfl

/-- A core is let go if it takes part and the barrier fires. -/
theorem ready_iff : b.ready i = .ok true ↔ b.fire = true ∧ b.isParticipant i = .ok true := by
  cases h : b.fire with
  | false => simp [ready_of_quiet h]
  | true => simp [ready_of_fire h]

end Sequencer.Barrier

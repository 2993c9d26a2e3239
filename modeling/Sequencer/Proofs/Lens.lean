import Mathlib
import Sequencer.Proofs.Field

/-! The laws of a field.

    A field is a lens on the words: what was inserted last is what is read, inserting what is read
    changes nothing, and fields that share no bit do not see each other. All of it follows from the
    bits of a word after an insertion (`getLsbD_put`), which are those of the value where the field
    covers them and those of the word elsewhere. A field of width zero covers no bit, so it shares
    none with any field, itself included. -/

namespace Sequencer

namespace Field

variable {f g : Field} {raw v w r : Word}

/-! ### Placing values -/

theorem put_put (h : f.Inside) (hv : v.toNat < 2 ^ f.width) (hw : w.toNat < 2 ^ f.width) :
    f.put (f.put raw v) w = f.put raw w := by
  apply BitVec.eq_of_getLsbD_eq
  intro i _
  rw [getLsbD_put h hw, getLsbD_put h hw, getLsbD_put h hv]
  by_cases hi : f.Covers i
  · rw [if_pos hi, if_pos hi]
  · rw [if_neg hi, if_neg hi, if_neg hi]

theorem put_value_self (h : f.Inside) (raw : Word) : f.put raw (f.value raw) = raw := by
  apply BitVec.eq_of_getLsbD_eq
  intro i _
  rw [getLsbD_put h (f.value_toNat_lt raw)]
  split
  case isTrue hi =>
    obtain ⟨hlow, hhigh⟩ := hi
    have hin : i - f.offset < f.width := by omega
    rw [getLsbD_value, Nat.add_sub_cancel' hlow, decide_eq_true hin, Bool.and_true]
  case isFalse => rfl

theorem put_comm (hf : f.Inside) (hg : g.Inside) (ha : f.Apart g) (hv : v.toNat < 2 ^ f.width)
    (hw : w.toNat < 2 ^ g.width) : g.put (f.put raw v) w = f.put (g.put raw w) v := by
  apply BitVec.eq_of_getLsbD_eq
  intro i _
  rw [getLsbD_put hg hw, getLsbD_put hf hv, getLsbD_put hf hv, getLsbD_put hg hw]
  by_cases hi : f.Covers i
  · rw [if_neg (ha i hi), if_pos hi, if_pos hi]
  · rw [if_neg hi, if_neg hi]

/-! ### Reading and inserting -/

/-- Reading a field depends on the bits that the field covers, and so does whether it faults. -/
theorem extract_congr (h : ∀ i, f.Covers i → v.getLsbD i = w.getLsbD i) :
    f.extract v = f.extract w := by
  unfold extract
  split
  case isTrue => rfl
  case isFalse =>
    split
    case isTrue => exact congrArg Except.ok (value_congr h)
    case isFalse => rfl

theorem insert_eq_some (h : f.Inside) :
    f.insert raw v = .ok (some r) ↔ v.toNat < 2 ^ f.width ∧ f.put raw v = r := by
  rw [insert_of_inside h, Except.ok.injEq]
  split
  case isTrue hv => simp [hv]
  case isFalse hv => simp [hv]

theorem insert_eq_none (h : f.Inside) :
    f.insert raw v = .ok none ↔ 2 ^ f.width ≤ v.toNat := by
  rw [insert_of_inside h, Except.ok.injEq]
  split
  case isTrue hv => simp [hv]
  case isFalse hv => simp [Nat.not_lt.mp hv]

theorem insert_insert (h : f.Inside) (hr : f.insert raw v = .ok (some r)) (w : Word) :
    f.insert r w = f.insert raw w := by
  obtain ⟨hv, rfl⟩ := (insert_eq_some h).mp hr
  rw [insert_of_inside h, insert_of_inside h]
  by_cases hw : w.toNat < 2 ^ f.width
  · rw [if_pos hw, if_pos hw, put_put h hv hw]
  · rw [if_neg hw, if_neg hw]

theorem extract_of_apart (h : f.Inside) (hr : f.insert raw v = .ok (some r)) (ha : f.Apart g) :
    g.extract r = g.extract raw := by
  obtain ⟨hv, rfl⟩ := (insert_eq_some h).mp hr
  refine extract_congr fun i hi => ?_
  rw [getLsbD_put h hv, if_neg fun hc => ha i hc hi]

/-- Two insertions, one after the other, end in the word that both placed values give. -/
theorem exists_insert_insert (hf : f.Inside) (hg : g.Inside) :
    (∃ s, f.insert raw v = .ok (some s) ∧ g.insert s w = .ok (some r)) ↔
      v.toNat < 2 ^ f.width ∧ w.toNat < 2 ^ g.width ∧ g.put (f.put raw v) w = r := by
  simp only [insert_eq_some hf, insert_eq_some hg]
  constructor
  · rintro ⟨s, ⟨hv, rfl⟩, hw, hr⟩
    exact ⟨hv, hw, hr⟩
  · rintro ⟨hv, hw, hr⟩
    exact ⟨_, ⟨hv, rfl⟩, hw, hr⟩

/-- A field of less than a word that ends inside the word is a lens. It can be read from every word,
    the value is below the power of its width, and inserting that value gives the word again. A
    value is inserted exactly if it is below that power, and refused otherwise. After an insertion
    the field holds the value, a second insertion takes its place, and every field that shares no
    bit with this one reads as before. Insertions into two such fields can be swapped: both orders
    end in the same word, or in none. -/
theorem lens_laws (hwidth : f.width < 128) (htop : f.offset + f.width ≤ 128) (raw v : Word) :
    (∃ x, f.extract raw = .ok x ∧ x.toNat < 2 ^ f.width ∧ f.insert raw x = .ok (some raw)) ∧
    ((∃ r, f.insert raw v = .ok (some r)) ↔ v.toNat < 2 ^ f.width) ∧
    (f.insert raw v = .ok none ↔ 2 ^ f.width ≤ v.toNat) ∧
    (∀ r, f.insert raw v = .ok (some r) →
      f.extract r = .ok v ∧ (∀ w, f.insert r w = f.insert raw w) ∧
      ∀ g : Field, f.Apart g → g.extract r = g.extract raw) ∧
    ∀ g : Field, g.width < 128 → g.offset + g.width ≤ 128 → f.Apart g → ∀ w r,
      (∃ s, f.insert raw v = .ok (some s) ∧ g.insert s w = .ok (some r)) ↔
        ∃ s, g.insert raw w = .ok (some s) ∧ f.insert s v = .ok (some r) := by
  have hf : f.Inside := ⟨hwidth, htop⟩
  refine ⟨?_, ?_, insert_eq_none hf, fun r hr => ?_, fun g hgwidth hgtop ha w r => ?_⟩
  · have hlt := f.value_toNat_lt raw
    refine ⟨f.value raw, extract_of_inside hf raw, hlt, ?_⟩
    exact (insert_eq_some hf).mpr ⟨hlt, put_value_self hf raw⟩
  · simp only [insert_eq_some hf, exists_and_left, exists_eq', and_true]
  · refine ⟨?_, insert_insert hf hr, fun g => extract_of_apart hf hr⟩
    obtain ⟨hv, rfl⟩ := (insert_eq_some hf).mp hr
    rw [extract_of_inside hf, value_put_self hf hv]
  · have hg : g.Inside := ⟨hgwidth, hgtop⟩
    rw [exists_insert_insert hf hg, exists_insert_insert hg hf, and_left_comm]
    refine and_congr_right fun hw => and_congr_right fun hv => ?_
    rw [put_comm hf hg ha hv hw]

/-- The five bits at the top of a word take 21 and refuse 32, and the field below them reads as
    before. A field without bits at the end of the word takes 0 and refuses 1. -/
theorem lens_laws_of_ends :
    (∃ r, insert ⟨123, 5⟩ (BitVec.allOnes 128) 21 = .ok (some r) ∧ extract ⟨123, 5⟩ r = .ok 21 ∧
      extract ⟨100, 23⟩ r = .ok 8388607) ∧
    insert ⟨123, 5⟩ (BitVec.allOnes 128) 32 = .ok none ∧
    (∃ r, insert ⟨128, 0⟩ (BitVec.allOnes 128) 0 = .ok (some r) ∧ extract ⟨123, 5⟩ r = .ok 31) ∧
    insert ⟨128, 0⟩ (BitVec.allOnes 128) 1 = .ok none := by
  have hbelow : Apart ⟨123, 5⟩ ⟨100, 23⟩ := fun i hf hg =>
    absurd (Nat.lt_of_le_of_lt hf.1 hg.2) (Nat.lt_irrefl 123)
  have hempty : Apart ⟨128, 0⟩ ⟨123, 5⟩ := fun i hf _ =>
    absurd (Nat.lt_of_le_of_lt hf.1 hf.2) (Nat.lt_irrefl 128)
  refine ⟨?_, ?_, ?_, ?_⟩
  · obtain ⟨-, hiff, -, hlaws, -⟩ :=
      lens_laws (f := ⟨123, 5⟩) (by decide) (by decide) (BitVec.allOnes 128) 21
    obtain ⟨r, hr⟩ := hiff.mpr (by decide)
    obtain ⟨hself, -, hother⟩ := hlaws r hr
    exact ⟨r, hr, hself, hother _ hbelow⟩
  · exact (lens_laws (f := ⟨123, 5⟩) (by decide) (by decide) _ 32).2.2.1.mpr (by decide)
  · obtain ⟨-, hiff, -, hlaws, -⟩ :=
      lens_laws (f := ⟨128, 0⟩) (by decide) (by decide) (BitVec.allOnes 128) 0
    obtain ⟨r, hr⟩ := hiff.mpr (by decide)
    exact ⟨r, hr, (hlaws r hr).2.2 _ hempty⟩
  · exact (lens_laws (f := ⟨128, 0⟩) (by decide) (by decide) _ 1).2.2.1.mpr (by decide)

end Field

end Sequencer

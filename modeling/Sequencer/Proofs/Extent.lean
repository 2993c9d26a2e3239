import Mathlib
import Sequencer.Proofs.Reencoding

/-! How the fields of a layout fill the word.

    A layout exists exactly for the widths that keep their limits and whose longer row of fields
    fits below the opcode; other widths are refused for the first requirement they break
    (`requires_ofWidths`). In a layout the fields of one class are stacked below each other
    (`Placed.stacked_class`), so no two of them share a bit, although fields of different classes
    do. The lower of the two rows ends where the demand says (`Placed.isLeast_offset`), so a word
    that is one bit shorter has no room for it. -/

namespace Sequencer

namespace Field

/-- The bits of `f` are bits of `g`. -/
def Within (f g : Field) : Prop := g.offset ≤ f.offset ∧ f.offset + f.width ≤ g.offset + g.width

/-- Fields listed from the top downwards share no bit. -/
theorem Stacked.pairwise {top : Nat} {fs : List Field} (h : Stacked top fs) :
    fs.Pairwise Apart := by
  induction fs generalizing top with
  | nil => exact List.Pairwise.nil
  | cons f fs ih =>
    obtain ⟨-, -, hrest⟩ := h
    refine List.Pairwise.cons (fun g hg i hf hgi => ?_) (ih hrest)
    have hle := hrest.top_le hg
    have hlow := hf.1
    have hhigh := hgi.2
    omega

end Field

namespace Layout

/-- How the fields of the layout of widths `w` lie in the word. -/
structure Fills (l : Layout) (w : Widths) : Prop where
  widths : l.widths = w
  /-- Every field has the width that was asked for. -/
  width : l.fields.map Field.width =
    [5, 3, 32, w.regAddr, w.regAddr, w.regAddr, w.instrAddr, w.requestId, w.regAddr] ++
      w.pulse.toList.flatMap ([1, 1, ·])
  inside : ∀ f ∈ l.fields, f.offset + f.width ≤ w.instr
  /-- The class and the ALU operation are the top eight bits. -/
  opcode : l.opClass.offset + 5 = w.instr ∧ l.aluOp.offset + 8 = w.instr
  /-- No two of the fields that a class gives meaning to share a bit. -/
  apart : ∀ c, (l.opClass :: l.aluOp :: l.operandFields c).Pairwise Field.Apart
  in0Reg : l.in0Reg.Within l.immediate
  /-- The lowest field leaves as many bits free as the demand does. -/
  lowest : IsLeast {i | ∃ f ∈ l.fields, f.offset = i} (w.instr - 8 - w.demand)

namespace Placed

variable {l : Layout}

/-! ### One class -/

/-- The fields of a class lie below each other. Some operation is read as that class, and its values
    are placed in these fields. -/
theorem stacked_class (h : l.Placed) (c : OpClass) :
    Field.Stacked l.widths.instr (l.opClass :: l.aluOp :: l.operandFields c) := by
  obtain ⟨op, hop, -⟩ := operationOf_ok h c 0
  obtain ⟨f, rest, hplacements, -, hfields, -⟩ := placements_operationOf h hop
  have hstacked := stacked_placements h op
  rwa [hplacements, List.map_append, hfields] at hstacked

/-! ### All fields -/

theorem width_fields (h : l.Placed) :
    l.fields.map Field.width =
      [5, 3, 32, l.widths.regAddr, l.widths.regAddr, l.widths.regAddr, l.widths.instrAddr,
        l.widths.requestId, l.widths.regAddr] ++ l.widths.pulse.toList.flatMap ([1, 1, ·]) := by
  obtain ⟨-, hclass, halu, himm, hin0, hin1, hwrite, hjump, -, hid, hpulseReg, hpulse⟩ := h
  obtain ⟨henv, hphase, hfreq, hamp, hcfg⟩ := hpulse
  simp [fields, Bundle.toList, hpulseReg, hclass.width_eq, halu.width_eq, himm.width_eq,
    hin0.width_eq, hin1.width_eq, hwrite.width_eq, hjump.width_eq, hid.width_eq,
    henv.writeEn.width_eq, henv.regSel.width_eq, henv.value.width_eq,
    hphase.writeEn.width_eq, hphase.regSel.width_eq, hphase.value.width_eq,
    hfreq.writeEn.width_eq, hfreq.regSel.width_eq, hfreq.value.width_eq,
    hamp.writeEn.width_eq, hamp.regSel.width_eq, hamp.value.width_eq,
    hcfg.writeEn.width_eq, hcfg.regSel.width_eq, hcfg.value.width_eq]

theorem in1Reg_offset (h : l.Placed) :
    l.in1Reg.offset + l.widths.regAddr + 40 = l.widths.instr := by
  have h1 := h.opClass.top_eq
  have h2 := h.aluOp.top_eq
  have h3 := h.immediate.top_eq
  have h4 := h.in1Reg.top_eq
  omega

/-- The row of the ALU and jump classes ends with the request id. -/
theorem requestId_offset (h : l.Placed) :
    l.requestId.offset + l.widths.requestId + l.widths.belowIn1 = l.in1Reg.offset := by
  have hid := h.requestId.top_eq
  have hbelow := h.belowIn1
  omega

/-- The row of the pulse classes ends with the configuration. -/
theorem cfg_lsb (h : l.Placed) :
    l.pulse.cfg.lsb + (l.widths.pulse.toList.map (· + 2)).sum = l.in1Reg.offset := by
  have h1 := h.pulse.envWord.lsb_eq
  have h2 := h.pulse.phase.lsb_eq
  have h3 := h.pulse.freq.lsb_eq
  have h4 := h.pulse.amp.lsb_eq
  have h5 := h.pulse.cfg.lsb_eq
  simp only [Bundle.toList, List.map_cons, List.map_nil, List.sum_cons, List.sum_nil]
  omega

/-- Every field ends below the top of the word and starts in one of the rows. -/
theorem bounds (h : l.Placed) {f : Field} (hf : f ∈ l.fields) :
    (l.requestId.offset ≤ f.offset ∨ l.pulse.cfg.lsb ≤ f.offset) ∧
      f.offset + f.width ≤ l.widths.instr := by
  have hin1 := h.in1Reg_offset
  have hid := h.requestId_offset
  rcases List.mem_append.mp hf with hf | hf
  · obtain ⟨-, ⟨c1, c2⟩, ⟨a1, a2⟩, ⟨i1, i2⟩, ⟨x1, x2⟩, ⟨y1, y2⟩, ⟨w1, w2⟩, ⟨j1, j2⟩, -, ⟨q1, q2⟩,
      hpulseReg, -⟩ := h
    have hreg : l.widths.regAddr ≤ l.widths.belowIn1 := le_max_left _ _
    have haddr : l.widths.instrAddr ≤ l.widths.belowIn1 := le_max_right _ _
    simp only [List.mem_cons, List.not_mem_nil, or_false, hpulseReg] at hf
    rcases hf with rfl | rfl | rfl | rfl | rfl | rfl | rfl | rfl | rfl <;>
      exact ⟨.inl (by omega), by omega⟩
  · obtain ⟨s, hs, hf⟩ := List.mem_flatMap.mp hf
    obtain ⟨top, width, ⟨⟨e1, e2⟩, ⟨r1, r2⟩, ⟨v1, v2⟩⟩, -, htop, hlow⟩ := h.slot hs
    have hlsb : s.lsb = s.value.offset := rfl
    simp only [List.mem_cons, List.not_mem_nil, or_false] at hf
    rcases hf with rfl | rfl | rfl <;> exact ⟨.inr (by omega), by omega⟩

/-- The lower of the two rows ends where the demand says. -/
theorem isLeast_offset (h : l.Placed) :
    IsLeast {i | ∃ f ∈ l.fields, f.offset = i} (l.widths.instr - 8 - l.widths.demand) := by
  have hin1 := h.in1Reg_offset
  have hid := h.requestId_offset
  have hcfg := h.cfg_lsb
  have hdemand : l.widths.demand =
      max (32 + l.widths.regAddr + l.widths.belowIn1 + l.widths.requestId)
        (32 + l.widths.regAddr + (l.widths.pulse.toList.map (· + 2)).sum) := rfl
  constructor
  · rcases le_total l.requestId.offset l.pulse.cfg.lsb with hle | hle
    · exact ⟨l.requestId, by simp [fields], by omega⟩
    · have hlsb : l.pulse.cfg.value.offset = l.pulse.cfg.lsb := rfl
      exact ⟨l.pulse.cfg.value, by simp [fields, Bundle.toList], by omega⟩
  · rintro i ⟨f, hf, rfl⟩
    rcases (h.bounds hf).1 with hle | hle
    · omega
    · omega

/-- The input 0 register is the top of the immediate. -/
theorem in0Reg_within (h : l.Placed) : l.in0Reg.Within l.immediate := by
  obtain ⟨i1, i2⟩ := h.immediate
  obtain ⟨x1, x2⟩ := h.in0Reg
  have hreg := h.limited.regAddr
  exact ⟨by omega, by omega⟩

theorem fills (h : l.Placed) : l.Fills l.widths where
  widths := rfl
  width := h.width_fields
  inside _ hf := (h.bounds hf).2
  opcode := by
    have h1 := h.opClass.top_eq
    have h2 := h.aluOp.top_eq
    exact ⟨h1, by omega⟩
  apart c := (h.stacked_class c).pairwise
  in0Reg := h.in0Reg_within
  lowest := h.isLeast_offset

end Placed

/-- Widths have a layout exactly if they keep their limits and their demand fits below the opcode;
    otherwise the first requirement that they break is the error. In the layout every field lies
    inside the word, the opcode on top, the fields of each class apart and the lowest of all fields
    exactly as low as the demand says. -/
theorem layout_exact_and_sound (w : Widths) :
    ((∃ l, ofWidths w = pure l) ↔
      w.instr ≤ 128 ∧ w.regAddr ≤ 8 ∧ w.instrAddr ≤ 16 ∧ w.requestId ≤ 16 ∧
        (∀ width ∈ w.pulse.toList, width ≤ 32) ∧ 8 + w.demand ≤ w.instr) ∧
      (∀ e, ofWidths w = throw e ↔ Requirement.firstError w.requirements = some e) ∧
      ∀ l, ofWidths w = pure l → l.Fills w := by
  refine ⟨?_, (requires_ofWidths w).eq_throw_iff, fun l hl => ?_⟩
  · rw [(requires_ofWidths w).exists_pure_iff, requirements_met]
    simp only [Bundle.toList, List.forall_mem_cons]
    constructor
    · rintro ⟨⟨hi, h1, h2, h3, h4, h5, h6, h7, h8⟩, hfit⟩
      exact ⟨hi, h1, h2, h3, ⟨h4, h5, h6, h7, h8, List.forall_mem_nil _⟩, hfit⟩
    · rintro ⟨hi, h1, h2, h3, ⟨h4, h5, h6, h7, h8, -⟩, hfit⟩
      exact ⟨⟨hi, h1, h2, h3, h4, h5, h6, h7, h8⟩, hfit⟩
  · obtain ⟨rfl, hplaced⟩ := placed_of_ofWidths hl
    exact hplaced.fills

/-- With register addresses wider than jump addresses and no pulse values, 72 bits are filled down
    to the last one, and 71 bits are refused. -/
theorem layout_exact_and_sound_full :
    (∃ l, ofWidths ⟨72, 8, 0, 16, ⟨0, 0, 0, 0, 0⟩⟩ = pure l ∧
      IsLeast {i | ∃ f ∈ l.fields, f.offset = i} 0) ∧
      ofWidths ⟨71, 8, 0, 16, ⟨0, 0, 0, 0, 0⟩⟩ = throw (.overflow 64 63) := by
  constructor
  · obtain ⟨hiff, -, hfills⟩ := layout_exact_and_sound ⟨72, 8, 0, 16, ⟨0, 0, 0, 0, 0⟩⟩
    obtain ⟨l, hl⟩ := hiff.mpr (by decide)
    exact ⟨l, hl, (hfills l hl).lowest⟩
  · obtain ⟨-, herror, -⟩ := layout_exact_and_sound ⟨71, 8, 0, 16, ⟨0, 0, 0, 0, 0⟩⟩
    exact (herror _).mpr (by decide)

end Layout

end Sequencer

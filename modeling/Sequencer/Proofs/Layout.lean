import Mathlib
import Sequencer.Isa.Layout
import Sequencer.Proofs.Checked
import Sequencer.Proofs.Field

/-! The fields of a layout.

    A layout places every field directly below another one, so its offsets are given by equations:
    each field ends where the one above it begins. `Layout.Placed` collects them together with the
    limits of the widths; it holds of every layout that exists. -/

namespace Sequencer

namespace Field

/-- The field has `width` bits and ends below bit `top`. -/
structure Below (f : Field) (top width : Nat) : Prop where
  width_eq : f.width = width
  top_eq : f.offset + width = top

theorem below_eq_ok {top width : Nat} {f : Field} :
    below top width = .ok f ↔ f.Below top width := by
  simp only [below, Checked.bind_eq_ok, Checked.sub_eq_ok, Checked.pure_eq_ok, Except.ok.injEq]
  constructor
  · rintro ⟨offset, htop, rfl⟩
    exact ⟨rfl, htop⟩
  · rintro ⟨hwidth, htop⟩
    exact ⟨f.offset, htop, by rw [← hwidth]⟩

theorem exists_below {top width : Nat} (h : width ≤ top) : ∃ f : Field, f.Below top width :=
  ⟨⟨top - width, width⟩, rfl, Nat.sub_add_cancel h⟩

theorem Below.offset_le {f : Field} {top width : Nat} (h : f.Below top width) : f.offset ≤ top :=
  Nat.le.intro h.top_eq

theorem Below.inside {f : Field} {top width : Nat} (h : f.Below top width) (htop : top ≤ 128)
    (hw : width < 128) : f.Inside :=
  ⟨h.width_eq.trans_lt hw, by rw [h.width_eq, h.top_eq]; exact htop⟩

end Field

/-- The three fields of a slot lie directly below each other, and below bit `top`. -/
structure PulseSlot.Below (s : PulseSlot) (top width : Nat) : Prop where
  writeEn : s.writeEn.Below top 1
  regSel : s.regSel.Below s.writeEn.offset 1
  value : s.value.Below s.regSel.offset width

theorem PulseSlot.below_eq_ok {top width : Nat} {s : PulseSlot} :
    PulseSlot.below top width = .ok s ↔ s.Below top width := by
  simp only [PulseSlot.below, Checked.bind_eq_ok, Field.below_eq_ok, Checked.pure_eq_ok,
    Except.ok.injEq]
  constructor
  · rintro ⟨writeEn, h1, regSel, h2, value, h3, rfl⟩
    exact ⟨h1, h2, h3⟩
  · rintro ⟨h1, h2, h3⟩
    exact ⟨s.writeEn, h1, s.regSel, h2, s.value, h3, rfl⟩

/-- A slot takes two bits besides its value. -/
theorem PulseSlot.Below.lsb_eq {s : PulseSlot} {top width : Nat} (h : s.Below top width) :
    s.lsb + (width + 2) = top := by
  have htop := h.writeEn.top_eq
  have hmid := h.regSel.top_eq
  have hlow := h.value.top_eq
  rw [PulseSlot.lsb]
  omega

theorem PulseSlot.exists_below {top width : Nat} (h : width + 2 ≤ top) :
    ∃ s : PulseSlot, s.Below top width := by
  obtain ⟨writeEn, h1⟩ := Field.exists_below (show 1 ≤ top by omega)
  have htop := h1.top_eq
  obtain ⟨regSel, h2⟩ := Field.exists_below (show 1 ≤ writeEn.offset by omega)
  have hmid := h2.top_eq
  obtain ⟨value, h3⟩ := Field.exists_below (show width ≤ regSel.offset by omega)
  exact ⟨⟨writeEn, regSel, value⟩, h1, h2, h3⟩

theorem PulseSlot.Below.lsb_le {s : PulseSlot} {top width : Nat} (h : s.Below top width) :
    s.lsb ≤ top :=
  Nat.le.intro h.lsb_eq

theorem PulseSlot.Below.inside {s : PulseSlot} {top width : Nat} (h : s.Below top width)
    (htop : top ≤ 128) (hw : width ≤ 32) :
    s.writeEn.Inside ∧ s.regSel.Inside ∧ s.value.Inside := by
  have hmid := h.writeEn.offset_le.trans htop
  have hlow := h.regSel.offset_le.trans hmid
  exact ⟨h.writeEn.inside htop (by omega), h.regSel.inside hmid (by omega),
    h.value.inside hlow (by omega)⟩

namespace Widths

/-- Bits below the opcode that the longer row of fields takes. -/
def demand (w : Widths) : Nat :=
  max (32 + w.regAddr + max w.regAddr w.instrAddr + w.requestId)
    (32 + w.regAddr + (w.pulse.toList.map (· + 2)).sum)

/-- What widths have to meet, in the order in which it is checked. -/
def requirements (w : Widths) : List (Requirement LayoutError) :=
  [⟨w.instr ≤ 128, .instrTooWide w.instr⟩,
   ⟨w.regAddr ≤ 8, .fieldTooWide "reg_addr" w.regAddr 8⟩,
   ⟨w.instrAddr ≤ 16, .fieldTooWide "instr_addr" w.instrAddr 16⟩,
   ⟨w.requestId ≤ 16, .fieldTooWide "request_id" w.requestId 16⟩,
   ⟨w.pulse.envWord ≤ 32, .fieldTooWide "env_word" w.pulse.envWord 32⟩,
   ⟨w.pulse.phase ≤ 32, .fieldTooWide "phase" w.pulse.phase 32⟩,
   ⟨w.pulse.freq ≤ 32, .fieldTooWide "freq" w.pulse.freq 32⟩,
   ⟨w.pulse.amp ≤ 32, .fieldTooWide "amp" w.pulse.amp 32⟩,
   ⟨w.pulse.cfg ≤ 32, .fieldTooWide "cfg" w.pulse.cfg 32⟩,
   ⟨8 + w.demand ≤ w.instr, .overflow w.demand (w.instr - 8)⟩]

end Widths

/-- A width keeps its limit. -/
def WidthLimit.requirement (l : WidthLimit) : Requirement LayoutError :=
  ⟨l.width ≤ l.max, .fieldTooWide l.name l.width l.max⟩

/-- The slots of the parameters lie directly below each other, and below bit `top`. -/
structure Bundle.Below (b : Bundle PulseSlot) (top : Nat) (w : Bundle Nat) : Prop where
  envWord : b.envWord.Below top w.envWord
  phase : b.phase.Below b.envWord.lsb w.phase
  freq : b.freq.Below b.phase.lsb w.freq
  amp : b.amp.Below b.freq.lsb w.amp
  cfg : b.cfg.Below b.amp.lsb w.cfg

namespace Layout

theorem placePulse_eq_ok {top : Nat} {w : Bundle Nat} {b : Bundle PulseSlot} :
    placePulse top w = .ok b ↔ b.Below top w := by
  simp only [placePulse, Checked.bind_eq_ok, PulseSlot.below_eq_ok, Checked.pure_eq_ok,
    Except.ok.injEq]
  constructor
  · rintro ⟨envWord, h1, phase, h2, freq, h3, amp, h4, cfg, h5, rfl⟩
    exact ⟨h1, h2, h3, h4, h5⟩
  · rintro ⟨h1, h2, h3, h4, h5⟩
    exact ⟨_, h1, _, h2, _, h3, _, h4, _, h5, rfl⟩

/-- The widths keep their limits. -/
structure Limited (w : Widths) : Prop where
  instr : w.instr ≤ 128
  regAddr : w.regAddr ≤ 8
  instrAddr : w.instrAddr ≤ 16
  requestId : w.requestId ≤ 16
  envWord : w.pulse.envWord ≤ 32
  phase : w.pulse.phase ≤ 32
  freq : w.pulse.freq ≤ 32
  amp : w.pulse.amp ≤ 32
  cfg : w.pulse.cfg ≤ 32

/-- Every field lies directly below its neighbour, and every width keeps its limit. -/
structure Placed (l : Layout) : Prop where
  limited : Limited l.widths
  opClass : l.opClass.Below l.widths.instr 5
  aluOp : l.aluOp.Below l.opClass.offset 3
  immediate : l.immediate.Below l.aluOp.offset 32
  in0Reg : l.in0Reg.Below l.aluOp.offset l.widths.regAddr
  in1Reg : l.in1Reg.Below l.immediate.offset l.widths.regAddr
  writeReg : l.writeReg.Below l.in1Reg.offset l.widths.regAddr
  jumpAddr : l.jumpAddr.Below l.in1Reg.offset l.widths.instrAddr
  belowIn1 : l.widths.belowIn1 ≤ l.in1Reg.offset
  requestId : l.requestId.Below (l.in1Reg.offset - l.widths.belowIn1) l.widths.requestId
  pulseReg : l.pulseReg = l.in1Reg
  pulse : l.pulse.Below l.in1Reg.offset l.widths.pulse

namespace Placed

variable {l : Layout}

theorem opClass_offset_le (h : l.Placed) : l.opClass.offset ≤ 128 :=
  h.opClass.offset_le.trans h.limited.instr

theorem aluOp_offset_le (h : l.Placed) : l.aluOp.offset ≤ 128 :=
  h.aluOp.offset_le.trans h.opClass_offset_le

theorem in1Reg_offset_le (h : l.Placed) : l.in1Reg.offset ≤ 128 :=
  h.in1Reg.offset_le.trans (h.immediate.offset_le.trans h.aluOp_offset_le)

theorem inside_opClass (h : l.Placed) : l.opClass.Inside :=
  h.opClass.inside h.limited.instr (by omega)

theorem inside_aluOp (h : l.Placed) : l.aluOp.Inside :=
  h.aluOp.inside h.opClass_offset_le (by omega)

theorem inside_immediate (h : l.Placed) : l.immediate.Inside :=
  h.immediate.inside h.aluOp_offset_le (by omega)

theorem inside_in0Reg (h : l.Placed) : l.in0Reg.Inside :=
  h.in0Reg.inside h.aluOp_offset_le (h.limited.regAddr.trans_lt (by omega))

theorem inside_in1Reg (h : l.Placed) : l.in1Reg.Inside :=
  h.in1Reg.inside (h.immediate.offset_le.trans h.aluOp_offset_le)
    (h.limited.regAddr.trans_lt (by omega))

theorem inside_writeReg (h : l.Placed) : l.writeReg.Inside :=
  h.writeReg.inside h.in1Reg_offset_le (h.limited.regAddr.trans_lt (by omega))

theorem inside_jumpAddr (h : l.Placed) : l.jumpAddr.Inside :=
  h.jumpAddr.inside h.in1Reg_offset_le (h.limited.instrAddr.trans_lt (by omega))

theorem inside_requestId (h : l.Placed) : l.requestId.Inside :=
  h.requestId.inside ((Nat.sub_le ..).trans h.in1Reg_offset_le)
    (h.limited.requestId.trans_lt (by omega))

end Placed

variable {l : Layout}

/-- Every field of a layout. -/
def fields (l : Layout) : List Field :=
  [l.opClass, l.aluOp, l.immediate, l.in0Reg, l.in1Reg, l.writeReg, l.jumpAddr, l.requestId,
    l.pulseReg] ++ l.pulse.toList.flatMap fun s => [s.writeEn, s.regSel, s.value]

/-- Where a slot of a pulse parameter lies: below input 1, and not below the last slot. -/
theorem Placed.slot (h : l.Placed) {s : PulseSlot} (hs : s ∈ l.pulse.toList) :
    ∃ top width, s.Below top width ∧ width ≤ 32 ∧ top ≤ l.in1Reg.offset ∧
      l.pulse.cfg.lsb ≤ s.lsb := by
  obtain ⟨henv, hphase, hfreq, hamp, hcfg⟩ := h.pulse
  have h1 := henv.lsb_le
  have h2 := hphase.lsb_le
  have h3 := hfreq.lsb_le
  have h4 := hamp.lsb_le
  have h5 := hcfg.lsb_le
  simp only [Bundle.toList, List.mem_cons, List.not_mem_nil, or_false] at hs
  rcases hs with rfl | rfl | rfl | rfl | rfl
  · exact ⟨_, _, henv, h.limited.envWord, le_refl _, by omega⟩
  · exact ⟨_, _, hphase, h.limited.phase, h1, by omega⟩
  · exact ⟨_, _, hfreq, h.limited.freq, by omega, by omega⟩
  · exact ⟨_, _, hamp, h.limited.amp, by omega, h5⟩
  · exact ⟨_, _, hcfg, h.limited.cfg, by omega, le_refl _⟩

theorem Placed.inside_pulse (h : l.Placed) {s : PulseSlot} (hs : s ∈ l.pulse.toList) :
    s.writeEn.Inside ∧ s.regSel.Inside ∧ s.value.Inside := by
  obtain ⟨top, width, hbelow, hwidth, htop, -⟩ := h.slot hs
  exact hbelow.inside (htop.trans h.in1Reg_offset_le) hwidth

theorem Placed.inside (h : l.Placed) : ∀ f ∈ l.fields, f.Inside := by
  intro f hf
  rcases List.mem_append.mp hf with hf | hf
  · simp only [List.mem_cons, List.not_mem_nil, or_false] at hf
    rcases hf with rfl | rfl | rfl | rfl | rfl | rfl | rfl | rfl | rfl
    · exact h.inside_opClass
    · exact h.inside_aluOp
    · exact h.inside_immediate
    · exact h.inside_in0Reg
    · exact h.inside_in1Reg
    · exact h.inside_writeReg
    · exact h.inside_jumpAddr
    · exact h.inside_requestId
    · exact h.pulseReg ▸ h.inside_in1Reg
  · obtain ⟨s, hs, hf⟩ := List.mem_flatMap.mp hf
    obtain ⟨hen, hsel, hval⟩ := h.inside_pulse hs
    simp only [List.mem_cons, List.not_mem_nil, or_false] at hf
    rcases hf with rfl | rfl | rfl
    · exact hen
    · exact hsel
    · exact hval

/-- All fields of a word can be read, also those that its class does not use. -/
theorem Placed.exists_extract (h : l.Placed) (w : Word) :
    ∃ values, l.fields.mapM (·.extract w) = .ok values :=
  ⟨_, Checked.mapM_of_ok fun f hf => Field.extract_of_inside (h.inside f hf) w⟩

theorem limited_iff {w : Widths} :
    Limited w ↔ w.instr ≤ 128 ∧ w.limits.find? (fun l => l.max < l.width) = none := by
  simp only [Widths.limits, dataWidth, List.find?_eq_none, List.mem_cons, List.not_mem_nil,
    or_false, forall_eq_or_imp, forall_eq, decide_eq_true_eq, Nat.not_lt]
  constructor
  · rintro ⟨hi, h1, h2, h3, h4, h5, h6, h7, h8⟩
    exact ⟨hi, h1, h2, h3, h4, h5, h6, h7, h8⟩
  · rintro ⟨hi, h1, h2, h3, h4, h5, h6, h7, h8⟩
    exact ⟨hi, h1, h2, h3, h4, h5, h6, h7, h8⟩

theorem requirements_met {w : Widths} :
    Requirement.firstError w.requirements = none ↔ Limited w ∧ 8 + w.demand ≤ w.instr := by
  simp only [Requirement.firstError_eq_none, Widths.requirements, List.forall_mem_cons,
    decide_eq_true_eq]
  constructor
  · rintro ⟨hi, h1, h2, h3, h4, h5, h6, h7, h8, hfit, -⟩
    exact ⟨⟨hi, h1, h2, h3, h4, h5, h6, h7, h8⟩, hfit⟩
  · rintro ⟨⟨hi, h1, h2, h3, h4, h5, h6, h7, h8⟩, hfit⟩
    exact ⟨hi, h1, h2, h3, h4, h5, h6, h7, h8, hfit, List.forall_mem_nil _⟩

/-- Widths within their limits are added up without leaving a 32-bit word. -/
theorem Limited.needed {w : Widths} (h : Limited w) : w.needed = .ok w.demand := by
  obtain ⟨hi, h1, h2, h3, h4, h5, h6, h7, h8⟩ := h
  have hbelow : w.belowIn1 ≤ 16 := max_le (by omega) h2
  have hadd {a b : Nat} (hab : a + b < 4294967296) : Checked.add 32 a b = .ok (a + b) := if_pos hab
  have halu : w.neededAlu = .ok (32 + w.regAddr + w.belowIn1 + w.requestId) := by
    simp (disch := omega) only [Widths.neededAlu, dataWidth, List.foldlM_cons, List.foldlM_nil,
      hadd, Checked.ok_bind, Checked.pure_eq_ok]
  have hpulse : w.neededPulse = .ok (32 + w.regAddr + (w.pulse.toList.map (· + 2)).sum) := by
    simp (disch := omega) only [Widths.neededPulse, Widths.neededSlots, dataWidth, Bundle.toList,
      List.foldlM_cons, List.foldlM_nil, List.map_cons, List.map_nil, List.sum_cons, List.sum_nil,
      hadd, Checked.ok_bind, Checked.pure_eq_ok, Except.ok.injEq]
    omega
  rw [Widths.needed, halu, Checked.ok_bind, hpulse]
  rfl

theorem ofWidths_of_limited {w : Widths} (h : Limited w) :
    ofWidths w =
      if w.instr - 8 < w.demand then throw (.overflow w.demand (w.instr - 8))
      else liftM (place w) := by
  obtain ⟨hi, hnone⟩ := limited_iff.mp h
  simp only [ofWidths, Nat.not_lt.mpr hi, hnone, h.needed, if_false]
  rfl

theorem placed_of_place {w : Widths} {l : Layout} (hw : Limited w) (h : place w = .ok l) :
    l.widths = w ∧ l.Placed := by
  simp only [place, Checked.bind_eq_ok, Field.below_eq_ok, placePulse_eq_ok, Checked.sub_eq_ok,
    Checked.pure_eq_ok, Except.ok.injEq] at h
  obtain ⟨opClass, h1, aluOp, h2, immediate, h3, in0Reg, h4, in1Reg, h5, writeReg, h6, jumpAddr, h7,
    top, htop, requestId, h8, pulse, h9, rfl⟩ := h
  have h8' : requestId.Below (in1Reg.offset - w.belowIn1) w.requestId := by
    rwa [← htop, Nat.add_sub_cancel]
  exact ⟨rfl, hw, h1, h2, h3, h4, h5, h6, h7, by simp only; omega, h8', rfl, h9⟩

theorem exists_placePulse {top : Nat} {w : Bundle Nat} (h : (w.toList.map (· + 2)).sum ≤ top) :
    ∃ b, placePulse top w = .ok b := by
  simp only [Bundle.toList, List.map_cons, List.map_nil, List.sum_cons, List.sum_nil] at h
  obtain ⟨envWord, h1⟩ := PulseSlot.exists_below (show w.envWord + 2 ≤ top by omega)
  have t1 := h1.lsb_eq
  obtain ⟨phase, h2⟩ := PulseSlot.exists_below (show w.phase + 2 ≤ envWord.lsb by omega)
  have t2 := h2.lsb_eq
  obtain ⟨freq, h3⟩ := PulseSlot.exists_below (show w.freq + 2 ≤ phase.lsb by omega)
  have t3 := h3.lsb_eq
  obtain ⟨amp, h4⟩ := PulseSlot.exists_below (show w.amp + 2 ≤ freq.lsb by omega)
  have t4 := h4.lsb_eq
  obtain ⟨cfg, h5⟩ := PulseSlot.exists_below (show w.cfg + 2 ≤ amp.lsb by omega)
  exact ⟨⟨envWord, phase, freq, amp, cfg⟩, placePulse_eq_ok.mpr ⟨h1, h2, h3, h4, h5⟩⟩

/-- Widths that need no more bits than there are have a place for every field. -/
theorem exists_place {w : Widths} (hfit : 8 + w.demand ≤ w.instr) : ∃ l, place w = .ok l := by
  have hmax : w.demand ≤ w.instr - 8 := by omega
  obtain ⟨halu, hpulse⟩ := max_le_iff.mp hmax
  change 32 + w.regAddr + w.belowIn1 + w.requestId ≤ _ at halu
  have hreg : w.regAddr ≤ w.belowIn1 := le_max_left _ _
  have haddr : w.instrAddr ≤ w.belowIn1 := le_max_right _ _
  obtain ⟨opClass, h1⟩ := Field.exists_below (show 5 ≤ w.instr by omega)
  have t1 := h1.top_eq
  obtain ⟨aluOp, h2⟩ := Field.exists_below (show 3 ≤ opClass.offset by omega)
  have t2 := h2.top_eq
  obtain ⟨immediate, h3⟩ := Field.exists_below (show 32 ≤ aluOp.offset by omega)
  have t3 := h3.top_eq
  obtain ⟨in0Reg, h4⟩ := Field.exists_below (show w.regAddr ≤ aluOp.offset by omega)
  obtain ⟨in1Reg, h5⟩ := Field.exists_below (show w.regAddr ≤ immediate.offset by omega)
  have t5 := h5.top_eq
  obtain ⟨writeReg, h6⟩ := Field.exists_below (show w.regAddr ≤ in1Reg.offset by omega)
  obtain ⟨jumpAddr, h7⟩ := Field.exists_below (show w.instrAddr ≤ in1Reg.offset by omega)
  have hsub := Checked.sub_of_le (show w.belowIn1 ≤ in1Reg.offset by omega)
  obtain ⟨requestId, h8⟩ :=
    Field.exists_below (show w.requestId ≤ in1Reg.offset - w.belowIn1 by omega)
  obtain ⟨pulse, h9⟩ := exists_placePulse (w := w.pulse) (show _ ≤ in1Reg.offset by omega)
  simp only [place, Checked.bind_eq_ok, Field.below_eq_ok, Checked.pure_eq_ok, Except.ok.injEq]
  exact ⟨_, opClass, h1, aluOp, h2, immediate, h3, in0Reg, h4, in1Reg, h5, writeReg, h6, jumpAddr,
    h7, _, hsub, requestId, h8, pulse, h9, rfl⟩

/-- The first limit that is broken is the one reported. -/
theorem firstError_of_find? {limits : List WidthLimit} {l : WidthLimit}
    (h : limits.find? (fun l => l.max < l.width) = some l) (rest : List (Requirement LayoutError)) :
    Requirement.firstError (limits.map WidthLimit.requirement ++ rest) =
      some (.fieldTooWide l.name l.width l.max) := by
  obtain ⟨hl, before, after, rfl, hbefore⟩ := List.find?_eq_some_iff_append.mp h
  have hmet : ∀ r ∈ before.map WidthLimit.requirement, r.met = true := by
    intro r hr
    obtain ⟨l', hl', rfl⟩ := List.mem_map.mp hr
    simpa [WidthLimit.requirement] using hbefore l' hl'
  have hbroken : l.requirement.met = false := by simpa [WidthLimit.requirement] using hl
  rw [List.map_append, List.append_assoc, Requirement.firstError_append_of_met hmet, List.map_cons,
    List.cons_append, Requirement.firstError_cons_of_not_met hbroken]
  rfl

/-- The limits are checked one after the other, and the demand after them. -/
theorem requires_ofWidths (w : Widths) : (ofWidths w).Requires w.requirements := by
  by_cases hi : w.instr ≤ 128
  · cases hfind : w.limits.find? (fun l => l.max < l.width) with
    | some l =>
      refine Attempt.requires_of_throw (e := .fieldTooWide l.name l.width l.max) ?_ ?_
      · rw [Widths.requirements, Requirement.firstError_cons_of_met (decide_eq_true hi)]
        exact firstError_of_find? hfind
          [⟨8 + w.demand ≤ w.instr, .overflow w.demand (w.instr - 8)⟩]
      · simp only [ofWidths, Nat.not_lt.mpr hi, hfind, if_false]
        rfl
    | none =>
      have hw := limited_iff.mpr ⟨hi, hfind⟩
      by_cases hfit : 8 + w.demand ≤ w.instr
      · obtain ⟨l, hl⟩ := exists_place hfit
        refine Attempt.requires_of_pure (a := l) (requirements_met.mpr ⟨hw, hfit⟩) ?_
        rw [ofWidths_of_limited hw, if_neg (by omega), hl]
        rfl
      · refine Attempt.requires_of_throw (e := .overflow w.demand (w.instr - 8)) ?_ ?_
        · obtain ⟨hi, h1, h2, h3, h4, h5, h6, h7, h8⟩ := hw
          simp [Widths.requirements, Requirement.firstError, hi, h1, h2, h3, h4, h5, h6, h7, h8,
            Nat.lt_of_not_le hfit]
        · have hpos : 32 ≤ w.demand := le_max_of_le_left (by omega)
          rw [ofWidths_of_limited hw, if_pos (by omega)]
  · refine Attempt.requires_of_throw (e := .instrTooWide w.instr) ?_ ?_
    · exact Requirement.firstError_cons_of_not_met (decide_eq_false hi) _
    · simp only [ofWidths, Nat.lt_of_not_le hi, if_true]
      rfl

/-- No widths make the search for a layout fault. -/
theorem returns_ofWidths (w : Widths) : Attempt.Returns (ofWidths w) :=
  (requires_ofWidths w).returns

/-- The layout of given widths is placed. -/
theorem placed_of_ofWidths {w : Widths} {l : Layout} (h : ofWidths w = pure l) :
    l.widths = w ∧ l.Placed := by
  obtain ⟨hw, hfit⟩ := requirements_met.mp ((requires_ofWidths w).exists_pure_iff.mp ⟨l, h⟩)
  rw [ofWidths_of_limited hw, if_neg (by omega), Attempt.liftM_eq_pure] at h
  exact placed_of_place hw h

end Layout

end Sequencer

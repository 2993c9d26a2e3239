import Mathlib
import Sequencer.Config
import Sequencer.Isa.Encoding
import Sequencer.Proofs.Layout

/-! What decoding returns.

    In a placed layout no access to a field faults, so every word decodes. The values it decodes to
    were cut out of fields, so each of them fits the field it came from. -/

namespace Sequencer

/-! ### Operations that fit -/

/-- Does the register of an input 0 fit a register address? -/
def Operand.Fits (w : Widths) : Operand → Prop
  | .imm _ => True
  | .reg r => r.toNat < 2 ^ w.regAddr

/-- Does every value of an operation fit the field that it goes to? -/
def Operation.Fits (w : Widths) : Operation → Prop
  | .regAlu _ in0 in1 write =>
    in0.Fits w ∧ in1.toNat < 2 ^ w.regAddr ∧ write.toNat < 2 ^ w.regAddr
  | .jump addr => addr.toNat < 2 ^ w.instrAddr
  | .jumpCond _ in0 in1 addr =>
    in0.Fits w ∧ in1.toNat < 2 ^ w.regAddr ∧ addr.toNat < 2 ^ w.instrAddr
  | .aluFproc _ in0 write id =>
    in0.Fits w ∧ write.toNat < 2 ^ w.regAddr ∧ id.toNat < 2 ^ w.requestId
  | .jumpFproc _ in0 addr id =>
    in0.Fits w ∧ addr.toNat < 2 ^ w.instrAddr ∧ id.toNat < 2 ^ w.requestId
  | .incQclk _ in0 => in0.Fits w
  | .sync id => id.toNat < 2 ^ w.requestId
  | .pulseWrite _ _ reg fields =>
    reg.toNat < 2 ^ w.regAddr ∧
      fields.envWord.value.toNat < 2 ^ w.pulse.envWord ∧
      fields.phase.value.toNat < 2 ^ w.pulse.phase ∧
      fields.freq.value.toNat < 2 ^ w.pulse.freq ∧ fields.amp.value.toNat < 2 ^ w.pulse.amp ∧
      fields.cfg.value.toNat < 2 ^ w.pulse.cfg
  | .done => True
  | .pulseReset => True
  | .unknown bits => bits.toNat < 2 ^ 5 ∧ OpClass.ofBits? bits = none

namespace Layout

/-! ### Reading a field -/

/-- A number below a power of two survives the cut to a word of at least as many bits. -/
theorem mod_of_lt_pow {n width bits : Nat} (h : n < 2 ^ width) (hle : width ≤ bits) :
    n % 2 ^ bits = n :=
  Nat.mod_eq_of_lt (lt_of_lt_of_le h (Nat.pow_le_pow_right (by decide) hle))

variable {f : Field} {width : Nat}

theorem registerOf_ok (h : f.Inside) (hf : f.width = width) (hw : width ≤ 8) (w : Word) :
    ∃ reg, registerOf f w = .ok reg ∧ reg.toNat < 2 ^ width := by
  have hlt := hf ▸ f.value_toNat_lt w
  refine ⟨(f.value w).toNat.toUInt8, by rw [registerOf, Field.extract_of_inside h]; rfl, ?_⟩
  rwa [Nat.toUInt8, UInt8.toNat_ofNat', mod_of_lt_pow hlt hw]

theorem addressOf_ok (h : f.Inside) (hf : f.width = width) (hw : width ≤ 16) (w : Word) :
    ∃ addr, addressOf f w = .ok addr ∧ addr.toNat < 2 ^ width := by
  have hlt := hf ▸ f.value_toNat_lt w
  refine ⟨(f.value w).toNat.toUInt16, by rw [addressOf, Field.extract_of_inside h]; rfl, ?_⟩
  rwa [Nat.toUInt16, UInt16.toNat_ofNat', mod_of_lt_pow hlt hw]

theorem dataOf_ok (h : f.Inside) (hf : f.width = width) (hw : width ≤ 32) (w : Word) :
    ∃ x, dataOf f w = .ok x ∧ x.toNat < 2 ^ width := by
  have hlt := hf ▸ f.value_toNat_lt w
  refine ⟨(f.value w).toNat.toUInt32, by rw [dataOf, Field.extract_of_inside h]; rfl, ?_⟩
  rwa [Nat.toUInt32, UInt32.toNat_ofNat', mod_of_lt_pow hlt hw]

/-! ### Reading an operation -/

variable {l : Layout}

theorem aluOpOf_ok (h : l.Placed) (w : Word) : ∃ op, l.aluOpOf w = .ok op := by
  rw [aluOpOf, Field.extract_of_inside h.inside_aluOp]
  exact ⟨_, rfl⟩

theorem in0Of_ok (h : l.Placed) (c : OpClass) (w : Word) :
    ∃ in0, l.in0Of c w = .ok in0 ∧ in0.Fits l.widths := by
  unfold in0Of
  split
  case isTrue =>
    obtain ⟨x, hx, -⟩ := dataOf_ok h.inside_immediate h.immediate.width_eq (le_refl 32) w
    rw [hx]
    exact ⟨.imm x, rfl, trivial⟩
  case isFalse =>
    obtain ⟨r, hr, hlt⟩ := registerOf_ok h.inside_in0Reg h.in0Reg.width_eq h.limited.regAddr w
    rw [hr]
    exact ⟨.reg r, rfl, hlt⟩

theorem pulseFieldOf_ok {s : PulseSlot} {top : Nat} (h : s.Below top width) (htop : top ≤ 128)
    (hw : width ≤ 32) (w : Word) :
    ∃ f, pulseFieldOf s w = .ok f ∧ f.value.toNat < 2 ^ width := by
  obtain ⟨hen, hsel, hval⟩ := h.inside htop hw
  obtain ⟨x, hx, hlt⟩ := dataOf_ok hval h.value.width_eq hw w
  rw [pulseFieldOf, Field.extract_of_inside hen, Field.extract_of_inside hsel, hx]
  exact ⟨_, rfl, hlt⟩

theorem pulseFieldsOf_ok (h : l.Placed) (w : Word) :
    ∃ fields, l.pulseFieldsOf w = .ok fields ∧
      fields.envWord.value.toNat < 2 ^ l.widths.pulse.envWord ∧
      fields.phase.value.toNat < 2 ^ l.widths.pulse.phase ∧
      fields.freq.value.toNat < 2 ^ l.widths.pulse.freq ∧
      fields.amp.value.toNat < 2 ^ l.widths.pulse.amp ∧
      fields.cfg.value.toNat < 2 ^ l.widths.pulse.cfg := by
  have h0 := h.in1Reg_offset_le
  have h1 := h.pulse.envWord.lsb_le.trans h0
  have h2 := h.pulse.phase.lsb_le.trans h1
  have h3 := h.pulse.freq.lsb_le.trans h2
  have h4 := h.pulse.amp.lsb_le.trans h3
  obtain ⟨env, henv, hlt1⟩ := pulseFieldOf_ok h.pulse.envWord h0 h.limited.envWord w
  obtain ⟨phase, hphase, hlt2⟩ := pulseFieldOf_ok h.pulse.phase h1 h.limited.phase w
  obtain ⟨freq, hfreq, hlt3⟩ := pulseFieldOf_ok h.pulse.freq h2 h.limited.freq w
  obtain ⟨amp, hamp, hlt4⟩ := pulseFieldOf_ok h.pulse.amp h3 h.limited.amp w
  obtain ⟨cfg, hcfg, hlt5⟩ := pulseFieldOf_ok h.pulse.cfg h4 h.limited.cfg w
  rw [pulseFieldsOf, henv, hphase, hfreq, hamp, hcfg]
  exact ⟨_, rfl, hlt1, hlt2, hlt3, hlt4, hlt5⟩

theorem operationOf_ok (h : l.Placed) (c : OpClass) (w : Word) :
    ∃ op, l.operationOf c w = .ok op ∧ op.Fits l.widths := by
  have hreg := h.limited.regAddr
  obtain ⟨op, hop⟩ := aluOpOf_ok h w
  obtain ⟨in0, hin0, h0⟩ := in0Of_ok h c w
  obtain ⟨in1, hin1, h1⟩ := registerOf_ok h.inside_in1Reg h.in1Reg.width_eq hreg w
  obtain ⟨write, hwrite, hw⟩ := registerOf_ok h.inside_writeReg h.writeReg.width_eq hreg w
  obtain ⟨addr, haddr, ha⟩ :=
    addressOf_ok h.inside_jumpAddr h.jumpAddr.width_eq h.limited.instrAddr w
  obtain ⟨id, hid, hi⟩ := addressOf_ok h.inside_requestId h.requestId.width_eq h.limited.requestId w
  obtain ⟨time, htime, -⟩ := dataOf_ok h.inside_immediate h.immediate.width_eq (le_refl 32) w
  obtain ⟨fields, hfields, hf⟩ := pulseFieldsOf_ok h w
  cases c with
  | regAluI | regAlu =>
    simp only [operationOf, hop, hin0, hin1, hwrite, Checked.ok_bind, Checked.pure_eq_ok]
    exact ⟨_, rfl, h0, h1, hw⟩
  | jumpI =>
    simp only [operationOf, haddr, Checked.ok_bind, Checked.pure_eq_ok]
    exact ⟨_, rfl, ha⟩
  | jumpCondI | jumpCond =>
    simp only [operationOf, hop, hin0, hin1, haddr, Checked.ok_bind, Checked.pure_eq_ok]
    exact ⟨_, rfl, h0, h1, ha⟩
  | aluFprocI | aluFproc =>
    simp only [operationOf, hop, hin0, hwrite, hid, Checked.ok_bind, Checked.pure_eq_ok]
    exact ⟨_, rfl, h0, hw, hi⟩
  | jumpFprocI | jumpFproc =>
    simp only [operationOf, hop, hin0, haddr, hid, Checked.ok_bind, Checked.pure_eq_ok]
    exact ⟨_, rfl, h0, ha, hi⟩
  | incQclkI | incQclk =>
    simp only [operationOf, hop, hin0, Checked.ok_bind, Checked.pure_eq_ok]
    exact ⟨_, rfl, h0⟩
  | sync =>
    simp only [operationOf, hid, Checked.ok_bind, Checked.pure_eq_ok]
    exact ⟨_, rfl, hi⟩
  | pulseWrite | pulseWriteTrig =>
    simp only [operationOf, h.pulseReg, htime, hin1, hfields, Checked.ok_bind, Checked.pure_eq_ok]
    exact ⟨_, rfl, h1, hf⟩
  | done => exact ⟨.done, rfl, trivial⟩
  | pulseReset => exact ⟨.pulseReset, rfl, trivial⟩

/-- Every word decodes, to an operation whose values fit. -/
theorem decode_ok (h : l.Placed) (w : Word) :
    ∃ op, l.decode w = .ok op ∧ op.Fits l.widths := by
  obtain ⟨bits, hbits, hlt⟩ := registerOf_ok h.inside_opClass h.opClass.width_eq (by omega) w
  have hclass : l.classBits w = .ok bits := hbits
  simp only [decode, hclass, Checked.ok_bind]
  split
  case h_1 c hc => exact operationOf_ok h c w
  case h_2 hnone => exact ⟨.unknown bits, rfl, hlt, hnone⟩

end Layout

/-! ### A narrow configuration -/

/-- Words of 96 bits, four registers, eight words of program memory and parameters of four bits: a
    core small enough to be run by evaluation. -/
def Config.narrow : Config := { widths := ⟨96, 2, 3, 4, ⟨4, 4, 4, 4, 4⟩⟩ }

/-- The same, where a fetch takes as long as it can and an unassigned class is no operation. -/
def Config.slow : Config :=
  { Config.narrow with memReadLatency := 0xffffffff, unknownOpcode := .fallThrough }

namespace Narrow

/-! Words of this configuration. A register is numbered 1 where the name does not say otherwise. -/

def setFiftyThree : Word := 0x100000003510000000000000

def setMinusSix : Word := 0x10fffffffa10000000000000

def addNine : Word := 0x110000000910000000000000

def jump : Word := 0x200000000010000000000000

def aluFproc : Word := 0x410000000533800000000000

def readFproc : Word := 0x460000000010800000000000

def incSubImm : Word := 0x620000000500000000000000

def incAddReg : Word := 0x694000000000000000000000

def incSubReg : Word := 0x6a4000000000000000000000

def sync : Word := 0x700000000001800000000000

def pulseAtOne : Word := 0x900000000140000c00000000

def pulseAtSeven : Word := 0x900000000740000c00000000

def done : Word := 0xa00000000000000000000000

def pulseReset : Word := 0xb00000000000000000000000

/-- The amplitude of a pulse from register 1, and nothing else. -/
def amplitude : Bundle PulseField := { Bundle.fill {} with amp := ⟨true, true, 0⟩ }

/-- The words with what they stand for. -/
def listing : List (Word × Operation) :=
  [(setFiftyThree, .regAlu .id0 (.imm 53) 0 1), (setMinusSix, .regAlu .id0 (.imm 0xfffffffa) 0 1),
   (addNine, .regAlu .add (.imm 9) 0 1), (jump, .jump 2), (aluFproc, .aluFproc .add (.imm 5) 3 7),
   (readFproc, .aluFproc .id1 (.imm 0) 1 1), (incSubImm, .incQclk .sub (.imm 5)),
   (incAddReg, .incQclk .add (.reg 1)), (incSubReg, .incQclk .sub (.reg 1)), (sync, .sync 3),
   (pulseAtOne, .pulseWrite true 1 1 amplitude), (pulseAtSeven, .pulseWrite true 7 1 amplitude),
   (done, .done), (pulseReset, .pulseReset)]

example : ∃ l, Config.narrow.layout = pure l ∧ ∀ p ∈ listing, l.decode p.1 = .ok p.2 :=
  ⟨_, rfl, by decide +kernel⟩

end Narrow

end Sequencer

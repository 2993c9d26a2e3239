import Sequencer.Word
import Sequencer.Isa.Bundle
import Sequencer.Isa.Opcode

/-! Where the fields of an instruction word lie.

    The offsets follow from the widths of the components and are shared by every opcode class; a
    class only decides which of the overlapping fields it reads.

        | op class | alu op | immediate          | in1 reg | write reg | ... | request id |
                            | in0 reg |                    | jump address    |
                                                 | pulse reg | env | phase | freq | amp | cfg |

    A layout exists when the word has at most 128 bits, every width keeps its limit and both rows of
    fields fit below the opcode. -/

namespace Sequencer

/-- Width of registers, immediates and the timebase. -/
def dataWidth : Nat := 32

/-- Widths of the components of an instruction word. -/
structure Widths where
  instr : Nat := 128
  regAddr : Nat := 4
  instrAddr : Nat := 8
  requestId : Nat := 8
  pulse : Bundle Nat := ⟨24, 17, 9, 16, 4⟩
  deriving DecidableEq, Repr, Inhabited

/-- A width with the name it is reported under and the largest value it may take. -/
structure WidthLimit where
  name : String
  width : Nat
  max : Nat
  deriving DecidableEq, Repr

namespace Widths

/-- Every limited width, in the order in which the limits are checked. -/
def limits (w : Widths) : List WidthLimit :=
  [⟨"reg_addr", w.regAddr, 8⟩, ⟨"instr_addr", w.instrAddr, 16⟩, ⟨"request_id", w.requestId, 16⟩,
   ⟨"env_word", w.pulse.envWord, dataWidth⟩, ⟨"phase", w.pulse.phase, dataWidth⟩,
   ⟨"freq", w.pulse.freq, dataWidth⟩, ⟨"amp", w.pulse.amp, dataWidth⟩,
   ⟨"cfg", w.pulse.cfg, dataWidth⟩]

/-- Bits that the write register and the jump address share below input 1. -/
def belowIn1 (w : Widths) : Nat := max w.regAddr w.instrAddr

/-- Bits below the opcode that the ALU and jump classes take, added up in 32-bit words. -/
def neededAlu (w : Widths) : Checked Nat :=
  [w.regAddr, w.belowIn1, w.requestId].foldlM (Checked.add 32) dataWidth

/-- Bits that the slots of the pulse parameters take, added up in 32-bit words. -/
def neededSlots (w : Widths) : Checked Nat :=
  w.pulse.toList.foldlM (fun total width => do Checked.add 32 total (← Checked.add 32 width 2)) 0

/-- Bits below the opcode that the pulse classes take. -/
def neededPulse (w : Widths) : Checked Nat := do
  Checked.add 32 (← Checked.add 32 dataWidth w.regAddr) (← w.neededSlots)

/-- Bits below the opcode that some class takes. -/
def needed (w : Widths) : Checked Nat := do
  return max (← w.neededAlu) (← w.neededPulse)

/-- Bits below the opcode. -/
def available (w : Widths) : Nat := w.instr - (OpClass.width + AluOp.width)

end Widths

/-- Why widths have no layout. -/
inductive LayoutError where
  | instrTooWide (width : Nat)
  | fieldTooWide (field : String) (width max : Nat)
  | overflow (needed available : Nat)
  deriving DecidableEq, Repr

def LayoutError.message : LayoutError → String
  | instrTooWide width => s!"instruction width {width} exceeds 128 bits"
  | fieldTooWide field width max => s!"{field} width {width} exceeds the maximum of {max}"
  | overflow needed available =>
    s!"fields need {needed} bits below the opcode but only {available} are available"

/-- Places of one pulse parameter: write enable, register select, immediate value. -/
structure PulseSlot where
  writeEn : Field
  regSel : Field
  value : Field
  deriving DecidableEq, Repr, Inhabited

/-- The slot of a parameter of `width` bits directly below bit `top`. -/
def PulseSlot.below (top width : Nat) : Checked PulseSlot := do
  let writeEn ← Field.below top 1
  let regSel ← Field.below writeEn.offset 1
  let value ← Field.below regSel.offset width
  return { writeEn, regSel, value }

/-- Lowest bit of a slot. -/
def PulseSlot.lsb (s : PulseSlot) : Nat := s.value.offset

/-- The place of every field. -/
structure Layout where
  widths : Widths
  opClass : Field
  aluOp : Field
  immediate : Field
  in0Reg : Field
  in1Reg : Field
  writeReg : Field
  jumpAddr : Field
  requestId : Field
  pulseReg : Field
  pulse : Bundle PulseSlot
  deriving DecidableEq, Repr, Inhabited

namespace Layout

/-- Stack the slots of the pulse parameters from bit `top` downwards. -/
def placePulse (top : Nat) (w : Bundle Nat) : Checked (Bundle PulseSlot) := do
  let envWord ← PulseSlot.below top w.envWord
  let phase ← PulseSlot.below envWord.lsb w.phase
  let freq ← PulseSlot.below phase.lsb w.freq
  let amp ← PulseSlot.below freq.lsb w.amp
  let cfg ← PulseSlot.below amp.lsb w.cfg
  return { envWord, phase, freq, amp, cfg }

/-- Place every field from the top of the word downwards. -/
def place (w : Widths) : Checked Layout := do
  let opClass ← Field.below w.instr OpClass.width
  let aluOp ← Field.below opClass.offset AluOp.width
  let immediate ← Field.below aluOp.offset dataWidth
  let in0Reg ← Field.below aluOp.offset w.regAddr
  let in1Reg ← Field.below immediate.offset w.regAddr
  let writeReg ← Field.below in1Reg.offset w.regAddr
  let jumpAddr ← Field.below in1Reg.offset w.instrAddr
  let requestId ← Field.below (← Checked.sub in1Reg.offset w.belowIn1) w.requestId
  let pulse ← placePulse in1Reg.offset w.pulse
  return { widths := w, opClass, aluOp, immediate, in0Reg, in1Reg, writeReg, jumpAddr, requestId,
           pulseReg := in1Reg, pulse }

/-- The layout of given widths. -/
def ofWidths (w : Widths) : Attempt LayoutError Layout := do
  if 128 < w.instr then throw (.instrTooWide w.instr)
  if let some l := w.limits.find? (fun l => l.max < l.width) then
    throw (.fieldTooWide l.name l.width l.max)
  let needed ← w.needed
  if w.available < needed then throw (.overflow needed w.available)
  place w

/-- Registers that a register address can name. -/
def numRegisters (l : Layout) : Checked Nat := Checked.power 64 l.widths.regAddr

/-- Words that a jump address can name. -/
def programDepth (l : Layout) : Checked Nat := Checked.power 64 l.widths.instrAddr

end Layout

end Sequencer

import Sequencer.Isa.Operation
import Sequencer.Text.Radix

/-! Operations as text.

    Immediates are written as signed numbers, addresses and pulse values in hexadecimal. A pulse
    lists the parameters it writes, and its command time only when it is triggered. -/

namespace Sequencer

def Operand.text : Operand → String
  | .imm value => Text.signed value
  | .reg index => s!"r{index.toNat}"

namespace PulseField

/-- A parameter as ` label=value`; nothing when it is not written. -/
def text (reg : UInt8) (label : String) (f : PulseField) : String :=
  if f.writeEn then
    if f.regSel then s!" {label}=r{reg.toNat}" else s!" {label}={Text.hex f.value.toNat}"
  else ""

end PulseField

namespace Operation

def text : Operation → String
  | regAlu op in0 in1 write =>
    s!"reg_alu r{write.toNat} = {in0.text} {op.name} r{in1.toNat}"
  | jump addr => s!"jump {Text.hex addr.toNat}"
  | jumpCond op in0 in1 addr =>
    s!"jump_cond {Text.hex addr.toNat} if {in0.text} {op.name} r{in1.toNat}"
  | aluFproc op in0 write id =>
    s!"alu_fproc r{write.toNat} = {in0.text} {op.name} fproc[{id.toNat}]"
  | jumpFproc op in0 addr id =>
    s!"jump_fproc {Text.hex addr.toNat} if {in0.text} {op.name} fproc[{id.toNat}]"
  | incQclk op in0 => s!"inc_qclk qclk {op.name} {in0.text}"
  | sync id => s!"sync {id.toNat}"
  | pulseWrite trigger cmdTime reg fields =>
    (if trigger then s!"pulse_trig @{cmdTime.toNat}" else "pulse") ++
      String.join (Bundle.labels.zipWith (PulseField.text reg) fields).toList
  | done => "done"
  | pulseReset => "pulse_reset"
  | unknown bits => s!"unknown {Text.binary 5 bits.toNat}"

end Operation

end Sequencer

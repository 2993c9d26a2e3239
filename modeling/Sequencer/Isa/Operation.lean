import Sequencer.Isa.Bundle
import Sequencer.Isa.Opcode

/-! Instructions by meaning.

    An operation carries the fields its opcode class gives meaning to and nothing else. The
    accessors say which registers, addresses and ids it presents to the datapath. -/

namespace Sequencer

/-- ALU input 0: an immediate, or the register on read port 0. -/
inductive Operand where
  | imm (value : UInt32)
  | reg (reg : UInt8)
  deriving DecidableEq, Repr, Inhabited

/-- One parameter of a pulse instruction. With `regSel` the value comes from read port 0. -/
structure PulseField where
  writeEn : Bool := false
  regSel : Bool := false
  value : UInt32 := 0
  deriving DecidableEq, Repr, Inhabited

inductive Operation where
  /-- Write `in0 op in1` to a register. -/
  | regAlu (op : AluOp) (in0 : Operand) (in1 write : UInt8)
  | jump (addr : UInt16)
  /-- Jump if bit 0 of `in0 op in1` is set. -/
  | jumpCond (op : AluOp) (in0 : Operand) (in1 : UInt8) (addr : UInt16)
  /-- Write `in0 op feedback` to a register. -/
  | aluFproc (op : AluOp) (in0 : Operand) (write : UInt8) (id : UInt16)
  /-- Jump if bit 0 of `in0 op feedback` is set. -/
  | jumpFproc (op : AluOp) (in0 : Operand) (addr id : UInt16)
  /-- Load the timebase from `in0 op timebase`. -/
  | incQclk (op : AluOp) (in0 : Operand)
  | sync (id : UInt16)
  /-- Write pulse parameters, at once or, with a trigger, when the timebase reaches `cmdTime`. -/
  | pulseWrite (trigger : Bool) (cmdTime : UInt32) (reg : UInt8) (fields : Bundle PulseField)
  | done
  /-- Zero the accumulated phase of the waveform generator. -/
  | pulseReset
  /-- An unassigned class, with its bits. -/
  | unknown (bits : UInt8)
  deriving DecidableEq, Repr, Inhabited

namespace Operation

def in0 : Operation → Option Operand
  | regAlu _ in0 _ _ | jumpCond _ in0 _ _ | aluFproc _ in0 _ _ | jumpFproc _ in0 _ _
  | incQclk _ in0 => some in0
  | _ => none

/-- Address on read port 0: the register of input 0, or the one that pulse parameters select. -/
def readReg0 : Operation → Option UInt8
  | pulseWrite _ _ reg _ => some reg
  | op =>
    match op.in0 with
    | some (.reg reg) => some reg
    | _ => none

def readReg1 : Operation → Option UInt8
  | regAlu _ _ in1 _ | jumpCond _ _ in1 _ => some in1
  | _ => none

def writeReg : Operation → Option UInt8
  | regAlu _ _ _ write | aluFproc _ _ write _ => some write
  | _ => none

def jumpAddr : Operation → Option UInt16
  | jump addr | jumpCond _ _ _ addr | jumpFproc _ _ addr _ => some addr
  | _ => none

/-- Id of a feedback request or of a barrier. -/
def requestId : Operation → Option UInt16
  | aluFproc _ _ _ id | jumpFproc _ _ _ id | sync id => some id
  | _ => none

/-- Value of an immediate input 0. -/
def immediate : Operation → Option UInt32
  | op =>
    match op.in0 with
    | some (.imm value) => some value
    | _ => none

end Operation

end Sequencer

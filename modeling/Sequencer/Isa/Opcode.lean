/-! Opcode classes and ALU operations.

    The top five bits of an instruction word name its class, the three bits below them an ALU
    operation. Sixteen of the thirty-two classes are assigned; every ALU encoding is. -/

namespace Sequencer

/-- What an instruction word is, by its top five bits. The classes ending in `I` take ALU input 0
    from the immediate field instead of a register. -/
inductive OpClass where
  | regAluI
  | regAlu
  | jumpI
  | jumpCondI
  | jumpCond
  | aluFprocI
  | aluFproc
  | jumpFprocI
  | jumpFproc
  | incQclkI
  | incQclk
  | sync
  | pulseWrite
  | pulseWriteTrig
  | done
  | pulseReset
  deriving DecidableEq, Repr, Inhabited

namespace OpClass

/-- Bits of the class field. -/
def width : Nat := 5

def bits : OpClass → UInt8
  | regAluI => 0b00010
  | regAlu => 0b00011
  | jumpI => 0b00100
  | jumpCondI => 0b00110
  | jumpCond => 0b00111
  | aluFprocI => 0b01000
  | aluFproc => 0b01001
  | jumpFprocI => 0b01010
  | jumpFproc => 0b01011
  | incQclkI => 0b01100
  | incQclk => 0b01101
  | sync => 0b01110
  | pulseWrite => 0b10000
  | pulseWriteTrig => 0b10010
  | done => 0b10100
  | pulseReset => 0b10110

/-- The class with the given bits, if they are assigned. -/
def ofBits? (b : UInt8) : Option OpClass :=
  match b.toNat with
  | 0b00010 => some regAluI
  | 0b00011 => some regAlu
  | 0b00100 => some jumpI
  | 0b00110 => some jumpCondI
  | 0b00111 => some jumpCond
  | 0b01000 => some aluFprocI
  | 0b01001 => some aluFproc
  | 0b01010 => some jumpFprocI
  | 0b01011 => some jumpFproc
  | 0b01100 => some incQclkI
  | 0b01101 => some incQclk
  | 0b01110 => some sync
  | 0b10000 => some pulseWrite
  | 0b10010 => some pulseWriteTrig
  | 0b10100 => some done
  | 0b10110 => some pulseReset
  | _ => none

def name : OpClass → String
  | regAluI => "reg_alu_i"
  | regAlu => "reg_alu"
  | jumpI => "jump_i"
  | jumpCondI => "jump_cond_i"
  | jumpCond => "jump_cond"
  | aluFprocI => "alu_fproc_i"
  | aluFproc => "alu_fproc"
  | jumpFprocI => "jump_fproc_i"
  | jumpFproc => "jump_fproc"
  | incQclkI => "inc_qclk_i"
  | incQclk => "inc_qclk"
  | sync => "sync"
  | pulseWrite => "pulse_write"
  | pulseWriteTrig => "pulse_write_trig"
  | done => "done"
  | pulseReset => "pulse_reset"

/-- Is ALU input 0 taken from the immediate field? -/
def immediateIn0 : OpClass → Bool
  | regAluI | jumpCondI | aluFprocI | jumpFprocI | incQclkI => true
  | _ => false

theorem ofBits?_bits (c : OpClass) : ofBits? c.bits = some c := by cases c <;> rfl

end OpClass

/-- The ALU operation, the three bits below the class. -/
inductive AluOp where
  | id0
  | add
  | sub
  | eq
  | le
  | ge
  | id1
  | zero
  deriving DecidableEq, Repr, Inhabited

namespace AluOp

/-- Bits of the ALU operation field. -/
def width : Nat := 3

def bits : AluOp → UInt8
  | id0 => 0b000
  | add => 0b001
  | sub => 0b010
  | eq => 0b011
  | le => 0b100
  | ge => 0b101
  | id1 => 0b110
  | zero => 0b111

/-- The operation named by the lowest three bits. -/
def ofBits (b : UInt8) : AluOp :=
  match b.toNat % 8 with
  | 0 => id0
  | 1 => add
  | 2 => sub
  | 3 => eq
  | 4 => le
  | 5 => ge
  | 6 => id1
  | _ => zero

def name : AluOp → String
  | id0 => "id0"
  | add => "add"
  | sub => "sub"
  | eq => "eq"
  | le => "le"
  | ge => "ge"
  | id1 => "id1"
  | zero => "zero"

/-- Does the operation only give zero or one, so that it makes sense as a branch condition? -/
def isComparison : AluOp → Bool
  | eq | le | ge => true
  | _ => false

/-- Sign of a data word in two's complement. -/
def signBit (x : UInt32) : Bool := x >>> 31 == 1

/-- Signed comparison by the sign of the difference, corrected where the difference overflows. -/
def lessThan (a b : UInt32) : Bool :=
  let diff := a - b
  let overflow := signBit a != signBit b && signBit diff != signBit a
  signBit diff != overflow

/-- Combine two data words. Arithmetic wraps; a comparison is signed and gives zero or one. `le`
    asks for strictly less and `ge` is its complement, so equal operands give `le = 0` and
    `ge = 1`. -/
def apply (op : AluOp) (a b : UInt32) : UInt32 :=
  match op with
  | id0 => a
  | add => a + b
  | sub => a - b
  | eq => (a == b).toUInt32
  | le => (lessThan a b).toUInt32
  | ge => (!lessThan a b).toUInt32
  | id1 => b
  | zero => 0

theorem ofBits_bits (op : AluOp) : ofBits op.bits = op := by cases op <;> rfl

end AluOp

end Sequencer

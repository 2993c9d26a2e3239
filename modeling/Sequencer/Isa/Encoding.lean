import Sequencer.Isa.Layout
import Sequencer.Isa.Operation
import Sequencer.Text.Radix

/-! Instruction words and operations.

    `decode` reads a word by its opcode class. `encode` turns an operation into a list of values and
    the fields they go to, and places them one after the other; the first value that does not fit is
    the error. -/

namespace Sequencer

/-! ### Decoding -/

namespace Layout

/-- The bits of the class field. -/
def classBits (l : Layout) (w : Word) : Checked UInt8 := do
  return (← l.opClass.extract w).toNat.toUInt8

def aluOpOf (l : Layout) (w : Word) : Checked AluOp := do
  return AluOp.ofBits (← l.aluOp.extract w).toNat.toUInt8

def dataOf (f : Field) (w : Word) : Checked UInt32 := do
  return (← f.extract w).toNat.toUInt32

def addressOf (f : Field) (w : Word) : Checked UInt16 := do
  return (← f.extract w).toNat.toUInt16

def registerOf (f : Field) (w : Word) : Checked UInt8 := do
  return (← f.extract w).toNat.toUInt8

/-- ALU input 0 of a class. -/
def in0Of (l : Layout) (c : OpClass) (w : Word) : Checked Operand := do
  if c.immediateIn0 then
    return .imm (← dataOf l.immediate w)
  else
    return .reg (← registerOf l.in0Reg w)

def pulseFieldOf (s : PulseSlot) (w : Word) : Checked PulseField := do
  return { writeEn := (← s.writeEn.extract w) == 1
           regSel := (← s.regSel.extract w) == 1
           value := ← dataOf s.value w }

/-- The parameters of a pulse instruction. -/
def pulseFieldsOf (l : Layout) (w : Word) : Checked (Bundle PulseField) := do
  return { envWord := ← pulseFieldOf l.pulse.envWord w
           phase := ← pulseFieldOf l.pulse.phase w
           freq := ← pulseFieldOf l.pulse.freq w
           amp := ← pulseFieldOf l.pulse.amp w
           cfg := ← pulseFieldOf l.pulse.cfg w }

/-- The operation of an assigned class. -/
def operationOf (l : Layout) (c : OpClass) (w : Word) : Checked Operation :=
  match c with
  | .regAluI | .regAlu => do
    return .regAlu (← l.aluOpOf w) (← l.in0Of c w) (← registerOf l.in1Reg w)
      (← registerOf l.writeReg w)
  | .jumpI => do
    return .jump (← addressOf l.jumpAddr w)
  | .jumpCondI | .jumpCond => do
    return .jumpCond (← l.aluOpOf w) (← l.in0Of c w) (← registerOf l.in1Reg w)
      (← addressOf l.jumpAddr w)
  | .aluFprocI | .aluFproc => do
    return .aluFproc (← l.aluOpOf w) (← l.in0Of c w) (← registerOf l.writeReg w)
      (← addressOf l.requestId w)
  | .jumpFprocI | .jumpFproc => do
    return .jumpFproc (← l.aluOpOf w) (← l.in0Of c w) (← addressOf l.jumpAddr w)
      (← addressOf l.requestId w)
  | .incQclkI | .incQclk => do
    return .incQclk (← l.aluOpOf w) (← l.in0Of c w)
  | .sync => do
    return .sync (← addressOf l.requestId w)
  | .pulseWrite | .pulseWriteTrig => do
    return .pulseWrite (c == .pulseWriteTrig) (← dataOf l.immediate w) (← registerOf l.pulseReg w)
      (← l.pulseFieldsOf w)
  | .done => return .done
  | .pulseReset => return .pulseReset

/-- A word read according to its opcode class. -/
def decode (l : Layout) (w : Word) : Checked Operation := do
  let bits ← l.classBits w
  match OpClass.ofBits? bits with
  | some c => l.operationOf c w
  | none => return .unknown bits

end Layout

/-! ### Encoding -/

/-- Why an operation has no instruction word. -/
inductive EncodeError where
  | classAssigned (bits : UInt8)
  | classBitsOutOfRange (bits : UInt8)
  | classOutOfRange (c : OpClass)
  | register (reg : UInt8)
  | address (addr : UInt16)
  | requestId (id : UInt16)
  | immediate (name : String) (value : UInt32) (width : Nat)
  | pulseField (name : String) (value : UInt32) (width : Nat)
  deriving DecidableEq, Repr

namespace EncodeError

/-- What an error is about. -/
inductive Kind where
  | opcode
  | register
  | address
  | requestId
  | immediate
  | pulseField
  deriving DecidableEq, Repr

def kind : EncodeError → Kind
  | classAssigned _ | classBitsOutOfRange _ | classOutOfRange _ => .opcode
  | register _ => .register
  | address _ => .address
  | requestId _ => .requestId
  | immediate _ _ _ => .immediate
  | pulseField _ _ _ => .pulseField

/-- A value too large for its field. -/
def misfit (name : String) (value : UInt32) (width : Nat) : String :=
  s!"{name} {Text.hex value.toNat} does not fit in {width} bits."

def message : EncodeError → String
  | classAssigned bits => s!"Opcode class {Text.binary 5 bits.toNat} is assigned."
  | classBitsOutOfRange bits => s!"Opcode class {Text.hex bits.toNat} is out of range."
  | classOutOfRange c => s!"Opcode {c.name} is out of range."
  | register reg => s!"Register {reg.toNat} is out of range."
  | address addr => s!"Jump address {Text.hex addr.toNat} is out of range."
  | requestId id => s!"Request id {Text.hex id.toNat} is out of range."
  | immediate name value width => misfit name value width
  | pulseField name value width => misfit name value width

end EncodeError

/-- A value, the field it goes to, and the error if it does not fit. -/
structure Placement where
  field : Field
  value : Word
  error : EncodeError
  deriving DecidableEq, Repr

namespace Layout

def placeClass (l : Layout) (c : OpClass) (op : AluOp) : List Placement :=
  [⟨l.opClass, .ofNat 128 c.bits.toNat, .classOutOfRange c⟩,
   ⟨l.aluOp, .ofNat 128 op.bits.toNat, .classOutOfRange c⟩]

def placeRegister (f : Field) (reg : UInt8) : Placement :=
  ⟨f, .ofNat 128 reg.toNat, .register reg⟩

def placeAddress (l : Layout) (addr : UInt16) : Placement :=
  ⟨l.jumpAddr, .ofNat 128 addr.toNat, .address addr⟩

def placeRequestId (l : Layout) (id : UInt16) : Placement :=
  ⟨l.requestId, .ofNat 128 id.toNat, .requestId id⟩

def placeIn0 (l : Layout) : Operand → Placement
  | .imm value =>
    ⟨l.immediate, .ofNat 128 value.toNat, .immediate "Immediate" value l.immediate.width⟩
  | .reg reg => placeRegister l.in0Reg reg

def placePulseField (s : PulseSlot) (f : PulseField) (name : String) : List Placement :=
  let writeEn := f.writeEn.toUInt32
  let regSel := f.regSel.toUInt32
  [⟨s.writeEn, .ofNat 128 writeEn.toNat, .pulseField name writeEn s.writeEn.width⟩,
   ⟨s.regSel, .ofNat 128 regSel.toNat, .pulseField name regSel s.regSel.width⟩,
   ⟨s.value, .ofNat 128 f.value.toNat, .pulseField name f.value s.value.width⟩]

/-- The class of an operation by its input 0. -/
def classFor (immediate register : OpClass) : Operand → OpClass
  | .imm _ => immediate
  | .reg _ => register

/-- The values of an operation and their fields, in the order in which they are placed. -/
def placements (l : Layout) : Operation → List Placement
  | .regAlu op in0 in1 write =>
    l.placeClass (classFor .regAluI .regAlu in0) op ++
      [l.placeIn0 in0, placeRegister l.in1Reg in1, placeRegister l.writeReg write]
  | .jump addr => l.placeClass .jumpI .id0 ++ [l.placeAddress addr]
  | .jumpCond op in0 in1 addr =>
    l.placeClass (classFor .jumpCondI .jumpCond in0) op ++
      [l.placeIn0 in0, placeRegister l.in1Reg in1, l.placeAddress addr]
  | .aluFproc op in0 write id =>
    l.placeClass (classFor .aluFprocI .aluFproc in0) op ++
      [l.placeIn0 in0, placeRegister l.writeReg write, l.placeRequestId id]
  | .jumpFproc op in0 addr id =>
    l.placeClass (classFor .jumpFprocI .jumpFproc in0) op ++
      [l.placeIn0 in0, l.placeAddress addr, l.placeRequestId id]
  | .incQclk op in0 => l.placeClass (classFor .incQclkI .incQclk in0) op ++ [l.placeIn0 in0]
  | .sync id => l.placeClass .sync .id0 ++ [l.placeRequestId id]
  | .pulseWrite trigger cmdTime reg fields =>
    l.placeClass (if trigger then .pulseWriteTrig else .pulseWrite) .id0 ++
      [⟨l.immediate, .ofNat 128 cmdTime.toNat,
        .immediate "Command time" cmdTime l.immediate.width⟩, placeRegister l.pulseReg reg] ++
      ((l.pulse.zipWith placePulseField fields).zipWith (· ·) Bundle.titles).toList.flatten
  | .done => l.placeClass .done .id0
  | .pulseReset => l.placeClass .pulseReset .id0
  | .unknown bits => [⟨l.opClass, .ofNat 128 bits.toNat, .classBitsOutOfRange bits⟩]

/-- Place values into a word, one after the other. -/
def assemble (raw : Word) : List Placement → Attempt EncodeError Word
  | [] => return raw
  | p :: ps => do
    match ← p.field.insert raw p.value with
    | some raw => assemble raw ps
    | none => throw p.error

/-- The instruction word of an operation. -/
def encode (l : Layout) (op : Operation) : Attempt EncodeError Word :=
  match op with
  | .unknown bits =>
    if (OpClass.ofBits? bits).isSome then throw (.classAssigned bits)
    else assemble 0 (l.placements (.unknown bits))
  | op => assemble 0 (l.placements op)

end Layout

end Sequencer

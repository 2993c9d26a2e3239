import Mathlib
import Sequencer.Core.Run
import Sequencer.Proofs.Core.Tick

/-! Programs by instruction.

    Between two instructions a program sees the cycle, the program counter, the registers, the
    timebase and how many instructions have retired. `Step` is an interpreter for this view: one
    rule for each operation says what the instruction changes and in which cycle the next one
    starts. An instruction that starts in cycle `b` is decoded in cycle `b + L + 1`, where `L` is
    the read latency of program memory.

    The view of a core is read off at its boundaries, the first cycles of its fetches. -/

namespace Sequencer

/-- `w` is the first cycle from `start` on in which `p` holds. -/
def IsFirst (p : Nat → Prop) (start w : Nat) : Prop :=
  start ≤ w ∧ p w ∧ ∀ t, start ≤ t → t < w → ¬ p t

theorem IsFirst.unique {p : Nat → Prop} {start v w : Nat} (hv : IsFirst p start v)
    (hw : IsFirst p start w) : v = w := by
  obtain ⟨hv0, hpv, hv⟩ := hv
  obtain ⟨hw0, hpw, hw⟩ := hw
  rcases Nat.lt_trichotomy v w with hlt | heq | hgt
  · exact absurd hpv (hw v hv0 hlt)
  · exact heq
  · exact absurd hpw (hv w hw0 hgt)

/-- What a program sees of a core between two instructions. -/
structure Visible where
  cycle : Nat
  pc : UInt16
  regs : Array UInt32
  qclk : UInt32
  retired : Nat
  deriving DecidableEq, Repr

namespace Visible

/-- The value of a register. -/
def reg (v : Visible) (r : UInt8) : UInt32 := v.regs.getD r.toNat 0

/-- The value of ALU input 0. -/
def operand (v : Visible) : Operand → UInt32
  | .imm x => x
  | .reg r => v.reg r

/-- The timebase in cycle `t`, if nothing loads it until then. -/
def qclkAt (v : Visible) (t : Nat) : UInt32 := v.qclk + (t - v.cycle).toUInt32

/-- In cycle `t`, with the instruction at the counter fetched and nothing else done. -/
def fetched (v : Visible) (config : Config) (t : Nat) : Visible :=
  { v with
    cycle := t
    pc := ((v.pc.toNat + 1) % 2 ^ config.widths.instrAddr).toUInt16
    qclk := v.qclkAt t }

/-- The next instruction starts in cycle `t`, and nothing else was done. -/
def next (v : Visible) (config : Config) (t : Nat) : Visible :=
  { v.fetched config t with retired := v.retired + 1 }

/-- Write a register. -/
def write (v : Visible) (r : UInt8) (x : UInt32) : Visible :=
  { v with regs := v.regs.setIfInBounds r.toNat x }

/-- Continue at an address. -/
def goto (v : Visible) (addr : UInt16) : Visible := { v with pc := addr }

/-- Continue at an address if bit 0 of the condition is set. -/
def branch (v : Visible) (addr : UInt16) (x : UInt32) : Visible :=
  if x &&& 1 == 1 then v.goto addr else v

end Visible

/-- One instruction of the interpreter, from the view `v` between instructions to the next one. A
    rule for each operation; `done` has none, and neither has an unassigned class that stalls. The
    input lines of cycle `t` are `inputs t`. -/
inductive Step (config : Config) (inputs : Nat → Inputs) (v : Visible) : Operation → Visible → Prop
  | regAlu (op : AluOp) (in0 : Operand) (in1 write : UInt8) :
    Step config inputs v (.regAlu op in0 in1 write)
      ((v.next config (v.cycle + config.memReadLatency.toNat + 3)).write write
        (op.apply (v.operand in0) (v.reg in1)))
  | jump (addr : UInt16) :
    Step config inputs v (.jump addr)
      ((v.next config (v.cycle + config.memReadLatency.toNat + 2)).goto addr)
  | jumpCond (op : AluOp) (in0 : Operand) (in1 : UInt8) (addr : UInt16) :
    Step config inputs v (.jumpCond op in0 in1 addr)
      ((v.next config (v.cycle + config.memReadLatency.toNat + 3)).branch addr
        (op.apply (v.operand in0) (v.reg in1)))
  | aluFproc (op : AluOp) (in0 : Operand) (write : UInt8) (id : UInt16) (w : Nat) :
    IsFirst (fun t => (inputs t).response.ready = true)
      (v.cycle + config.memReadLatency.toNat + 2) w →
    Step config inputs v (.aluFproc op in0 write id)
      ((v.next config (w + 2)).write write (op.apply (v.operand in0) (inputs w).response.data))
  | jumpFproc (op : AluOp) (in0 : Operand) (addr id : UInt16) (w : Nat) :
    IsFirst (fun t => (inputs t).response.ready = true)
      (v.cycle + config.memReadLatency.toNat + 2) w →
    Step config inputs v (.jumpFproc op in0 addr id)
      ((v.next config (w + 2)).branch addr (op.apply (v.operand in0) (inputs w).response.data))
  | incQclk (op : AluOp) (in0 : Operand) :
    Step config inputs v (.incQclk op in0)
      { v.next config (v.cycle + config.memReadLatency.toNat + 3) with
        qclk :=
          op.apply (v.operand in0) (v.qclkAt (v.cycle + config.memReadLatency.toNat + 1)) + 2 }
  | sync (id : UInt16) (w : Nat) :
    IsFirst (fun t => (inputs t).syncReady = true) (v.cycle + config.memReadLatency.toNat + 2) w →
    Step config inputs v (.sync id) (v.next config (w + 1))
  | pulseWrite (cmdTime : UInt32) (reg : UInt8) (fields : Bundle PulseField) :
    Step config inputs v (.pulseWrite false cmdTime reg fields)
      (v.next config (v.cycle + config.memReadLatency.toNat + 2))
  | pulseTrigger (cmdTime : UInt32) (reg : UInt8) (fields : Bundle PulseField) (w : Nat) :
    IsFirst (fun t => v.qclkAt t = cmdTime) (v.cycle + config.memReadLatency.toNat + 1) w →
    Step config inputs v (.pulseWrite true cmdTime reg fields) (v.next config (w + 1))
  | pulseReset :
    Step config inputs v .pulseReset (v.next config (v.cycle + config.memReadLatency.toNat + 2))
  | unknown (bits : UInt8) : config.unknownOpcode = .fallThrough →
    Step config inputs v (.unknown bits)
      (v.next config (v.cycle + config.memReadLatency.toNat + 2))

namespace Core

/-- The view of the program. -/
def visible (c : Core) : Visible := ⟨c.cycle, c.pc.value, c.regs.regs, c.qclk.value, c.retired⟩

/-- The first cycle of a fetch. -/
def Boundary (c : Core) : Prop := c.state = .fetchWait ∧ c.fetchCycle = 0

instance (c : Core) : Decidable c.Boundary := inferInstanceAs (Decidable (_ ∧ _))

/-- The operation at an address of program memory. -/
def fetch (c : Core) (addr : UInt16) : Checked Operation := do
  c.layout.decode (← c.memory.read addr.toNat)

/-- A fresh core with a program. -/
def Loaded (config : Config) (program : List Word) (c : Core) : Prop :=
  ∃ fresh, Core.new config = pure fresh ∧ fresh.loadProgram program = .ok (c, .ok ())

/-- Clock `n` times. The input lines of a cycle are set before the clock that starts it. -/
def run (inputs : Nat → Inputs) : Nat → Core → Checked Core
  | 0, c => .ok c
  | n + 1, c => do
    let c ← c.run inputs n
    (c.drive (inputs (c.cycle + 1))).clock

/-- The view `v` at the first boundary after cycle `b` of the run from `c`. -/
def NextBoundary (c : Core) (inputs : Nat → Inputs) (b : Nat) (v : Visible) : Prop :=
  b < v.cycle ∧ (∃ c', c.run inputs v.cycle = .ok c' ∧ c'.Boundary ∧ c'.visible = v) ∧
    ∀ t c', b < t → t < v.cycle → c.run inputs t = .ok c' → ¬ c'.Boundary

end Core

end Sequencer

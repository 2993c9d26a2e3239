import Sequencer.Fault

/-! The register file: combinational reads and one registered write port. Addresses keep their
    lowest `addrWidth` bits. -/

namespace Sequencer

structure RegisterFile where
  regs : Array UInt32
  addrWidth : Nat
  deriving DecidableEq, Repr, Inhabited

namespace RegisterFile

/-- `2 ^ addrWidth` zero registers. Their bytes have to be addressable by a signed 64-bit offset. -/
def new (addrWidth : Nat) : Checked RegisterFile :=
  if 64 ≤ addrWidth then .error .wideShift
  else if 61 ≤ addrWidth then .error .capacity
  else .ok { regs := Array.replicate (1 <<< addrWidth) 0, addrWidth }

/-- The register that an address names. -/
def slot (r : RegisterFile) (addr : UInt8) : Checked Nat :=
  if r.addrWidth < 64 then .ok (addr.toNat % (1 <<< r.addrWidth)) else .error .wideShift

/-- The register with a given index. -/
def get (r : RegisterFile) (index : Nat) : Checked UInt32 :=
  if h : index < r.regs.size then .ok r.regs[index] else .error .badIndex

def read (r : RegisterFile) (addr : UInt8) : Checked UInt32 := do
  r.get (← r.slot addr)

/-- The clock edge of the write port, with its enable set. -/
def write (r : RegisterFile) (addr : UInt8) (data : UInt32) : Checked RegisterFile := do
  let slot ← r.slot addr
  if h : slot < r.regs.size then
    return { r with regs := r.regs.set slot data }
  else throw .badIndex

def reset (r : RegisterFile) : RegisterFile :=
  { r with regs := Array.replicate r.regs.size 0 }

end RegisterFile

end Sequencer

import Sequencer.Word

/-! Program memory with a registered read port.

    The read register holds the word at the address presented on the previous edge. Addresses wrap
    at the depth, as address lines do, and a stored word keeps the bits of the mask. -/

namespace Sequencer

structure ProgramMemory where
  words : Array Word
  dataOut : Word
  mask : Word
  deriving DecidableEq, Repr, Inhabited

namespace ProgramMemory

/-- A memory of `depth` zero words, for words of `width` bits. Its bytes have to be addressable by a
    signed 64-bit offset. -/
def new (depth width : Nat) : Checked ProgramMemory := do
  let mask ← Word.mask width
  if depth * 16 < 0x8000000000000000 then
    return { words := Array.replicate depth 0, dataOut := 0, mask }
  else throw .capacity

def depth (m : ProgramMemory) : Nat := m.words.size

/-- The word at an address. -/
def read (m : ProgramMemory) (addr : Nat) : Checked Word :=
  if h : 0 < m.words.size then
    have := Nat.mod_lt addr h
    .ok m.words[addr % m.words.size]
  else .error .zeroDivisor

/-- The write port of the load path. -/
def write (m : ProgramMemory) (addr : Nat) (w : Word) : Checked ProgramMemory :=
  if m.words.size = 0 then .error .zeroDivisor
  else .ok { m with words := m.words.setIfInBounds (addr % m.words.size) (w &&& m.mask) }

/-- The clock edge: capture the word at the presented address. -/
def latch (m : ProgramMemory) (addr : UInt16) : Checked ProgramMemory := do
  return { m with dataOut := ← m.read addr.toNat }

/-- Clear the read register; the contents stay. -/
def reset (m : ProgramMemory) : ProgramMemory := { m with dataOut := 0 }

end ProgramMemory

end Sequencer

import Sequencer.Fault

/-! Instruction words and the bit ranges inside them.

    A word has 128 bits. A field is a contiguous range of them, read with `extract` and written with
    `insert`. A field of width zero holds the value zero and nothing else. -/

namespace Sequencer

/-- A raw instruction word as it sits in program memory. -/
abbrev Word := BitVec 128

namespace Word

/-- The word whose lowest `width` bits are set. -/
def ones (width : Nat) : Word := BitVec.ofNat 128 ((1 <<< width) - 1)

/-- The mask of the lowest `width` bits; all bits from 128 on, where the shift has no result. -/
def mask (width : Nat) : Checked Word :=
  if 128 ≤ width then .ok (BitVec.allOnes 128)
  else do return BitVec.ofNat 128 (← Checked.mask 128 width)

end Word

/-- A contiguous bit range inside the instruction word. -/
structure Field where
  offset : Nat
  width : Nat
  deriving DecidableEq, Repr, Inhabited

namespace Field

/-- The field of `width` bits directly below bit `top`. -/
def below (top width : Nat) : Checked Field := do
  return ⟨← Checked.sub top width, width⟩

/-- Highest bit of the field, computed in 32-bit words from left to right. -/
def msb (f : Field) : Checked Nat := do
  Checked.sub (← Checked.add 32 f.offset f.width) 1

/-- The value a field holds. -/
def extract (f : Field) (raw : Word) : Checked Word :=
  if f.width = 0 then .ok 0
  else if f.offset < 128 ∧ f.width < 128 then .ok ((raw >>> f.offset) &&& Word.ones f.width)
  else .error .wideShift

/-- The word with `value` placed into the field, or `none` when the value does not fit. The test of
    the fit comes before the shift by the offset. -/
def insert (f : Field) (raw value : Word) : Checked (Option Word) :=
  if f.width = 0 then .ok (if value = 0 then some raw else none)
  else if 128 ≤ f.width then .error .wideShift
  else if value &&& ~~~(Word.ones f.width) ≠ 0 then .ok none
  else if 128 ≤ f.offset then .error .wideShift
  else .ok (some ((raw &&& ~~~(Word.ones f.width <<< f.offset)) ||| (value <<< f.offset)))

end Field

end Sequencer

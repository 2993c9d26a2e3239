import Sequencer.Isa.Opcode

/-! The ALU with registered inputs: operands and operation are captured on the clock edge and the
    result is available during the following cycle. -/

namespace Sequencer

structure Alu where
  in0 : Option UInt32 := none
  in1 : Option UInt32 := none
  op : Option AluOp := none
  deriving DecidableEq, Repr, Inhabited

/-- The result line. It is absent when no operation was captured or an operand it needs is missing:
    `id0` needs input 0, `id1` input 1, `zero` neither and every other operation both. -/
def Alu.out (a : Alu) : Option UInt32 :=
  match a.op with
  | none => none
  | some .id0 => a.in0
  | some .id1 => a.in1
  | some .zero => some 0
  | some op =>
    match a.in0, a.in1 with
    | some x, some y => some (op.apply x y)
    | _, _ => none

end Sequencer

import Sequencer.Core.Step

/-! Runs of a core over many cycles. -/

namespace Sequencer.Core

/-- Clock `n` times. -/
def clockN : Nat → Core → Checked Core
  | 0, c => .ok c
  | n + 1, c => do clockN n (← c.clock)

/-- Clock as long as `p` holds, at most `limit` times. -/
def clockWhile (p : Core → Bool) : (limit : Nat) → Core → Checked Core
  | 0, c => .ok c
  | limit + 1, c => do
    if p c then clockWhile p limit (← c.clock) else return c

/-- The core after each of `n` clocks. -/
def states : Nat → Core → Checked (List Core)
  | 0, _ => .ok []
  | n + 1, c => do
    let next ← c.clock
    return next :: (← next.states n)

/-- Clock until the core reaches a `done` instruction. The cycle count at that point is absent when
    the limit ran out first. -/
def clockUntilDone (limit : Nat) (c : Core) : Checked (Core × Option Nat) := do
  let c ← clockWhile (fun c => !c.done) limit c
  return (c, if c.done then some c.cycle else none)

/-- Clock until the count of retired instructions leaves `retired`. The cycles since `start` are
    absent when `limit` of them pass first. Each round but the last is a cycle, so `limit + 1`
    rounds are enough. -/
def clockPast (start retired limit : Nat) : (rounds : Nat) → Core → Checked (Core × Option Nat)
  | 0, c => .ok (c, none)
  | rounds + 1, c => do
    let elapsed ← Checked.sub c.cycle start
    if c.retired ≠ retired then return (c, some elapsed)
    else if limit ≤ elapsed then return (c, none)
    else clockPast start retired limit rounds (← c.clock)

/-- Clock until one more instruction retires, and count the cycles it took. -/
def clockUntilNextInstruction (limit : Nat) (c : Core) : Checked (Core × Option Nat) :=
  clockPast c.cycle c.retired limit (limit + 1) c

end Sequencer.Core

/-! Machine arithmetic that can fail.

    The machine computes on words of fixed width. A sum that leaves its word, a shift by at least
    the width, a remainder by zero, an index past the end and a memory too large to exist have no
    result: such a step *faults*. A fault is kept apart from the errors of the domain, which are
    answers to a wrong request; `Checked` is a computation that may fault, `Attempt` one that may
    also be refused. -/

namespace Sequencer

/-- Why a step of machine arithmetic has no result. -/
inductive Fault where
  | overflow
  | wideShift
  | zeroDivisor
  | badIndex
  | capacity
  deriving DecidableEq, Repr

/-- A computation that may fault. -/
abbrev Checked := Except Fault

/-- A computation that may fault, or be refused for a reason `ε`. -/
abbrev Attempt (ε : Type) := ExceptT ε Checked

namespace Checked

/-- Sum of two counts held in words of `bits` bits. -/
def add (bits a b : Nat) : Checked Nat :=
  if a + b < 1 <<< bits then .ok (a + b) else .error .overflow

/-- Difference of two counts; it may not go below zero. -/
def sub (a b : Nat) : Checked Nat :=
  if b ≤ a then .ok (a - b) else .error .overflow

/-- The next value of a 32-bit counter. -/
def succ32 (n : UInt32) : Checked UInt32 :=
  if n = 0xffffffff then .error .overflow else .ok (n + 1)

/-- The next value of a 64-bit count. -/
def succ64 (n : Nat) : Checked Nat :=
  if n + 1 < 0x10000000000000000 then .ok (n + 1) else .error .overflow

/-- One shifted up by `n` places in words of `bits` bits. -/
def power (bits n : Nat) : Checked Nat :=
  if n < bits then .ok (1 <<< n) else .error .wideShift

/-- The mask of the lowest `n` bits, computed in words of `bits` bits. -/
def mask (bits n : Nat) : Checked Nat := do
  sub (← power bits n) 1

/-- A 32-bit word shifted down by `n` places. -/
def shiftRight (w : UInt32) (n : Nat) : Checked UInt32 :=
  if n < 32 then .ok (w >>> n.toUInt32) else .error .wideShift

/-- Element of a list; an index past the end faults. -/
def get {α : Type} (l : List α) (i : Nat) : Checked α :=
  match l[i]? with
  | some a => .ok a
  | none => .error .badIndex

theorem sub_of_le {a b : Nat} (h : b ≤ a) : sub a b = .ok (a - b) := if_pos h

theorem succ64_of_lt {n : Nat} (h : n + 1 < 1 <<< 64) : succ64 n = .ok (n + 1) := if_pos h

theorem power_of_lt {bits n : Nat} (h : n < bits) : power bits n = .ok (1 <<< n) := if_pos h

theorem mask_of_lt {bits n : Nat} (h : n < bits) : mask bits n = .ok (1 <<< n - 1) := by
  rw [mask, power_of_lt h]
  exact sub_of_le (Nat.one_shiftLeft n ▸ Nat.two_pow_pos n)

theorem shiftRight_of_lt {n : Nat} (w : UInt32) (h : n < 32) :
    shiftRight w n = .ok (w >>> n.toUInt32) := if_pos h

end Checked

/-- What a request leaves behind, where it is refused together with its reason: the value if it was
    accepted, and the reason alone if not. -/
def Attempt.accepted {ε α : Type} (request : Checked (α × Except ε Unit)) : Attempt ε α :=
  ExceptT.mk (request.map fun answer => answer.2.map fun _ => answer.1)

end Sequencer

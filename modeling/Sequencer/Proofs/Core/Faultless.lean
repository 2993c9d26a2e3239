import Mathlib
import Sequencer.Proofs.Acceptance
import Sequencer.Proofs.Core.Restart

/-! Nothing that is done to a core faults.

    Every configuration has a layout or is refused. In a layout every field lies inside the word, so
    any word can be read and any operation is encoded or refused. A core is `Runnable` when it
    differs from a sound core at most in what its input lines carry: this is what the building of a
    core, edits, clocks and resets keep (`Operated.runnable`), and a runnable core has a next cycle
    until the cycle count is exhausted (`Runnable.exists_clockN`). -/

namespace Sequencer

theorem Config.returns_layout (config : Config) : Attempt.Returns config.layout := by
  unfold Config.layout
  split
  case isTrue => exact Attempt.returns_throw _
  case isFalse => exact (Layout.returns_ofWidths config.widths).adapt _

/-! ### Cores -/

namespace Core

variable {c c' : Core} {config : Config}

/-- A core is built or its configuration is refused. -/
theorem returns_new (config : Config) : Attempt.Returns (Core.new config) := by
  refine config.returns_layout.bind fun l hl => ?_
  refine (Attempt.returns_liftM (blank_of_layout hl)).bind fun core hcore => ?_
  have hformed := (blank_eq_ok hl (Attempt.liftM_eq_pure.mp hcore)).1
  obtain ⟨fresh, hfresh⟩ := hformed.exists_propagate
  exact Attempt.returns_liftM hfresh

/-- The cores that building, edits, clocks and resets lead to. -/
inductive Operated (config : Config) : Core → Prop
  | new {c : Core} : Core.new config = pure c → Operated config c
  | edit {c c' : Core} : Operated config c → c.Edits c' → Operated config c'
  | clock {c c' : Core} : Operated config c → c.clock = .ok c' → Operated config c'
  | reset {c c' : Core} : Operated config c → c.reset = .ok c' → Operated config c'

/-- A sound core on whose input lines anything may have been driven since it settled. -/
abbrev Runnable (c : Core) : Prop := c.Redriven Sound

namespace Runnable

theorem formed (h : c.Runnable) : c.Formed := by
  obtain ⟨d, i, hd, rfl⟩ := h
  exact hd.formed.drive i

theorem exists_latch (h : c.Runnable) (hcycle : c.cycle + 1 < 2 ^ 64) :
    ∃ c', c.latch = .ok c' ∧ c'.Formed := by
  obtain ⟨d, i, hd, rfl⟩ := h
  obtain ⟨edge, hedge⟩ := hd.exists_latch hcycle
  exact ⟨edge.drive i, latch_drive_eq_ok.mpr ⟨edge, hedge, rfl⟩, (hd.formed.latch hedge).drive i⟩

theorem exists_clock (h : c.Runnable) (hcycle : c.cycle + 1 < 2 ^ 64) : ∃ c', c.clock = .ok c' := by
  obtain ⟨d, i, hd, rfl⟩ := h
  exact hd.exists_clock hcycle i

theorem clock (h : c.Runnable) (hc : c.clock = .ok c') : c'.Runnable ∧ c'.cycle = c.cycle + 1 := by
  obtain ⟨d, i, hd, rfl⟩ := h
  have htick := tick_of_clock hc
  exact ⟨.of_self (htick.sound hd), htick.cycle⟩

theorem exists_reset (h : c.Runnable) : ∃ c', c.reset = .ok c' := h.formed.exists_reset

theorem reset (h : c.Runnable) (hr : c.reset = .ok c') : c'.Runnable ∧ c'.cycle = 0 := by
  obtain ⟨hsound, hstart⟩ := h.formed.reset hr
  exact ⟨.of_self hsound, hstart.cycle⟩

/-- A program is loaded, or refused because it is too long. -/
theorem exists_load (h : c.Runnable) (program : List Word) :
    ∃ c' result, c.loadProgram program = .ok (c', result) := by
  have hpos : 0 < c.memory.words.size := by
    rw [h.formed.words]
    positivity
  unfold loadProgram
  split
  case isTrue => exact ⟨_, _, rfl⟩
  case isFalse hle =>
    obtain ⟨words, hwords, -⟩ := writeWords_of_le program 0 hpos
      (by rw [Nat.zero_add]; exact Nat.not_lt.mp hle)
    exact ⟨_, _, Checked.bind_eq_ok.mpr ⟨_, hwords, rfl⟩⟩

/-- Every address is one of the program memory. -/
theorem exists_write (h : c.Runnable) (addr : Nat) (w : Word) :
    ∃ c', c.writeProgram addr w = .ok c' := by
  refine ⟨_, writeProgram_eq_ok.mpr ⟨?_, rfl⟩⟩
  rw [h.formed.words]
  positivity

end Runnable

theorem Operated.runnable (h : Operated config c) : c.Runnable := by
  induction h with
  | new h => exact .of_self (sound_of_new h).1
  | edit _ he ih => exact ih.edit Sound.holding he
  | clock _ hc ih => exact (ih.clock hc).1
  | reset _ hr ih => exact (ih.reset hr).1

/-- A core can be clocked until its cycle count is exhausted. -/
theorem Runnable.exists_clockN : ∀ {n : Nat} {c : Core}, c.Runnable → c.cycle + n < 2 ^ 64 →
    ∃ c', c.clockN n = .ok c'
  | 0, c, _, _ => ⟨c, rfl⟩
  | n + 1, c, h, hlt => by
    obtain ⟨d, hd⟩ := h.exists_clock (by omega)
    obtain ⟨hrunnable, hcycle⟩ := h.clock hd
    obtain ⟨c', hc'⟩ := hrunnable.exists_clockN (n := n) (by omega)
    exact ⟨c', Checked.bind_eq_ok.mpr ⟨d, hd, hc'⟩⟩

end Core

end Sequencer

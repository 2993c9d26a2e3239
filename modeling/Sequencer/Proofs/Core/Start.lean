import Mathlib
import Sequencer.Proofs.Core.Refinement

/-! Runs of a fresh or reset core.

    `Start config` are the cores in their first cycle: built, with or without a program, or reset
    after anything that can be done to a core. All their registers are at the reset values
    (`Start.spec`). A run from a start is looked at cycle by cycle: `c.Holds inputs p t` says
    that `p` holds of the core in cycle `t`. -/

namespace Sequencer

namespace Core

variable {c c' c₀ : Core} {config : Config} {inputs : Nat → Inputs} {t : Nat}

/-! ### Starts -/

/-- The cores that building, writing program memory, driving the lines, clocking and resetting lead
    to. An edge and the settling after it may be taken one by one, and a program may be refused. -/
inductive Reachable (config : Config) : Core → Prop
  | new {c : Core} : Core.new config = pure c → Reachable config c
  | load {c c' : Core} {program : List Word} {result : Except ProgramTooLong Unit} :
    Reachable config c → c.loadProgram program = .ok (c', result) → Reachable config c'
  | write {c c' : Core} {addr : Nat} {w : Word} :
    Reachable config c → c.writeProgram addr w = .ok c' → Reachable config c'
  | setResponse {c : Core} (r : Response) :
    Reachable config c → Reachable config (c.setResponse r)
  | setSyncReady {c : Core} (ready : Bool) :
    Reachable config c → Reachable config (c.setSyncReady ready)
  | latch {c c' : Core} : Reachable config c → c.latch = .ok c' → Reachable config c'
  | propagate {c c' : Core} : Reachable config c → c.propagate = .ok c' → Reachable config c'
  | reset {c c' : Core} : Reachable config c → c.reset = .ok c' → Reachable config c'

/-- What can be done to a core between two edges: loading a program, writing a word, driving a
    line. -/
inductive Edits : Core → Core → Prop
  | load {c c' : Core} {program : List Word} {result : Except ProgramTooLong Unit} :
    c.loadProgram program = .ok (c', result) → Edits c c'
  | write {c c' : Core} {addr : Nat} {w : Word} : c.writeProgram addr w = .ok c' → Edits c c'
  | setResponse (c : Core) (r : Response) : Edits c (c.setResponse r)
  | setSyncReady (c : Core) (ready : Bool) : Edits c (c.setSyncReady ready)

theorem Reachable.edit (h : Reachable config c) (he : Edits c c') : Reachable config c' := by
  cases he with
  | load hl => exact h.load hl
  | write hw => exact h.write hw
  | setResponse r => exact h.setResponse r
  | setSyncReady ready => exact h.setSyncReady ready

/-- An edit changes what program memory holds and what the input lines carry. -/
theorem Edits.eq_drive (he : c.Edits c') : ∃ words i,
    c' = (c.holding words).drive i ∧ words.size = c.memory.words.size := by
  cases he with
  | load hl =>
    obtain ⟨words, rfl, hsize⟩ := exists_holding_of_load hl
    exact ⟨words, ⟨c.lines.fprocResponse, c.lines.syncReady⟩, rfl, hsize⟩
  | write hw =>
    obtain ⟨words, rfl, hsize⟩ := exists_holding_of_write hw
    exact ⟨words, ⟨c.lines.fprocResponse, c.lines.syncReady⟩, rfl, hsize⟩
  | setResponse r => exact ⟨c.memory.words, ⟨r, c.lines.syncReady⟩, rfl, rfl⟩
  | setSyncReady ready => exact ⟨c.memory.words, ⟨c.lines.fprocResponse, ready⟩, rfl, rfl⟩

theorem Edits.cycle (he : c.Edits c') : c'.cycle = c.cycle := by
  obtain ⟨words, i, rfl, -⟩ := he.eq_drive
  rfl

/-- A core with property `P` on whose input lines anything may have been driven since. -/
def Redriven (c : Core) (P : Core → Prop) : Prop := ∃ (d : Core) (i : Inputs), P d ∧ c = d.drive i

namespace Redriven

variable {P Q : Core → Prop}

theorem of_self (h : P c) : c.Redriven P := ⟨c, ⟨c.lines.fprocResponse, c.lines.syncReady⟩, h, rfl⟩

theorem imp (h : c.Redriven P) (hPQ : ∀ {d : Core}, P d → Q d) : c.Redriven Q := by
  obtain ⟨d, i, hd, hc⟩ := h
  exact ⟨d, i, hPQ hd, hc⟩

theorem drive (h : c.Redriven P) (i : Inputs) : (c.drive i).Redriven P := by
  obtain ⟨d, j, hd, rfl⟩ := h
  exact ⟨d, i, hd, drive_drive d j i⟩

/-- What a change of program memory keeps, edits keep. -/
theorem edit (h : c.Redriven P) (hP : ∀ {d : Core} {words : Array Word}, P d →
    words.size = d.memory.words.size → P (d.holding words)) (he : c.Edits c') : c'.Redriven P := by
  obtain ⟨d, j, hd, rfl⟩ := h
  obtain ⟨words, i, rfl, hsize⟩ := he.eq_drive
  refine ⟨d.holding words, i, hP hd hsize, ?_⟩
  rw [holding_drive, drive_drive]

end Redriven

/-- A fresh or reset core, with programs loaded into it. -/
inductive Start (config : Config) : Core → Prop
  | new {c : Core} : Core.new config = pure c → Start config c
  | reset {c c' : Core} : Reachable config c → c.reset = .ok c' → Start config c'
  | load {c c' : Core} {program : List Word} {result : Except ProgramTooLong Unit} :
    Start config c → c.loadProgram program = .ok (c', result) → Start config c'

/-- The parts of a core fit its configuration, the pulse registers too. -/
structure Shaped (config : Config) (c : Core) : Prop where
  formed : c.Formed
  pulse : c.pulse.widths = config.widths.pulse
  config : c.config = config

/-- Registers that a reset clears and that no soundness condition is about. -/
structure AtReset (config : Config) (c : Core) : Prop where
  qclk : c.qclk.value = 0
  pulse : c.pulse = { widths := config.widths.pulse }

theorem atReset_of_new (h : Core.new config = pure c) : c.AtReset config := by
  obtain ⟨l, core, hl, hcore, h⟩ := new_eq_pure.mp h
  obtain ⟨op, x, y, -, -, -, rfl⟩ := propagate_eq_ok.mp h
  rw [blank_of_layout hl, Except.ok.injEq] at hcore
  subst hcore
  have hwidths := congrArg Widths.pulse (placed_of_layout hl).2.1
  exact ⟨rfl, congrArg (PulseRegisters.mk {}) hwidths⟩

theorem Shaped.holding (h : c.Shaped config) {words : Array Word}
    (hsize : words.size = c.memory.words.size) : (c.holding words).Shaped config :=
  { h with formed := h.formed.holding hsize }

theorem Shaped.drive (h : c.Shaped config) (i : Inputs) : (c.drive i).Shaped config :=
  { h with formed := h.formed.drive i }

theorem Shaped.reset (h : c.Shaped config) (hr : c.reset = .ok c') :
    c'.Sound ∧ c'.AtStart ∧ c'.config = config ∧ c'.AtReset config := by
  obtain ⟨hsound, hstart⟩ := h.formed.reset hr
  obtain ⟨op, x, y, -, -, -, rfl⟩ := propagate_eq_ok.mp hr
  exact ⟨hsound, hstart, h.config, rfl, congrArg (PulseRegisters.mk {}) h.pulse⟩

theorem Reachable.shaped (h : Reachable config c) : c.Shaped config := by
  induction h with
  | new h =>
    obtain ⟨hsound, hconfig, -⟩ := sound_of_new h
    exact ⟨hsound.formed, congrArg PulseRegisters.widths (atReset_of_new h).pulse, hconfig⟩
  | load _ hl ih =>
    obtain ⟨words, rfl, hsize⟩ := exists_holding_of_load hl
    exact ih.holding hsize
  | write _ hw ih =>
    obtain ⟨words, rfl, hsize⟩ := exists_holding_of_write hw
    exact ih.holding hsize
  | setResponse r _ ih => exact ih.drive ⟨r, _⟩
  | setSyncReady ready _ ih => exact ih.drive ⟨_, ready⟩
  | latch _ hl ih =>
    have hformed := ih.formed.latch hl
    obtain ⟨fetchCycle, retired, memory, regs, pulse, cycle, -, -, -, -, hpulse, -, rfl⟩ :=
      latch_eq_ok.mp hl
    exact ⟨hformed, (PulseRegisters.latch_eq_ok hpulse).1.trans ih.pulse, ih.config⟩
  | propagate _ hp ih =>
    have hformed := ih.formed.propagate hp
    obtain ⟨op, x, y, -, -, -, rfl⟩ := propagate_eq_ok.mp hp
    exact { ih with formed := hformed }
  | reset _ hr ih =>
    obtain ⟨hsound, -, hconfig, hreset⟩ := ih.reset hr
    exact ⟨hsound.formed, congrArg PulseRegisters.widths hreset.pulse, hconfig⟩

theorem Start.spec (h : Start config c) :
    c.Sound ∧ c.AtStart ∧ c.config = config ∧ c.AtReset config := by
  induction h with
  | new h =>
    obtain ⟨hsound, hconfig, hstart⟩ := sound_of_new h
    exact ⟨hsound, hstart, hconfig, atReset_of_new h⟩
  | reset h hr => exact h.shaped.reset hr
  | load _ hl ih =>
    obtain ⟨hsound, hstart, hconfig, hreset⟩ := ih
    have hsound' := hsound.load hl
    obtain ⟨words, rfl, -⟩ := exists_holding_of_load hl
    exact ⟨hsound', { hstart with }, hconfig, { hreset with }⟩

/-! ### Runs from a start -/

theorem Start.reached (h : Start config c₀) : Reached config c₀ 0 c₀ := by
  obtain ⟨hsound, hstart, hconfig, -⟩ := h.spec
  exact ⟨hsound, hconfig, hstart.cycle, rfl, rfl⟩

theorem tick_of_run_succ (hrun : c₀.run inputs t = .ok c)
    (hrun' : c₀.run inputs (t + 1) = .ok c') : Tick (inputs (c.cycle + 1)) c c' := by
  obtain ⟨d, hd, hclock⟩ := run_succ_eq_ok.mp hrun'
  obtain rfl := Except.ok.inj (hrun.symm.trans hd)
  exact tick_of_clock hclock

/-- In cycle `t` of the run from `c`, `p` holds of the core. -/
def Holds (c : Core) (inputs : Nat → Inputs) (p : Core → Prop) (t : Nat) : Prop :=
  ∃ d, c.run inputs t = .ok d ∧ p d

theorem holds_iff {p : Core → Prop} (hrun : c₀.run inputs t = .ok c) :
    c₀.Holds inputs p t ↔ p c := by
  constructor
  · rintro ⟨d, hd, hp⟩
    exact Except.ok.inj (hd.symm.trans hrun) ▸ hp
  · exact fun hp => ⟨c, hrun, hp⟩

instance (c : Core) (inputs : Nat → Inputs) (p : Core → Prop) [DecidablePred p] :
    DecidablePred (c.Holds inputs p) := fun t =>
  match hrun : c.run inputs t with
  | .ok _ => decidable_of_iff _ (holds_iff hrun).symm
  | .error e => .isFalse fun ⟨d, hd, _⟩ => by rw [hd] at hrun; cases hrun

theorem retires_iff :
    c.retires = true ↔ c.state ≠ .fetchWait ∧ c.control.nextState = .fetchWait := by
  simp [retires]

/-- After a boundary the core fetches for `memReadLatency` more cycles. -/
theorem Reached.fetches (h₀ : Reached config c₀ 0 c₀) {b : Nat} (hrun : c₀.run inputs b = .ok c)
    (hb : c.Boundary) {j : Nat} (hj : j ≤ config.memReadLatency.toNat)
    (hrun' : c₀.run inputs (b + j) = .ok c') :
    c'.state = .fetchWait ∧ c'.fetchCycle.toNat = j := by
  induction j generalizing c' with
  | zero =>
    obtain rfl := Except.ok.inj (hrun.symm.trans hrun')
    exact ⟨hb.1, by rw [hb.2]; rfl⟩
  | succ j ih =>
    obtain ⟨d, hd, -⟩ := run_succ_eq_ok.mp hrun'
    have htick := tick_of_run_succ hd hrun'
    obtain ⟨hstate, hfetch⟩ := ih (by omega) hd
    have hreached := h₀.run hd
    have hlt : d.fetchCycle < d.config.memReadLatency := by
      rw [UInt32.lt_iff_toNat_lt, hfetch, hreached.config]
      omega
    obtain ⟨-, hnext, hcount⟩ := htick.fetches_on hreached.sound.settled hstate hlt
    exact ⟨hnext, by rw [hcount, hfetch]⟩

/-- No instruction is decoded before its fetch is over. -/
theorem Reached.decode_after (h₀ : Reached config c₀ 0 c₀) {b s : Nat}
    (hrun : c₀.run inputs b = .ok c) (hb : c.Boundary) (hbs : b ≤ s)
    (hrun' : c₀.run inputs s = .ok c') (hs : c'.state ≠ .fetchWait) :
    b + config.memReadLatency.toNat + 1 ≤ s := by
  by_contra hlt
  obtain ⟨j, rfl⟩ := Nat.exists_eq_add_of_le hbs
  exact hs (h₀.fetches hrun hb (by omega) hrun').1

end Core

end Sequencer

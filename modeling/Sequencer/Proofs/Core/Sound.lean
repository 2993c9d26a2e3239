import Mathlib
import Sequencer.Core.Run
import Sequencer.Proofs.Core.PulseRegisters
import Sequencer.Proofs.Core.Stages
import Sequencer.Proofs.Core.Tick
import Sequencer.Proofs.Decoding

/-! Sound cores never fault.

    `Formed` says that the parts of a core have the sizes that its layout asks for; `Sound` adds
    that the core is settled, that its state is a stage of the operation it holds, and that its
    counters are in range. A fresh core is sound, loading a program, a tick and a reset keep it
    sound, and a sound core always has a next cycle as long as the cycle count can be held
    (`exists_clock`). -/

namespace Sequencer

/-! ### The parts of a core -/

namespace ProgramCounter

theorem toNat_and_mask {x mask : UInt16} {width : Nat} (hw : width ≤ 16)
    (hm : mask = ((1 <<< width) - 1).toUInt16) : (x &&& mask).toNat = x.toNat % 2 ^ width := by
  have hlt : 2 ^ width - 1 < 2 ^ 16 := by
    have := Nat.pow_le_pow_right (n := 2) (by decide) hw
    omega
  rw [UInt16.toNat_and, hm, Nat.toUInt16, UInt16.toNat_ofNat', Nat.one_shiftLeft,
    Nat.mod_eq_of_lt hlt, Nat.and_two_pow_sub_one_eq_mod]

/-- A counter of `width` address bits whose value is an address. -/
structure Counts (pc : ProgramCounter) (width : Nat) : Prop where
  width_le : width ≤ 16
  mask : pc.mask = ((1 <<< width) - 1).toUInt16
  lt : pc.value.toNat < 2 ^ width

variable {pc : ProgramCounter} {width : Nat}

theorem Counts.and_mask_lt (h : pc.Counts width) (x : UInt16) :
    (x &&& pc.mask).toNat < 2 ^ width := by
  rw [toNat_and_mask h.width_le h.mask]
  exact Nat.mod_lt _ (by positivity)

/-- An address is not changed by the mask. -/
theorem Counts.and_mask (h : pc.Counts width) {x : UInt16} (hx : x.toNat < 2 ^ width) :
    x &&& pc.mask = x := by
  rw [← UInt16.toNat_inj, toNat_and_mask h.width_le h.mask, Nat.mod_eq_of_lt hx]

theorem Counts.latch (h : pc.Counts width) (inc : Bool) (load : Option UInt16) :
    (pc.latch inc load).Counts width := by
  refine ⟨h.width_le, ?_, ?_⟩ <;> unfold ProgramCounter.latch <;> split
  · exact h.mask
  · cases load <;> exact h.mask
  · exact h.and_mask_lt _
  · cases load with
    | none => exact h.lt
    | some addr => exact h.and_mask_lt addr

/-- Counting wraps at the number of addresses. -/
theorem Counts.latch_inc (h : pc.Counts width) :
    (pc.latch true none).value = ((pc.value.toNat + 1) % 2 ^ width).toUInt16 := by
  have hdvd : 2 ^ width ∣ 2 ^ 16 := pow_dvd_pow 2 h.width_le
  have hlt : (pc.value.toNat + 1) % 2 ^ width < 2 ^ 16 :=
    (Nat.mod_lt _ (by positivity)).trans_le (Nat.pow_le_pow_right (by decide) h.width_le)
  have hout : pc.out none = pc.value := h.and_mask h.lt
  rw [← UInt16.toNat_inj, ProgramCounter.latch, if_pos rfl, hout, toNat_and_mask h.width_le h.mask,
    UInt16.toNat_add, Nat.mod_mod_of_dvd _ hdvd, Nat.toUInt16, UInt16.toNat_ofNat',
    Nat.mod_eq_of_lt hlt]
  rfl

theorem Counts.out_lt (h : pc.Counts width) (load : Option UInt16) :
    (pc.out load).toNat < 2 ^ width :=
  h.and_mask_lt _

end ProgramCounter

namespace RegisterFile

/-- A file with one register for each address. -/
structure Holds (r : RegisterFile) (width : Nat) : Prop where
  width_le : width ≤ 8
  addrWidth : r.addrWidth = width
  size : r.regs.size = 2 ^ width

variable {r : RegisterFile} {width : Nat}

theorem Holds.slot_lt (h : r.Holds width) (addr : UInt8) :
    addr.toNat % 2 ^ width < r.regs.size := by
  rw [h.size]
  exact Nat.mod_lt _ (by positivity)

theorem Holds.slot (h : r.Holds width) (addr : UInt8) :
    r.slot addr = .ok (addr.toNat % 2 ^ width) := by
  have := h.width_le
  rw [RegisterFile.slot, h.addrWidth, if_pos (by omega), Nat.one_shiftLeft]

theorem Holds.read (h : r.Holds width) (addr : UInt8) :
    r.read addr = .ok (r.regs.getD (addr.toNat % 2 ^ width) 0) := by
  rw [RegisterFile.read, h.slot, Checked.ok_bind, get, dif_pos (h.slot_lt addr)]
  simp [h.slot_lt addr]

theorem Holds.write (h : r.Holds width) (addr : UInt8) (x : UInt32) :
    r.write addr x = .ok { r with regs := r.regs.setIfInBounds (addr.toNat % 2 ^ width) x } := by
  rw [RegisterFile.write, h.slot, Checked.ok_bind, dif_pos (h.slot_lt addr)]
  simp [Array.setIfInBounds, h.slot_lt addr]

end RegisterFile

namespace ProgramMemory

theorem latch_of_lt {m : ProgramMemory} {addr : UInt16} (h : addr.toNat < m.words.size) :
    m.latch addr = .ok { m with dataOut := m.words.getD addr.toNat 0 } := by
  rw [latch, read, dif_pos (by omega), Checked.ok_bind]
  simp [Nat.mod_eq_of_lt h, h]

theorem words_of_latch {m m' : ProgramMemory} {addr : UInt16} (h : m.latch addr = .ok m') :
    m'.words = m.words := by
  obtain ⟨w, -, hm⟩ := Checked.bind_eq_ok.mp h
  rw [← Except.ok.inj hm]

theorem write_eq_ok {m m' : ProgramMemory} {addr : Nat} {w : Word} :
    m.write addr w = .ok m' ↔ 0 < m.words.size ∧
      m' = { m with words := m.words.setIfInBounds (addr % m.words.size) (w &&& m.mask) } := by
  unfold write
  split
  case isTrue h0 => simp [h0]
  case isFalse h0 => simp [Nat.pos_of_ne_zero h0, eq_comm]

/-- The contents and the mask of a new memory. -/
theorem new_eq_ok {depth width : Nat} (h : depth * 16 < 0x8000000000000000) :
    new depth width =
      .ok { words := Array.replicate depth 0, dataOut := 0, mask := Word.ones width } := by
  rw [new, Word.mask_eq, Checked.ok_bind, if_pos h]
  rfl

end ProgramMemory

namespace Core

/-! ### Formed cores -/

/-- Every part has the size that the layout of the configuration asks for. -/
structure Formed (c : Core) : Prop where
  layout : c.config.layout = pure c.layout
  pc : c.pc.Counts c.layout.widths.instrAddr
  words : c.memory.words.size = 2 ^ c.layout.widths.instrAddr
  regs : c.regs.Holds c.layout.widths.regAddr

variable {c c' : Core} {i : Inputs}

theorem placed_of_layout {config : Config} {l : Layout} (h : config.layout = pure l) :
    config.memReadLatency ≠ 0 ∧ l.widths = config.widths ∧ l.Placed := by
  unfold Config.layout at h
  split at h
  case isTrue => exact absurd h (Attempt.throw_ne_pure _ _)
  case isFalse hne =>
    obtain ⟨hwidths, hplaced⟩ := Layout.placed_of_ofWidths (Attempt.adapt_eq_pure.mp h)
    exact ⟨hne, hwidths, hplaced⟩

theorem Formed.placed (h : c.Formed) : c.layout.Placed := (placed_of_layout h.layout).2.2

theorem Formed.drive (h : c.Formed) (i : Inputs) : (c.drive i).Formed := { h with }

theorem Formed.holding (h : c.Formed) {words : Array Word}
    (hsize : words.size = c.memory.words.size) : (c.holding words).Formed :=
  { h with words := hsize.trans h.words }

theorem Formed.propagate (h : c.Formed) (hp : c.propagate = .ok c') : c'.Formed := by
  obtain ⟨op, x, y, -, -, -, rfl⟩ := propagate_eq_ok.mp hp
  exact { h with }

theorem Formed.exists_propagate (h : c.Formed) : ∃ c', c.propagate = .ok c' := by
  obtain ⟨op, hop, -⟩ := Layout.decode_ok h.placed c.ir
  exact ⟨_, propagate_eq_ok.mpr ⟨op, _, _, hop, h.regs.read _, h.regs.read _, rfl⟩⟩

/-- Every register of a decoded operation exists, and every address of it is one of the program. -/
theorem Formed.fits (h : c.Formed) (hs : c.Settled) : c.operation.Fits c.layout.widths := by
  obtain ⟨op, hop, hfits⟩ := Layout.decode_ok h.placed c.ir
  obtain rfl : op = c.operation := Except.ok.inj (hop.symm.trans hs.decode)
  exact hfits

theorem Formed.nextRegs (h : c.Formed) :
    ∃ regs, c.nextRegs = .ok regs ∧ regs.Holds c.layout.widths.regAddr := by
  unfold Core.nextRegs
  split
  case h_1 x hw hx =>
    rw [h.regs.write]
    exact ⟨_, rfl, h.regs.width_le, h.regs.addrWidth, by simp [h.regs.size]⟩
  case h_2 => exact ⟨c.regs, rfl, h.regs⟩

theorem Formed.latch (h : c.Formed) (hl : c.latch = .ok c') : c'.Formed := by
  obtain ⟨fetchCycle, retired, memory, regs, pulse, cycle, -, -, hmemory, hregs, -, -, rfl⟩ :=
    latch_eq_ok.mp hl
  obtain ⟨regs', hregs', hholds⟩ := h.nextRegs
  obtain rfl : regs' = regs := Except.ok.inj (hregs'.symm.trans hregs)
  have hwords := congrArg Array.size (ProgramMemory.words_of_latch hmemory)
  exact ⟨h.layout, h.pc.latch _ _, hwords.trans h.words, hholds⟩

/-! ### Sound cores -/

/-- A formed and settled core in a stage of its operation, with its counters in range. -/
structure Sound (c : Core) : Prop where
  formed : c.Formed
  settled : c.Settled
  stage : c.operation.Stage c.state
  fetchCycle_le : c.fetchCycle ≤ c.config.memReadLatency
  fetchCycle_zero : c.state ≠ .fetchWait → c.fetchCycle = 0
  retired_le : c.retired ≤ c.cycle
  cycle_lt : c.cycle < 2 ^ 64

theorem Sound.nextState_fetchWait (h : c.Sound) (hs : c.state = .fetchWait) :
    c.control.nextState =
      if c.config.memReadLatency ≤ c.fetchCycle then .decode else .fetchWait := by
  rw [h.settled.control, hs]
  exact Control.nextState_fetchWait ..

theorem Sound.nextFetchCycle (h : c.Sound) :
    ∃ n, c.nextFetchCycle = .ok n ∧ n ≤ c.config.memReadLatency ∧
      (c.control.nextState ≠ .fetchWait → n = 0) := by
  unfold Core.nextFetchCycle
  by_cases hs : c.state = .fetchWait
  · rw [if_pos hs, h.nextState_fetchWait hs]
    by_cases hle : c.config.memReadLatency ≤ c.fetchCycle
    · rw [if_pos hle]
      exact ⟨0, rfl, UInt32.zero_le, fun _ => rfl⟩
    · rw [if_neg hle, if_pos rfl]
      have hlt : c.fetchCycle < c.config.memReadLatency := UInt32.not_le.mp hle
      obtain ⟨hsucc, htoNat⟩ := Checked.succ32_of_lt hlt
      refine ⟨c.fetchCycle + 1, hsucc, ?_, fun hne => absurd rfl hne⟩
      rw [UInt32.le_iff_toNat_le, htoNat]
      exact UInt32.lt_iff_toNat_lt.mp hlt
  · rw [if_neg hs]
    exact ⟨c.fetchCycle, rfl, h.fetchCycle_le, fun _ => h.fetchCycle_zero hs⟩

theorem Sound.exists_latch (h : c.Sound) (hc : c.cycle + 1 < 2 ^ 64) : ∃ c', c.latch = .ok c' := by
  obtain ⟨fetchCycle, hfetch, -⟩ := h.nextFetchCycle
  obtain ⟨regs, hregs, -⟩ := h.formed.nextRegs
  have hout : c.lines.pcOut.toNat < c.memory.words.size := by
    rw [h.settled.pcOut, h.formed.words]
    exact h.formed.pc.out_lt _
  have hcycle : Checked.succ64 c.cycle = .ok (c.cycle + 1) := Checked.succ64_of_lt hc
  have hretired : ∃ n, (if c.retires then Checked.succ64 c.retired else .ok c.retired) = .ok n := by
    have hle := h.retired_le
    split
    case isTrue => exact ⟨_, Checked.succ64_of_lt (by omega)⟩
    case isFalse => exact ⟨_, rfl⟩
  obtain ⟨retired, hretired⟩ := hretired
  obtain ⟨pulse, hpulse⟩ :=
    c.pulse.exists_latch c.lines.pulseWrites c.lines.cstrobe c.lines.phaseReset
  exact ⟨_, latch_eq_ok.mpr ⟨fetchCycle, retired, _, regs, pulse, _, hfetch, hretired,
    ProgramMemory.latch_of_lt hout, hregs, hpulse, hcycle, rfl⟩⟩

/-- A sound core has a next cycle until the cycle count is exhausted. -/
theorem Sound.exists_clock (h : c.Sound) (hc : c.cycle + 1 < 2 ^ 64) (i : Inputs) :
    ∃ c', (c.drive i).clock = .ok c' := by
  obtain ⟨edge, hedge⟩ := h.exists_latch hc
  obtain ⟨c', hc'⟩ := ((h.formed.latch hedge).drive i).exists_propagate
  exact ⟨c', clock_drive_eq_ok.mpr ⟨edge, hedge, hc'⟩⟩

/-- A tick that loads no instruction keeps the operation. -/
theorem Tick.operation (h : Tick i c c') (hs : c.Settled) (hload : c.control.instrLoad = false) :
    c'.operation = c.operation := by
  have hir : c'.ir = c.ir := by rw [h.ir, hload]; rfl
  have hdecode := h.settled.decode
  rw [h.layout, hir, hs.decode] at hdecode
  exact (Except.ok.inj hdecode).symm

theorem Settled.instrLoad_of_ne (h : c.Settled) (hs : c.state ≠ .fetchWait) :
    c.control.instrLoad = false := by
  rw [h.control, Bool.eq_false_iff, ne_eq, Control.instrLoad_iff]
  exact fun hload => hs hload.1

/-- Only a fetch changes the operation. -/
theorem Tick.operation_of_ne (h : Tick i c c') (hc : c.Sound) (hs : c.state ≠ .fetchWait) :
    c'.operation = c.operation :=
  h.operation hc.settled (hc.settled.instrLoad_of_ne hs)

theorem Tick.formed (h : Tick i c c') (hf : c.Formed) : c'.Formed := by
  obtain ⟨regs, hregs, hholds⟩ := hf.nextRegs
  obtain rfl : regs = c'.regs := Except.ok.inj (hregs.symm.trans h.regs)
  refine ⟨?_, ?_, ?_, ?_⟩
  · rw [h.config, h.layout]; exact hf.layout
  · rw [h.pc, h.layout]; exact hf.pc.latch _ _
  · rw [ProgramMemory.words_of_latch h.memory, h.layout]; exact hf.words
  · rw [h.layout]; exact hholds

theorem Tick.stage (h : Tick i c c') (hc : c.Sound) : c'.operation.Stage c'.state := by
  cases hload : c.control.instrLoad with
  | false =>
    rw [h.operation hc.settled hload, h.state, hc.settled.control]
    exact Control.stage_nextState _ _ _ hc.stage
  | true =>
    rw [hc.settled.control, Control.instrLoad_iff] at hload
    have hnext : c'.state = .decode := by
      rw [h.state, hc.nextState_fetchWait hload.1]
      exact if_pos hload.2
    exact .inr (.inl hnext)

/-- A tick keeps a core sound. -/
theorem Tick.sound (h : Tick i c c') (hc : c.Sound) : c'.Sound := by
  obtain ⟨n, hn, hle, hzero⟩ := hc.nextFetchCycle
  obtain rfl : n = c'.fetchCycle := Except.ok.inj (hn.symm.trans h.fetchCycle)
  refine ⟨h.formed hc.formed, h.settled, h.stage hc, ?_, ?_, ?_, ?_⟩
  · rw [h.config]; exact hle
  · rw [h.state]; exact hzero
  · have := hc.retired_le
    rw [h.retired, h.cycle]
    split <;> omega
  · rw [h.cycle]; exact h.cycle_lt

/-! ### Fresh cores, programs and resets -/

/-- The first cycle, with nothing on the input lines. -/
structure AtStart (c : Core) : Prop where
  state : c.state = .fetchWait
  fetchCycle : c.fetchCycle = 0
  retired : c.retired = 0
  cycle : c.cycle = 0
  response : c.lines.fprocResponse = {}
  syncReady : c.lines.syncReady = false

theorem atStart_of_propagate (hp : c.propagate = .ok c') (h : c.AtStart) : c'.AtStart := by
  obtain ⟨op, x, y, -, -, -, rfl⟩ := propagate_eq_ok.mp hp
  exact { h with }

/-- The parts of a core that nothing has settled yet have the sizes that the layout asks for. -/
theorem blank_of_layout {config : Config} {l : Layout} (hl : config.layout = pure l) :
    blank config l = .ok {
      config
      layout := l
      state := .fetchWait
      fetchCycle := 0
      ir := 0
      pc := { value := 0, mask := ((1 <<< l.widths.instrAddr) - 1).toUInt16 }
      memory :=
        { words := Array.replicate (2 ^ l.widths.instrAddr) 0, dataOut := 0,
          mask := Word.ones l.widths.instr }
      regs := { regs := Array.replicate (2 ^ l.widths.regAddr) 0, addrWidth := l.widths.regAddr }
      alu := {}
      qclk := {}
      pulse := { widths := l.widths.pulse }
      operation := .unknown 0
      lines := {}
      control := .goto .fetchWait
      cycle := 0
      retired := 0
      doneCycle := none } := by
  have hplaced := (placed_of_layout hl).2.2
  have haddr := hplaced.limited.instrAddr
  have hreg := hplaced.limited.regAddr
  have hdepth : 2 ^ l.widths.instrAddr * 16 < 0x8000000000000000 := by
    have := Nat.pow_le_pow_right (n := 2) (by decide) haddr
    omega
  rw [blank, ProgramCounter.new, if_neg (by omega), if_neg (by omega), Layout.programDepth,
    Checked.power_of_lt (by omega), Nat.one_shiftLeft, RegisterFile.new, if_neg (by omega),
    if_neg (by omega), Nat.one_shiftLeft]
  simp only [Checked.ok_bind, ProgramMemory.new_eq_ok hdepth]
  rfl

theorem blank_eq_ok {config : Config} {l : Layout} (hl : config.layout = pure l)
    (h : blank config l = .ok c) :
    c.Formed ∧ c.config = config ∧ c.AtStart := by
  have hplaced := (placed_of_layout hl).2.2
  have haddr := hplaced.limited.instrAddr
  have hreg := hplaced.limited.regAddr
  rw [blank_of_layout hl, Except.ok.injEq] at h
  subst h
  refine ⟨⟨hl, ⟨haddr, rfl, ?_⟩, ?_, ⟨hreg, rfl, ?_⟩⟩, rfl, ⟨rfl, rfl, rfl, rfl, rfl, rfl⟩⟩ <;> simp

/-- Settling a formed core at the start makes it sound. -/
theorem sound_of_propagate (hp : c.propagate = .ok c') (h : c.AtStart) (hf : c.Formed) :
    c'.Sound := by
  have hsettled := settled_of_propagate hp
  have hformed := hf.propagate hp
  have hstart := atStart_of_propagate hp h
  refine ⟨hformed, hsettled, .inl hstart.state, ?_, fun hne => absurd hstart.state hne, ?_, ?_⟩
  · exact hstart.fetchCycle ▸ UInt32.zero_le
  · exact hstart.retired.le.trans (Nat.zero_le _)
  · exact hstart.cycle.trans_lt (by decide)

/-- A fresh core is a blank one that has settled. -/
theorem new_eq_pure {config : Config} :
    Core.new config = pure c ↔ ∃ l core, config.layout = pure l ∧ blank config l = .ok core ∧
      core.propagate = .ok c := by
  simp only [Core.new, Attempt.bind_eq_pure, Attempt.liftM_eq_pure]
  constructor
  · rintro ⟨l, hl, core, hcore, hp⟩
    exact ⟨l, core, hl, hcore, hp⟩
  · rintro ⟨l, core, hl, hcore, hp⟩
    exact ⟨l, hl, core, hcore, hp⟩

theorem sound_of_new {config : Config} (h : Core.new config = pure c) :
    c.Sound ∧ c.config = config ∧ c.AtStart := by
  obtain ⟨l, core, hl, hcore, h⟩ := new_eq_pure.mp h
  obtain ⟨hf, hconfig, hstart⟩ := blank_eq_ok hl hcore
  have hconfig' : c.config = core.config := by
    obtain ⟨op, x, y, -, -, -, rfl⟩ := propagate_eq_ok.mp h
    rfl
  exact ⟨sound_of_propagate h hstart hf, hconfig'.trans hconfig, atStart_of_propagate h hstart⟩

/-- No line is settled from the contents of program memory. -/
theorem Settled.holding {words : Array Word} (h : c.Settled) : (c.holding words).Settled := by
  obtain ⟨hop, h0, h1, hc⟩ := h.eq_settle
  exact propagate_eq_ok.mpr
    ⟨_, _, _, hop, h0, h1, congrArg (fun d : Core => d.holding words) hc⟩

/-- The contents of program memory are not part of what makes a core sound. -/
theorem Sound.holding {words : Array Word} (h : c.Sound)
    (hsize : words.size = c.memory.words.size) : (c.holding words).Sound :=
  { h with formed := h.formed.holding hsize, settled := h.settled.holding }

theorem writeProgram_eq_ok {addr : Nat} {w : Word} :
    c.writeProgram addr w = .ok c' ↔ 0 < c.memory.words.size ∧
      c' = c.holding
        (c.memory.words.setIfInBounds (addr % c.memory.words.size) (w &&& c.memory.mask)) := by
  simp only [writeProgram, Checked.bind_eq_ok, ProgramMemory.write_eq_ok, Checked.pure_eq_ok,
    Except.ok.injEq]
  constructor
  · rintro ⟨m, ⟨hpos, rfl⟩, rfl⟩
    exact ⟨hpos, rfl⟩
  · rintro ⟨hpos, rfl⟩
    exact ⟨_, ⟨hpos, rfl⟩, rfl⟩

theorem exists_holding_of_write {addr : Nat} {w : Word} (h : c.writeProgram addr w = .ok c') :
    ∃ words, c' = c.holding words ∧ words.size = c.memory.words.size := by
  obtain ⟨-, rfl⟩ := writeProgram_eq_ok.mp h
  exact ⟨_, rfl, Array.size_setIfInBounds⟩

theorem exists_holding_of_writeWords : ∀ {ws : List Word} {addr : Nat} {c c' : Core},
    c.writeWords addr ws = .ok c' →
    ∃ words, c' = c.holding words ∧ words.size = c.memory.words.size
  | [], _, c, c', h => by
    obtain rfl : c = c' := Except.ok.inj h
    exact ⟨c.memory.words, rfl, rfl⟩
  | w :: ws, addr, c, c', h => by
    obtain ⟨d, hd, hrest⟩ := Checked.bind_eq_ok.mp h
    obtain ⟨words, rfl, hsize⟩ := exists_holding_of_write hd
    obtain ⟨words', rfl, hsize'⟩ := exists_holding_of_writeWords hrest
    exact ⟨words', rfl, hsize'.trans hsize⟩

/-- A program is refused before its first word is written, or written as a whole. -/
theorem loadProgram_eq_ok {ws : List Word} {r : Except ProgramTooLong Unit}
    (h : c.loadProgram ws = .ok (c', r)) :
    (c' = c ∧ r = .error ⟨ws.length, c.memory.words.size⟩) ∨
      (c.writeWords 0 ws = .ok c' ∧ r = .ok ()) := by
  unfold loadProgram at h
  split at h
  case isTrue =>
    obtain ⟨rfl, rfl⟩ := Prod.mk.inj (Except.ok.inj h)
    exact .inl ⟨rfl, rfl⟩
  case isFalse =>
    obtain ⟨d, hd, hd'⟩ := Checked.bind_eq_ok.mp h
    obtain ⟨rfl, rfl⟩ := Prod.mk.inj (Except.ok.inj hd')
    exact .inr ⟨hd, rfl⟩

/-- Loading a program changes nothing but the contents of program memory. -/
theorem exists_holding_of_load {ws : List Word} {r : Except ProgramTooLong Unit}
    (h : c.loadProgram ws = .ok (c', r)) :
    ∃ words, c' = c.holding words ∧ words.size = c.memory.words.size := by
  rcases loadProgram_eq_ok h with ⟨rfl, -⟩ | ⟨hw, -⟩
  · exact ⟨c'.memory.words, rfl, rfl⟩
  · exact exists_holding_of_writeWords hw

theorem Sound.load (h : c.Sound) {ws : List Word} {r : Except ProgramTooLong Unit}
    (hl : c.loadProgram ws = .ok (c', r)) : c'.Sound := by
  obtain ⟨words, rfl, hsize⟩ := exists_holding_of_load hl
  exact h.holding hsize

theorem Formed.pc_reset (h : c.Formed) : c.pc.reset.Counts c.layout.widths.instrAddr :=
  ⟨h.pc.width_le, h.pc.mask, by simp [ProgramCounter.reset]⟩

theorem Formed.regs_reset (h : c.Formed) : c.regs.reset.Holds c.layout.widths.regAddr :=
  ⟨h.regs.width_le, h.regs.addrWidth, by simp [RegisterFile.reset, h.regs.size]⟩

/-- A reset needs nothing but the sizes of the parts. -/
theorem Formed.exists_reset (h : c.Formed) : ∃ c', c.reset = .ok c' :=
  Formed.exists_propagate { h with pc := h.pc_reset, regs := h.regs_reset }

theorem Formed.reset (h : c.Formed) (hr : c.reset = .ok c') : c'.Sound ∧ c'.AtStart := by
  have hstart := atStart_of_propagate hr ⟨rfl, rfl, rfl, rfl, rfl, rfl⟩
  exact ⟨sound_of_propagate hr ⟨rfl, rfl, rfl, rfl, rfl, rfl⟩
    { h with pc := h.pc_reset, regs := h.regs_reset }, hstart⟩

/-- Driving the lines of a sound core and settling it again keeps it sound. -/
theorem Sound.redrive (h : c.Sound) (hp : (c.drive i).propagate = .ok c') : c'.Sound := by
  have hsettled := settled_of_propagate hp
  have hformed := (h.formed.drive i).propagate hp
  obtain ⟨op, x, y, hop, -, -, rfl⟩ := propagate_eq_ok.mp hp
  have heq : op = c.operation := Except.ok.inj (hop.symm.trans h.settled.decode)
  exact { h with formed := hformed, settled := hsettled, stage := heq ▸ h.stage }

end Core

end Sequencer

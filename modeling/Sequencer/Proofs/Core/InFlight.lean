import Mathlib
import Sequencer.Proofs.Core.Alu
import Sequencer.Proofs.Core.Completion
import Sequencer.Proofs.Core.Sound

/-! One instruction on its way through a core.

    `InFlight` says how far an instruction has got: fetching, decoding, waiting to be released, or
    using the ALU result. One tick takes it a stage further, or ends it as the interpreter says
    (`Tick.inFlight`). -/

namespace Sequencer

namespace Operation

variable {op : Operation}

theorem Fits.operand {w : Widths} (h : op.Fits w) {x : Operand} (hx : op.in0 = some x) :
    x.Fits w := by
  cases op <;> simp only [in0, Option.some.injEq, reduceCtorEq] at hx <;> subst hx
  case incQclk => exact h
  all_goals exact h.1

theorem readReg0_of_in0 {r : UInt8} (h : op.in0 = some (.reg r)) : op.readReg0 = some r := by
  cases op <;> simp_all [in0, readReg0]

theorem immediate_of_in0 {x : UInt32} (h : op.in0 = some (.imm x)) : op.immediate = some x := by
  simp only [immediate, h]

theorem Fits.second {w : Widths} (h : op.Fits w) {r : UInt8} (hr : op.readReg1 = some r) :
    r.toNat < 2 ^ w.regAddr := by
  cases op <;> simp only [readReg1, Option.some.injEq, reduceCtorEq] at hr <;> subst hr <;>
    exact h.2.1

theorem Fits.write {w : Widths} (h : op.Fits w) {r : UInt8} (hr : op.writeReg = some r) :
    r.toNat < 2 ^ w.regAddr := by
  cases op <;> simp only [writeReg, Option.some.injEq, reduceCtorEq] at hr <;> subst hr
  case regAlu => exact h.2.2
  case aluFproc => exact h.2.1

theorem Fits.address {w : Widths} (h : op.Fits w) {addr : UInt16} (ha : op.jumpAddr = some addr) :
    addr.toNat < 2 ^ w.instrAddr := by
  cases op <;> simp only [jumpAddr, Option.some.injEq, reduceCtorEq] at ha <;> subst ha
  case jump => exact h
  case jumpCond => exact h.2.2
  case jumpFproc => exact h.2.1

end Operation

/-- Lines that feed the ALU with an operation and its operands. -/
structure Control.Feeds (k : Control) (op : AluOp) (in0 : Operand) (in1 : In1Sel) : Prop where
  in0Sel : k.in0Sel = some (.ofOperand in0)
  in1Sel : k.in1Sel = some in1
  aluOp : k.aluOp = some op

namespace Core

variable {c c' : Core} {i : Inputs} {inputs : Nat → Inputs} {v : Visible}

/-! ### The operands of the ALU -/

theorem Formed.read (h : c.Formed) {r : UInt8} (hr : r.toNat < 2 ^ c.layout.widths.regAddr) :
    c.regs.read r = .ok (c.visible.reg r) := by
  rw [h.regs.read, Nat.mod_eq_of_lt hr]
  rfl

theorem Sound.data1 (h : c.Sound) {r : UInt8} (hr : c.operation.readReg1 = some r) :
    c.lines.data1 = c.visible.reg r := by
  have hread := h.settled.data1
  rw [hr, Option.getD_some, h.formed.read ((h.formed.fits h.settled).second hr)] at hread
  exact (Except.ok.inj hread).symm

theorem Sound.aluIn0 (h : c.Sound) {in0 : Operand} (h0 : c.operation.in0 = some in0)
    (hsel : c.control.in0Sel = some (.ofOperand in0)) :
    c.lines.aluIn0 = some (c.visible.operand in0) := by
  rw [h.settled.aluIn0, hsel]
  cases in0 with
  | imm x =>
    rw [Operation.immediate_of_in0 h0]
    rfl
  | reg r =>
    have hread := h.settled.data0
    rw [Operation.readReg0_of_in0 h0, Option.getD_some,
      h.formed.read ((h.formed.fits h.settled).operand h0)] at hread
    exact congrArg some (Except.ok.inj hread).symm

/-- What ALU input 1 takes from each source. -/
def second (c : Core) : In1Sel → UInt32
  | .reg => c.lines.data1
  | .qclk => c.qclk.value
  | .fproc => c.lines.fprocResponse.data

/-- The ALU gives its result in the cycle after it is fed. -/
theorem Tick.aluOut (h : Tick i c c') (hc : c.Sound) {op : AluOp} {in0 : Operand} {in1 : In1Sel}
    (hk : c.control.Feeds op in0 in1) (h0 : c.operation.in0 = some in0) :
    c'.alu.out = some (op.apply (c.visible.operand in0) (c.second in1)) := by
  have h1 : c.lines.aluIn1 = some (c.second in1) := by
    rw [hc.settled.aluIn1, hk.in1Sel]
    cases in1 <;> rfl
  rw [h.alu, hc.aluIn0 h0 hk.in0Sel, h1, hk.aluOp, Alu.out_apply]

/-! ### What a tick does to the view -/

theorem Tick.regs_of_noWrite (h : Tick i c c') (hw : c.control.regWrite = false) :
    c'.regs = c.regs := by
  have hnext := h.regs
  simp only [nextRegs, hw] at hnext
  exact (Except.ok.inj hnext).symm

theorem Tick.qclk_of_noLoad (h : Tick i c c') (hq : c.control.qclkLoad = false) :
    c'.qclk.value = c.qclk.value + 1 := by
  rw [h.qclk, hq]
  rfl

theorem Tick.pc_of_noLoad (h : Tick i c c') (hinc : c.control.pcInc = false)
    (hload : c.lines.pcLoad = none) : c'.pc = c.pc := by
  rw [h.pc, hinc, hload]
  rfl

theorem Settled.pcLoad_eq_none (h : c.Settled) (hload : c.control.pcLoad = false)
    (hcond : c.control.pcLoadCond = false) : c.lines.pcLoad = none := by
  rw [h.pcLoad, hload, hcond]
  rfl

/-- A load stores the address of the operation as it is. -/
theorem Tick.pc_of_load (h : Tick i c c') (hc : c.Sound) (hinc : c.control.pcInc = false)
    {addr : UInt16} (hload : c.lines.pcLoad = some addr)
    (ha : c.operation.jumpAddr = some addr) : c'.pc.value = addr := by
  rw [h.pc, hinc, hload]
  exact hc.formed.pc.and_mask ((hc.formed.fits hc.settled).address ha)

/-- A branch loads the counter if bit 0 of the result is set. -/
theorem Tick.pc_of_branch (h : Tick i c c') (hc : c.Sound)
    (hk : c.control = { Control.goto .fetchWait with pcLoadCond := true }) {x : UInt32}
    (hout : c.alu.out = some x) {addr : UInt16} (ha : c.operation.jumpAddr = some addr) :
    c'.pc.value = if x &&& 1 == 1 then addr else c.pc.value := by
  have hinc : c.control.pcInc = false := by rw [hk]; rfl
  have hload : c.lines.pcLoad = if x &&& 1 == 1 then some addr else none := by
    rw [hc.settled.pcLoad, hk, hout, ha]
    rfl
  split
  case isTrue hx => exact h.pc_of_load hc hinc (hload.trans (if_pos hx)) ha
  case isFalse hx => rw [h.pc_of_noLoad hinc (hload.trans (if_neg hx))]

theorem Tick.regs_of_write (h : Tick i c c') (hc : c.Sound) (hw : c.control.regWrite = true)
    {x : UInt32} (hout : c.alu.out = some x) {r : UInt8} (hr : c.operation.writeReg = some r) :
    c'.regs.regs = c.regs.regs.setIfInBounds r.toNat x := by
  have hnext := h.regs
  simp only [nextRegs, hw, hc.settled.aluOut, hout, hc.settled.writeAddr, hr, Option.getD_some,
    hc.formed.regs.write, Nat.mod_eq_of_lt ((hc.formed.fits hc.settled).write hr)] at hnext
  rw [← Except.ok.inj hnext]

theorem Tick.retired_of_boundary (h : Tick i c c') (hs : c.state ≠ .fetchWait)
    (hnext : c'.state = .fetchWait) : c'.retired = c.retired + 1 := by
  rw [h.state] at hnext
  rw [h.retired, if_pos]
  simp [retires, hs, hnext]

theorem Tick.retired_of_ne (h : Tick i c c')
    (hne : c.state = .fetchWait ∨ c'.state ≠ .fetchWait) : c'.retired = c.retired := by
  rw [h.state] at hne
  rw [h.retired, if_neg]
  rcases hne with hs | hs <;> simp [retires, hs]

/-- Outside of a fetch the fetch counter rests at zero. -/
theorem Tick.boundary (h : Tick i c c') (hc : c.Sound) (hs : c.state ≠ .fetchWait)
    (hnext : c'.state = .fetchWait) : c'.Boundary := by
  have hfetch := h.fetchCycle
  rw [nextFetchCycle, if_neg hs, hc.fetchCycle_zero hs] at hfetch
  exact ⟨hnext, (Except.ok.inj hfetch).symm⟩

/-- A tick that loads neither the counter nor a register nor the timebase. -/
theorem Tick.visible_of_quiet (h : Tick i c c') (hc : c.Sound) (hq : c.control.Quiet) :
    c'.visible =
      { c.visible with cycle := c.cycle + 1, qclk := c.qclk.value + 1, retired := c'.retired } := by
  have hpc := h.pc_of_noLoad hq.pcInc (hc.settled.pcLoad_eq_none hq.pcLoad hq.pcLoadCond)
  simp only [visible, hpc, h.regs_of_noWrite hq.regWrite, h.qclk_of_noLoad hq.qclkLoad, h.cycle]

/-! ### The stages of an instruction in flight -/

/-- The input lines of the current cycle are on. -/
def Driven (inputs : Nat → Inputs) (c : Core) : Prop :=
  c.lines.fprocResponse = (inputs c.cycle).response ∧ c.lines.syncReady = (inputs c.cycle).syncReady

/-- How far the instruction `op` has got that started in the view `v`. -/
inductive InFlight (inputs : Nat → Inputs) (v : Visible) (op : Operation) (c : Core) : Prop
  /-- The memory has had the address for `fetchCycle` cycles. -/
  | fetching :
    c.state = .fetchWait → c.cycle = v.cycle + c.fetchCycle.toNat →
    c.visible = { v with cycle := c.cycle, qclk := v.qclkAt c.cycle } →
    (c.fetchCycle ≠ 0 → c.layout.decode c.memory.dataOut = .ok op) → InFlight inputs v op c
  /-- Decoded, before a waiting state of its own. -/
  | decoding :
    c.state = .decode → c.operation = op → op.waitState ≠ .decode →
    c.cycle = v.cycle + c.config.memReadLatency.toNat + 1 →
    c.visible = v.fetched c.config c.cycle → InFlight inputs v op c
  /-- Not released before this cycle. -/
  | waiting :
    c.state = op.waitState → c.operation = op → c.Driven inputs →
    op.waitStart c.config v ≤ c.cycle →
    (∀ t, op.waitStart c.config v ≤ t → t < c.cycle → ¬ op.ReleasedAt c.config inputs v t) →
    c.visible = v.fetched c.config c.cycle → InFlight inputs v op c
  /-- Released in the cycle before, and now the ALU has the result. -/
  | executing (w : Nat) :
    op.execState = some c.state → c.operation = op →
    IsFirst (op.ReleasedAt c.config inputs v) (op.waitStart c.config v) w → c.cycle = w + 1 →
    c.alu.out = some (op.result inputs v w) →
    c.visible = v.fetched c.config c.cycle → InFlight inputs v op c

variable {op : Operation} {w : Nat}

theorem Tick.driven (h : Tick (inputs (c.cycle + 1)) c c') : c'.Driven inputs :=
  ⟨by rw [h.response, h.cycle], by rw [h.syncReady, h.cycle]⟩

/-- A quiet tick lets time pass over a fetched instruction. -/
theorem Tick.fetched_of_quiet (h : Tick i c c') (hc : c.Sound) (hq : c.control.Quiet)
    (hs : c'.state ≠ .fetchWait) (hle : v.cycle ≤ c.cycle)
    (hv : c.visible = v.fetched c.config c.cycle) : c'.visible = v.fetched c'.config c'.cycle := by
  have hqclk : c.qclk.value = v.qclkAt c.cycle := congrArg Visible.qclk hv
  have hretired : c.retired = v.retired := congrArg Visible.retired hv
  rw [h.visible_of_quiet hc hq, hv, h.cycle, h.config, h.retired_of_ne (.inr hs), hqclk, hretired,
    ← v.qclkAt_succ hle]
  rfl

/-- The edge that ends an instruction: what it stores besides the cycle and the count. -/
theorem Tick.visible_of_boundary (h : Tick i c c') (hs : c.state ≠ .fetchWait)
    (hnext : c'.state = .fetchWait) (hv : c.visible = v.fetched c.config c.cycle) :
    c'.visible =
      { v.next c.config (c.cycle + 1) with
        pc := c'.pc.value, regs := c'.regs.regs, qclk := c'.qclk.value } := by
  have hretired : c.retired = v.retired := congrArg Visible.retired hv
  rw [visible, h.cycle, h.retired_of_boundary hs hnext, hretired]
  rfl

/-! ### One tick of an instruction in flight -/

/-- While the counter is not loaded, the memory is read at its value. -/
theorem Settled.pcOut_eq (hs : c.Settled) (hf : c.Formed) (hload : c.lines.pcLoad = none) :
    c.lines.pcOut = c.pc.value := by
  rw [hs.pcOut, hload]
  exact hf.pc.and_mask hf.pc.lt

/-- The memory gives the word at the counter in the next cycle. -/
theorem Tick.decode_dataOut (h : Tick i c c') (hc : c.Sound) (hload : c.lines.pcLoad = none)
    (hf : c.fetch c.pc.value = .ok op) : c'.layout.decode c'.memory.dataOut = .ok op := by
  obtain ⟨word, hread, hdecode⟩ := Checked.bind_eq_ok.mp hf
  obtain ⟨word', hread', hmemory⟩ := Checked.bind_eq_ok.mp h.memory
  rw [hc.settled.pcOut_eq hc.formed hload, hread] at hread'
  rw [h.layout, ← Except.ok.inj hmemory, ← Except.ok.inj hread']
  exact hdecode

/-- A fetch goes on as long as the memory has not had the address for its latency. -/
theorem Tick.fetches_on (h : Tick i c c') (hs : c.Settled) (hstate : c.state = .fetchWait)
    (hlt : c.fetchCycle < c.config.memReadLatency) :
    c.control.Quiet ∧ c'.state = .fetchWait ∧ c'.fetchCycle.toNat = c.fetchCycle.toNat + 1 := by
  have hle : ¬ c.config.memReadLatency ≤ c.timing.fetchCycle := UInt32.not_le.mpr hlt
  have hcontrol := hs.control
  rw [hstate] at hcontrol
  have hnext : c.control.nextState = .fetchWait := by
    rw [hcontrol, Control.nextState_fetchWait, if_neg hle]
  obtain ⟨hsucc, htoNat⟩ := Checked.succ32_of_lt hlt
  have hcount := h.fetchCycle
  rw [nextFetchCycle, if_pos hstate, if_pos hnext, hsucc, Except.ok.injEq] at hcount
  exact ⟨hcontrol ▸ Control.quiet_fetchWait _ _ _ hle, h.state.trans hnext, hcount ▸ htoNat⟩

theorem Settled.control_fetch (hs : c.Settled) (hstate : c.state = .fetchWait)
    (hle : c.config.memReadLatency ≤ c.fetchCycle) : c.control = .fetch := by
  rw [hs.control, hstate]
  exact if_pos hle

/-- The edge that ends a fetch loads what the memory has read. -/
theorem Tick.loads (h : Tick i c c') (hs : c.Settled) (hstate : c.state = .fetchWait)
    (hle : c.config.memReadLatency ≤ c.fetchCycle) :
    c'.state = .decode ∧ c'.ir = c.memory.dataOut := by
  rw [h.state, h.ir, hs.control_fetch hstate hle]
  exact ⟨rfl, rfl⟩

/-- The last cycle of a fetch: the instruction is decoded next. -/
theorem Tick.load (h : Tick (inputs (c.cycle + 1)) c c') (hc : c.Sound)
    (hs : c.state = .fetchWait) (hle : c.config.memReadLatency ≤ c.fetchCycle)
    (hcycle : c.cycle = v.cycle + c.fetchCycle.toNat)
    (hv : c.visible = { v with cycle := c.cycle, qclk := v.qclkAt c.cycle })
    (hdata : c.layout.decode c.memory.dataOut = .ok op) : InFlight inputs v op c' := by
  have hlatency : c.fetchCycle = c.config.memReadLatency := UInt32.le_antisymm hc.fetchCycle_le hle
  have hcontrol := hc.settled.control_fetch hs hle
  obtain ⟨hstate, hir⟩ := h.loads hc.settled hs hle
  have hop : c'.operation = op := by
    have hdecode := h.settled.decode
    rw [h.layout, hir, hdata] at hdecode
    exact (Except.ok.inj hdecode).symm
  have hload : c.lines.pcLoad = none := hc.settled.pcLoad_eq_none (by rw [hcontrol]; rfl)
    (by rw [hcontrol]; rfl)
  have hpc : c'.pc.value = ((v.pc.toNat + 1) % 2 ^ c.config.widths.instrAddr).toUInt16 := by
    rw [h.pc, hcontrol, hload, ← (placed_of_layout hc.formed.layout).2.1,
      ← (congrArg Visible.pc hv : c.pc.value = v.pc)]
    exact hc.formed.pc.latch_inc
  have hview : c'.visible = v.fetched c'.config c'.cycle := by
    have hregs : c.regs.regs = v.regs := congrArg Visible.regs hv
    have hqclk : c.qclk.value = v.qclkAt c.cycle := congrArg Visible.qclk hv
    have hretired : c.retired = v.retired := congrArg Visible.retired hv
    rw [visible, hpc, h.regs_of_noWrite (by rw [hcontrol]; rfl), hregs,
      h.qclk_of_noLoad (by rw [hcontrol]; rfl), hqclk, h.retired_of_ne (.inl hs), hretired, h.cycle,
      h.config, ← v.qclkAt_succ (by omega)]
    rfl
  have hdecoded : c'.cycle = v.cycle + c'.config.memReadLatency.toNat + 1 := by
    rw [h.cycle, h.config, hcycle, hlatency]
  by_cases hd : op.waitState = .decode
  · have hstart : op.waitStart c'.config v = c'.cycle := by
      rw [Operation.waitStart_of_decode hd, hdecoded]
    refine .waiting (hstate.trans hd.symm) hop h.driven hstart.le (fun t hle hlt => ?_) hview
    omega
  · exact .decoding hstate hop hd hdecoded hview

theorem Tick.fetching (h : Tick (inputs (c.cycle + 1)) c c') (hc : c.Sound)
    (hs : c.state = .fetchWait) (hcycle : c.cycle = v.cycle + c.fetchCycle.toNat)
    (hv : c.visible = { v with cycle := c.cycle, qclk := v.qclkAt c.cycle })
    (hdata : c.fetchCycle ≠ 0 → c.layout.decode c.memory.dataOut = .ok op)
    (hf : c.fetch v.pc = .ok op) : InFlight inputs v op c' := by
  by_cases hle : c.config.memReadLatency ≤ c.fetchCycle
  · have hne : c.fetchCycle ≠ 0 := by
      intro h0
      have hpos := (placed_of_layout hc.formed.layout).1
      rw [h0] at hle
      exact hpos (UInt32.le_antisymm hle UInt32.zero_le)
    exact h.load hc hs hle hcycle hv (hdata hne)
  · obtain ⟨hq, hstate, hcount⟩ := h.fetches_on hc.settled hs (UInt32.not_le.mp hle)
    refine .fetching hstate ?_ ?_ fun _ => ?_
    · rw [hcount, h.cycle, hcycle, Nat.add_assoc]
    · have hqclk : c.qclk.value = v.qclkAt c.cycle := congrArg Visible.qclk hv
      have hretired : c.retired = v.retired := congrArg Visible.retired hv
      rw [h.visible_of_quiet hc hq, hv, hqclk, h.cycle, h.retired_of_ne (.inl hs), hretired,
        ← v.qclkAt_succ (by omega)]
    · rw [← (congrArg Visible.pc hv : c.pc.value = v.pc)] at hf
      exact h.decode_dataOut hc (hc.settled.pcLoad_eq_none hq.pcLoad hq.pcLoadCond) hf

theorem Tick.decoding (h : Tick (inputs (c.cycle + 1)) c c') (hc : c.Sound)
    (hs : c.state = .decode) (hop : c.operation = op) (hd : op.waitState ≠ .decode)
    (hcycle : c.cycle = v.cycle + c.config.memReadLatency.toNat + 1)
    (hv : c.visible = v.fetched c.config c.cycle) : InFlight inputs v op c' := by
  have hcontrol : c.control = Control.of .decode op c.timing c.config := by
    rw [hc.settled.control, hs, hop]
  have hq : c.control.Quiet := hcontrol ▸ Control.quiet_decode _ _ _ hd
  have hstate : c'.state = op.waitState := by
    rw [h.state, hcontrol, Control.nextState_decode _ _ _ hd]
  have hstart : op.waitStart c'.config v = c'.cycle := by
    rw [Operation.waitStart_of_ne hd, h.config, h.cycle, hcycle]
  refine .waiting hstate ((h.operation hc.settled hq.instrLoad).trans hop) h.driven hstart.le
    (fun t hle hlt => ?_) (h.fetched_of_quiet hc hq ?_ (by omega) hv)
  · omega
  · rw [hstate]
    exact op.waitState_ne_fetchWait

/-- The release condition as the control unit sees it. -/
theorem released_timing (hd : c.Driven inputs) (hv : c.visible = v.fetched c.config c.cycle)
    (hop : c.operation = op) :
    op.released c.config.unknownOpcode c.timing = true ↔
      op.ReleasedAt c.config inputs v c.cycle := by
  have hqclk : c.qclk.value = v.qclkAt c.cycle := congrArg Visible.qclk hv
  unfold Operation.ReleasedAt timing
  rw [hd.1, hd.2, hqclk, hop]
  cases op <;> exact Iff.rfl

theorem feeds_fprocWait (f : AluOp) (in0 : Operand) (wait exec : State) {ready : Bool}
    (hr : ready = true) : (Control.fprocWait f in0 ready wait exec).Feeds f in0 .fproc := by
  rw [hr]
  exact ⟨rfl, rfl, rfl⟩

/-- A released instruction feeds the ALU with what its result is made of. -/
theorem Tick.result (h : Tick i c c') (hc : c.Sound) (hs : c.state = op.waitState)
    (hop : c.operation = op) (hd : c.Driven inputs) (hv : c.visible = v.fetched c.config c.cycle)
    (hr : op.ReleasedAt c.config inputs v c.cycle) (he : op.execState ≠ none) :
    c'.alu.out = some (op.result inputs v c.cycle) := by
  have hcontrol : c.control = Control.of op.waitState op c.timing c.config := by
    rw [hc.settled.control, hs, hop]
  have hoperand (x : Operand) : c.visible.operand x = v.operand x := by
    rw [hv]
    cases x <;> rfl
  have hreg (r : UInt8) (hr : op.readReg1 = some r) : c.second .reg = v.reg r := by
    rw [second, hc.data1 (hop ▸ hr), hv]
    rfl
  have hfproc : c.second .fproc = (inputs c.cycle).response.data := by rw [second, hd.1]
  have hready := (released_timing hd hv hop).mpr hr
  cases op with
  | regAlu f in0 in1 write | jumpCond f in0 in1 addr =>
    have hk : c.control.Feeds f in0 .reg := by rw [hcontrol]; exact ⟨rfl, rfl, rfl⟩
    rw [h.aluOut hc hk (by rw [hop]; rfl), hoperand, hreg in1 rfl]
    rfl
  | incQclk f in0 =>
    have hk : c.control.Feeds f in0 .qclk := by rw [hcontrol]; exact ⟨rfl, rfl, rfl⟩
    have hqclk : c.second .qclk = v.qclkAt c.cycle := congrArg Visible.qclk hv
    rw [h.aluOut hc hk (by rw [hop]; rfl), hoperand, hqclk]
    rfl
  | aluFproc f in0 write id | jumpFproc f in0 addr id =>
    have hk : c.control.Feeds f in0 .fproc := by
      rw [hcontrol]
      exact feeds_fprocWait f in0 _ _ hready
    rw [h.aluOut hc hk (by rw [hop]; rfl), hoperand, hfproc]
    rfl
  | _ => exact absurd rfl he

/-- An instruction without ALU result ends in the cycle of its release. -/
theorem Tick.finish_waiting (h : Tick i c c') (hc : c.Sound) (hs : c.state = op.waitState)
    (hop : c.operation = op) (hnext : c'.state = .fetchWait) (he : op.execState = none)
    (hlt : v.cycle ≤ c.cycle) (hv : c.visible = v.fetched c.config c.cycle) :
    c'.visible = op.finish c.config inputs v c.cycle := by
  have hcontrol : c.control = Control.of op.waitState op c.timing c.config := by
    rw [hc.settled.control, hs, hop]
  have hne : c.state ≠ .fetchWait := hs ▸ op.waitState_ne_fetchWait
  have hpc : c.pc.value = (v.fetched c.config c.cycle).pc := congrArg Visible.pc hv
  have hregs : c.regs.regs = v.regs := congrArg Visible.regs hv
  have hqclk : c.qclk.value = v.qclkAt c.cycle := congrArg Visible.qclk hv
  have hquiet (hq : c.control.Quiet) : c'.visible = v.next c.config (c.cycle + 1) := by
    rw [h.visible_of_boundary hne hnext hv,
      h.pc_of_noLoad hq.pcInc (hc.settled.pcLoad_eq_none hq.pcLoad hq.pcLoadCond),
      h.regs_of_noWrite hq.regWrite, h.qclk_of_noLoad hq.qclkLoad, hpc, hregs, hqclk,
      ← v.qclkAt_succ hlt]
    rfl
  cases op with
  | jump addr =>
    have hload : c.lines.pcLoad = some addr := by
      rw [hc.settled.pcLoad, hcontrol, hop]
      rfl
    rw [h.visible_of_boundary hne hnext hv,
      h.pc_of_load hc (by rw [hcontrol]; rfl) hload (by rw [hop]; rfl),
      h.regs_of_noWrite (by rw [hcontrol]; rfl), h.qclk_of_noLoad (by rw [hcontrol]; rfl), hregs,
      hqclk, ← v.qclkAt_succ hlt]
    rfl
  | sync | pulseWrite | done | pulseReset | unknown =>
    exact hquiet (hcontrol ▸ Control.quiet_waitState _ _ _ nofun)
  | _ => cases he

theorem Tick.waiting (h : Tick (inputs (c.cycle + 1)) c c') (hc : c.Sound)
    (hs : c.state = op.waitState) (hop : c.operation = op) (hd : c.Driven inputs)
    (hle : op.waitStart c.config v ≤ c.cycle)
    (hnot : ∀ t, op.waitStart c.config v ≤ t → t < c.cycle → ¬ op.ReleasedAt c.config inputs v t)
    (hv : c.visible = v.fetched c.config c.cycle) :
    InFlight inputs v op c' ∨
      c'.Boundary ∧ ∃ w, IsFirst (op.ReleasedAt c.config inputs v) (op.waitStart c.config v) w ∧
        c'.visible = op.finish c.config inputs v w := by
  have hcontrol : c.control = Control.of op.waitState op c.timing c.config := by
    rw [hc.settled.control, hs, hop]
  have hlt : v.cycle ≤ c.cycle := Operation.lt_waitStart.le.trans hle
  have hnext : c'.state = if op.released c.config.unknownOpcode c.timing then op.afterWait
      else op.waitState := by
    rw [h.state, hcontrol, Control.nextState_waitState]
  have hkeep : c'.operation = op :=
    (h.operation_of_ne hc (hs ▸ op.waitState_ne_fetchWait)).trans hop
  have hquiet (hj : ∀ addr, op ≠ .jump addr) : c.control.Quiet :=
    hcontrol ▸ Control.quiet_waitState _ _ _ hj
  by_cases hr : op.ReleasedAt c.config inputs v c.cycle
  · have hfirst : IsFirst (op.ReleasedAt c.config inputs v) (op.waitStart c.config v) c.cycle :=
      ⟨hle, hr, hnot⟩
    rw [(released_timing hd hv hop).mpr hr, if_pos rfl, Operation.afterWait] at hnext
    cases he : op.execState with
    | none =>
      rw [he] at hnext
      exact .inr ⟨h.boundary hc (hs ▸ op.waitState_ne_fetchWait) hnext, c.cycle, hfirst,
        h.finish_waiting hc hs hop hnext he hlt hv⟩
    | some s =>
      rw [he] at hnext
      have hq := hquiet (by rintro addr rfl; cases he)
      have hsne : c'.state ≠ .fetchWait := hnext ▸ (op.execState_ne he).1
      rw [← h.config] at hfirst
      exact .inl (.executing c.cycle (he.trans (congrArg some hnext.symm)) hkeep hfirst h.cycle
        (h.result hc hs hop hd hv hr (by simp [he])) (h.fetched_of_quiet hc hq hsne hlt hv))
  · rw [if_neg (mt (released_timing hd hv hop).mp hr)] at hnext
    have hq := hquiet (by rintro addr rfl; exact hr rfl)
    have hsne : c'.state ≠ .fetchWait := hnext ▸ op.waitState_ne_fetchWait
    refine .inl (.waiting hnext hkeep h.driven ?_ ?_ (h.fetched_of_quiet hc hq hsne hlt hv))
    · rw [h.config, h.cycle]
      omega
    · intro t hst htc
      rw [h.config] at hst ⊢
      rw [h.cycle] at htc
      rcases Nat.lt_succ_iff_lt_or_eq.mp htc with htc | rfl
      · exact hnot t hst htc
      · exact hr

/-- An instruction with an ALU result ends in the cycle after its release. -/
theorem Tick.finish_executing (h : Tick i c c') (hc : c.Sound) (he : op.execState = some c.state)
    (hop : c.operation = op) (hcycle : c.cycle = w + 1)
    (hout : c.alu.out = some (op.result inputs v w)) (hlt : v.cycle ≤ c.cycle)
    (hnext : c'.state = .fetchWait) (hv : c.visible = v.fetched c.config c.cycle) :
    c'.visible = op.finish c.config inputs v w := by
  have hcontrol : c.control = Control.of c.state op c.timing c.config := by
    rw [hc.settled.control, hop]
  have hne : c.state ≠ .fetchWait := (op.execState_ne he).1
  have hpc : c.pc.value = (v.fetched c.config c.cycle).pc := congrArg Visible.pc hv
  have hregs : c.regs.regs = v.regs := congrArg Visible.regs hv
  have hqclk : c.qclk.value = v.qclkAt c.cycle := congrArg Visible.qclk hv
  rw [h.visible_of_boundary hne hnext hv]
  cases op with
  | regAlu f in0 in1 write | aluFproc f in0 write id =>
    have hk : c.control = { Control.goto .fetchWait with regWrite := true } := by
      rw [hcontrol, ← Option.some.inj he]
      rfl
    rw [h.pc_of_noLoad (by rw [hk]; rfl)
        (hc.settled.pcLoad_eq_none (by rw [hk]; rfl) (by rw [hk]; rfl)),
      h.regs_of_write hc (by rw [hk]) hout (by rw [hop]; rfl), h.qclk_of_noLoad (by rw [hk]; rfl),
      hpc, hregs, hqclk, ← v.qclkAt_succ hlt, hcycle]
    rfl
  | jumpCond f in0 in1 addr | jumpFproc f in0 addr id =>
    have hk : c.control = { Control.goto .fetchWait with pcLoadCond := true } := by
      rw [hcontrol, ← Option.some.inj he]
      rfl
    rw [h.pc_of_branch hc hk hout (by rw [hop]; rfl), h.regs_of_noWrite (by rw [hk]; rfl),
      h.qclk_of_noLoad (by rw [hk]; rfl), hpc, hregs, hqclk, ← v.qclkAt_succ hlt, hcycle,
      Operation.finish, Visible.branch]
    split <;> rfl
  | incQclk f in0 =>
    have hk : c.control = { Control.goto .fetchWait with qclkLoad := true } := by
      rw [hcontrol, ← Option.some.inj he]
      rfl
    have hload : c'.qclk.value = Operation.result inputs v w (.incQclk f in0) + 2 := by
      rw [h.qclk, hk, hc.settled.aluOut, hout]
      rfl
    rw [h.pc_of_noLoad (by rw [hk]; rfl)
        (hc.settled.pcLoad_eq_none (by rw [hk]; rfl) (by rw [hk]; rfl)),
      h.regs_of_noWrite (by rw [hk]; rfl), hpc, hregs, hload, hcycle]
    rfl
  | _ => cases he

theorem Tick.executing (h : Tick i c c') (hc : c.Sound) (he : op.execState = some c.state)
    (hop : c.operation = op) (hcycle : c.cycle = w + 1)
    (hout : c.alu.out = some (op.result inputs v w)) (hlt : v.cycle ≤ c.cycle)
    (hv : c.visible = v.fetched c.config c.cycle) :
    c'.Boundary ∧ c'.visible = op.finish c.config inputs v w := by
  have hnext : c'.state = .fetchWait := by
    rw [h.state, hc.settled.control, hop, Control.nextState_execState _ _ _ he]
  exact ⟨h.boundary hc (op.execState_ne he).1 hnext,
    h.finish_executing hc he hop hcycle hout hlt hnext hv⟩

/-- One tick takes an instruction a stage further, or ends it as the interpreter does. -/
theorem Tick.inFlight (h : Tick (inputs (c.cycle + 1)) c c') (hc : c.Sound)
    (hf : c.fetch v.pc = .ok op) (hin : InFlight inputs v op c) :
    InFlight inputs v op c' ∨ c'.Boundary ∧ Step c.config inputs v op c'.visible := by
  cases hin with
  | fetching hs hcycle hv hdata => exact .inl (h.fetching hc hs hcycle hv hdata hf)
  | decoding hs hop hd hcycle hv => exact .inl (h.decoding hc hs hop hd hcycle hv)
  | waiting hs hop hd hle hnot hv =>
    refine (h.waiting hc hs hop hd hle hnot hv).imp id fun ⟨hb, w, hw, hview⟩ => ⟨hb, ?_⟩
    exact step_iff.mpr ⟨w, hw, hview⟩
  | executing w he hop hw hcycle hout hv =>
    have hlt : v.cycle ≤ c.cycle := by
      have hstart := Operation.lt_waitStart.trans_le hw.1
      omega
    obtain ⟨hb, hview⟩ := h.executing hc he hop hcycle hout hlt hv
    exact .inr ⟨hb, step_iff.mpr ⟨w, hw, hview⟩⟩

end Core

end Sequencer

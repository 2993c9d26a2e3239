import Mathlib
import Sequencer.Proofs.Core.Coherence
import Sequencer.Proofs.Core.Faultless
import Sequencer.Proofs.Core.PulseOutputs

/-! Cores that stay in decode.

    A triggered pulse before its time, `done` and an unassigned class that stalls hold a core in
    decode. Each cycle of the hold looks like the one before except for the timebase: `Frozen c n d`
    says that this is how `d` differs from `c` after `n` clocks. What happens between the clocks to
    the input lines and to program memory makes no difference (`Continues`). -/

namespace Sequencer

/-- A bundle is given by its parameters. -/
theorem Bundle.ext_get {α : Type} {a b : Bundle α} (h : ∀ p, a.get p = b.get p) : a = b := by
  obtain ⟨envWord, phase, freq, amp, cfg⟩ := a
  obtain ⟨envWord', phase', freq', amp', cfg'⟩ := b
  obtain rfl : envWord = envWord' := h .envWord
  obtain rfl : phase = phase' := h .phase
  obtain rfl : freq = freq' := h .freq
  obtain rfl : amp = amp' := h .amp
  obtain rfl : cfg = cfg' := h .cfg
  rfl

/-- A cycle that stays in decode is quiet. -/
theorem Control.quiet_of_stall {op : Operation} {inputs : TimingInputs} {config : Config}
    (h : (of .decode op inputs config).nextState = .decode) :
    Quiet (of .decode op inputs config) := by
  by_cases hd : op.waitState = .decode
  · have hquiet := quiet_waitState op inputs config (by rintro addr rfl; cases h)
    rwa [hd] at hquiet
  · exact quiet_decode op inputs config hd

namespace Core

variable {c d e : Core} {config : Config} {i : Inputs} {n : Nat} {p : Parameter} {x : UInt32}

theorem Settled.nextState_of_commits (h : c.Settled) (hc : c.Commits p x) :
    c.control.nextState = .fetchWait := by
  obtain ⟨hs, trigger, cmdTime, reg, fields, hop, hmatch, -⟩ := hc
  rw [h.control, hs]
  cases trigger with
  | false =>
    rw [hop]
    rfl
  | true =>
    have htime := (timeMatch_iff hop).mpr (hmatch rfl)
    rw [hop]
    simp [Control.of, Control.decode, Control.pulse, Control.goto, htime]

/-! ### Settled cores outside of a fetch -/

/-- The counters are in range, and the strobe and the phase reset are high during a fetch only. -/
structure Paced (c : Core) : Prop where
  fetchCycle_zero : c.state ≠ .fetchWait → c.fetchCycle = 0
  retired_le : c.retired ≤ c.cycle
  cycle_lt : c.cycle < 2 ^ 64
  active : c.pulse.out.Active → c.state = .fetchWait
  nextActive : c.lines.cstrobe = true ∨ c.lines.phaseReset = true →
    c.control.nextState = .fetchWait

namespace Paced

theorem edit (h : c.Paced) (he : c.Edits d) : d.Paced := by
  obtain ⟨words, i, rfl, -⟩ := he.eq_drive
  exact { h with }

theorem latch (h : c.Paced) (hl : c.latch = .ok d) : d.Paced := by
  obtain ⟨fetchCycle, retired, memory, regs, pulse, cycle, hf, hr, -, -, hp, hc, rfl⟩ :=
    latch_eq_ok.mp hl
  obtain ⟨hlt, rfl⟩ := Checked.succ64_eq_ok.mp hc
  have hle := h.retired_le
  -- the lines stay as they are, so the next edge is promised the same state as this one
  obtain ⟨-, hstrobe, hreset, -⟩ := PulseRegisters.latch_eq_ok hp
  refine ⟨fun hne => ?_, ?_, hlt, fun hactive => ?_, h.nextActive⟩
  · rw [nextFetchCycle, if_neg (show c.control.nextState ≠ .fetchWait from hne)] at hf
    by_cases hs : c.state = .fetchWait
    · rw [if_pos hs] at hf
      exact (Except.ok.inj hf).symm
    · rw [if_neg hs] at hf
      exact (Except.ok.inj hf).symm.trans (h.fetchCycle_zero hs)
  · split at hr
    · have hsucc := (Checked.succ64_eq_ok.mp hr).2
      simp only
      omega
    · have hsame := Except.ok.inj hr
      simp only
      omega
  · rw [PulseOutputs.Active, hstrobe, hreset] at hactive
    exact h.nextActive hactive

theorem of_propagate (hp : c.propagate = .ok d) (hf : c.state ≠ .fetchWait → c.fetchCycle = 0)
    (hr : c.retired ≤ c.cycle) (hc : c.cycle < 2 ^ 64)
    (ha : c.pulse.out.Active → c.state = .fetchWait) : d.Paced := by
  have hsettled := settled_of_propagate hp
  obtain ⟨op, x, y, -, -, -, rfl⟩ := propagate_eq_ok.mp hp
  refine ⟨hf, hr, hc, ha, fun hactive => hsettled.nextState_of_active ?_⟩
  exact hactive.imp hsettled.cstrobe_iff.mp hsettled.phaseReset_iff.mp

theorem of_sound (hc : c.Sound) (ha : ¬ c.pulse.out.Active) : c.Paced :=
  of_propagate hc.settled hc.fetchCycle_zero hc.retired_le hc.cycle_lt fun h => absurd h ha

end Paced

theorem Reachable.paced (h : Reachable config c) : c.Paced := by
  induction h with
  | new h =>
    obtain ⟨hsound, -⟩ := sound_of_new h
    exact .of_sound hsound (Start.new h).not_active
  | load _ hl ih => exact ih.edit (.load hl)
  | write _ hw ih => exact ih.edit (.write hw)
  | setResponse r _ ih => exact ih.edit (.setResponse _ r)
  | setSyncReady ready _ ih => exact ih.edit (.setSyncReady _ ready)
  | latch _ hl ih => exact ih.latch hl
  | propagate _ hp ih =>
    exact .of_propagate hp ih.fetchCycle_zero ih.retired_le ih.cycle_lt ih.active
  | reset h hr =>
    have hstart := Start.reset h hr
    exact .of_sound hstart.spec.1 hstart.not_active

/-- A settled core on whose input lines anything may have been driven since it settled. -/
abbrev HasSettled (c : Core) : Prop := c.Redriven Settled

theorem Sound.hasSettled (h : c.Sound) : c.HasSettled := .of_self h.settled

theorem Start.hasSettled (h : Start config c) : c.HasSettled := h.spec.1.hasSettled

/-- Outside of a fetch a settled core is sound, however it came there. -/
theorem Reachable.sound (h : Reachable config c) (hs : c.Settled) (hne : c.state ≠ .fetchWait) :
    c.Sound := by
  have hpaced := h.paced
  have hzero := hpaced.fetchCycle_zero hne
  exact ⟨h.shaped.formed, hs, h.coherent.stage _ hs.decode, hzero ▸ UInt32.zero_le, fun _ => hzero,
    hpaced.retired_le, hpaced.cycle_lt⟩

/-- The core as it settled, before its lines were driven, can be reached as well. -/
theorem Reachable.exists_settled (h : Reachable config c) (hsettled : c.HasSettled) :
    ∃ (d : Core) (i : Inputs), Reachable config d ∧ d.Settled ∧ c = d.drive i := by
  obtain ⟨d, i, hd, rfl⟩ := hsettled
  have hback : (d.drive i).drive ⟨d.lines.fprocResponse, d.lines.syncReady⟩ = d :=
    drive_drive d i _
  exact ⟨d, i, hback ▸ (h.setResponse _).setSyncReady _, hd, rfl⟩

theorem Reachable.runnable (h : Reachable config c) (hsettled : c.HasSettled)
    (hne : c.state ≠ .fetchWait) : c.Runnable := by
  obtain ⟨d, i, hreach, hd, rfl⟩ := h.exists_settled hsettled
  exact ⟨d, i, hreach.sound hd hne, rfl⟩

/-! ### Clocking on -/

/-- From `c` to `d` by `n` clocks, with any edits before, between and after them. -/
inductive Continues (c : Core) : Nat → Core → Prop
  | refl : Continues c 0 c
  | edit {n : Nat} {d e : Core} : Continues c n d → d.Edits e → Continues c n e
  | clock {n : Nat} {d e : Core} : Continues c n d → d.clock = .ok e → Continues c (n + 1) e

namespace Continues

theorem reachable (hc : Continues c n d) (h : Reachable config c) : Reachable config d := by
  induction hc with
  | refl => exact h
  | edit _ he ih => exact ih.edit he
  | clock _ hclock ih =>
    obtain ⟨edge, hedge, hp⟩ := Checked.bind_eq_ok.mp hclock
    exact (ih.latch hedge).propagate hp

theorem runnable (hc : Continues c n d) (h : c.Runnable) :
    d.Runnable ∧ d.cycle = c.cycle + n := by
  induction hc with
  | refl => exact ⟨h, rfl⟩
  | edit _ he ih => exact ⟨ih.1.edit Sound.holding he, he.cycle.trans ih.2⟩
  | clock _ hclock ih =>
    obtain ⟨hrunnable, hcycle⟩ := ih.1.clock hclock
    exact ⟨hrunnable, by rw [hcycle, ih.2, Nat.add_assoc]⟩

theorem hasSettled (hc : Continues c n d) (h : c.HasSettled) : d.HasSettled := by
  induction hc with
  | refl => exact h
  | edit _ he ih => exact ih.edit (fun hd _ => hd.holding) he
  | clock _ hclock _ =>
    obtain ⟨edge, -, hp⟩ := Checked.bind_eq_ok.mp hclock
    exact .of_self (settled_of_propagate hp)

/-- Edits alone change what program memory holds and what the input lines carry. -/
theorem eq_drive (hc : Continues c 0 d) : ∃ words i, d = (c.holding words).drive i := by
  generalize hn : 0 = n at hc
  induction hc with
  | refl => exact ⟨c.memory.words, ⟨c.lines.fprocResponse, c.lines.syncReady⟩, rfl⟩
  | edit _ he ih =>
    obtain ⟨words, i, rfl⟩ := ih hn
    obtain ⟨words', i', rfl, -⟩ := he.eq_drive
    exact ⟨words', i', by rw [holding_drive, drive_drive]; rfl⟩
  | clock => cases hn

theorem exists_last (hc : Continues c (n + 1) d) :
    ∃ e f, Continues c n e ∧ e.clock = .ok f ∧ Continues f 0 d := by
  generalize hk : n + 1 = k at hc
  induction hc with
  | refl => cases hk
  | edit _ he ih =>
    obtain ⟨e, f, hc, hclock, hd⟩ := ih hk
    exact ⟨e, f, hc, hclock, hd.edit he⟩
  | clock hc hclock =>
    cases hk
    exact ⟨_, _, hc, hclock, .refl⟩

/-- A run on a stream of inputs drives both lines before each clock. -/
theorem of_run {inputs : Nat → Inputs} : ∀ {n : Nat} {d : Core}, c.run inputs n = .ok d →
    Continues c n d
  | 0, _, hrun => Except.ok.inj hrun ▸ .refl
  | _ + 1, _, hrun => by
    obtain ⟨e, he, hclock⟩ := run_succ_eq_ok.mp hrun
    exact (((of_run he).edit (.setResponse _ _)).edit (.setSyncReady _ _)).clock hclock

theorem of_clock {i : Inputs} (h : (c.drive i).clock = .ok d) : Continues c 1 d :=
  ((refl.edit (.setResponse _ _)).edit (.setSyncReady _ _)).clock h

end Continues

/-- A core can be clocked on any inputs until its cycle count is exhausted. -/
theorem Runnable.exists_run (h : c.Runnable) (inputs : Nat → Inputs) : ∀ n : Nat,
    c.cycle + n < 2 ^ 64 → ∃ d, c.run inputs n = .ok d
  | 0, _ => ⟨c, rfl⟩
  | n + 1, hlt => by
    obtain ⟨d, hd⟩ := h.exists_run inputs n (by omega)
    obtain ⟨hrunnable, hcycle⟩ := (Continues.of_run hd).runnable h
    obtain ⟨e, he⟩ := Runnable.exists_clock (hrunnable.drive (inputs (d.cycle + 1))) (by
      change d.cycle + 1 < 2 ^ 64
      omega)
    exact ⟨e, run_succ_eq_ok.mpr ⟨d, hd, he⟩⟩

/-! ### Frozen cores -/

/-- After `n` clocks `d` is still in decode of the instruction of `c`. Nothing has changed but the
    timebase, which has counted the clocks. -/
structure Frozen (c : Core) (n : Nat) (d : Core) : Prop where
  state : d.state = .decode
  ir : d.ir = c.ir
  operation : d.operation = c.operation
  pc : d.pc = c.pc
  regs : d.regs = c.regs
  data : d.pulse.out.data = c.pulse.out.data
  cstrobe : d.pulse.out.cstrobe = false
  phaseReset : d.pulse.out.phaseReset = false
  retired : d.retired = c.retired
  qclk : d.qclk.value = c.qclk.value + UInt32.ofNat n

theorem Reachable.frozen_refl (h : Reachable config c) (hs : c.state = .decode) :
    Frozen c 0 c := by
  have hlow : ¬ c.pulse.out.Active := fun ha =>
    absurd (hs.symm.trans (h.paced.active ha)) (by decide)
  rw [PulseOutputs.Active, not_or, Bool.not_eq_true, Bool.not_eq_true] at hlow
  exact ⟨hs, rfl, rfl, rfl, rfl, rfl, hlow.1, hlow.2, rfl, (UInt32.add_zero _).symm⟩

theorem Frozen.edit (h : Frozen c n d) (he : d.Edits e) : Frozen c n e := by
  obtain ⟨words, i, rfl, -⟩ := he.eq_drive
  exact { h with }

theorem Frozen.of_drive (h : Frozen c n (d.drive i)) : Frozen c n d := { h with }

/-- A tick that stays in decode moves the timebase and nothing else. -/
theorem Tick.frozen (h : Tick i d e) (hd : d.Sound) (hf : Frozen c n d)
    (hstall : d.control.nextState = .decode) : Frozen c (n + 1) e := by
  have hq : d.control.Quiet := by
    have hcontrol := hd.settled.control
    rw [hf.state] at hcontrol
    rw [hcontrol] at hstall ⊢
    exact Control.quiet_of_stall hstall
  have hstate : e.state = .decode := h.state.trans hstall
  have hbusy {s : State} (hs : d.control.nextState = s) (hne : s ≠ .decode) : False :=
    hne (hs.symm.trans hstall)
  -- nothing is stored, so the widths play no role
  have hout : NextOutputs { widths := { pulse := d.pulse.widths } } d e.pulse.out :=
    h.nextOutputs hd rfl
  have hdata : e.pulse.out.data = d.pulse.out.data := by
    refine Bundle.ext_get fun p => hout.keeps p fun x hx => ?_
    exact hbusy (hd.settled.nextState_of_commits hx) (by decide)
  have hlow : ¬ (d.Fires ∨ d.ResetsPhase) := fun ha =>
    hbusy (hd.settled.nextState_of_active ha) (by decide)
  rw [not_or, ← hout.cstrobe, ← hout.phaseReset, Bool.not_eq_true, Bool.not_eq_true] at hlow
  refine ⟨hstate, ?_, ?_, ?_, ?_, hdata.trans hf.data, hlow.1, hlow.2, ?_, ?_⟩
  · rw [h.ir, hq.instrLoad]
    exact hf.ir
  · exact (h.operation hd.settled hq.instrLoad).trans hf.operation
  · rw [h.pc_of_noLoad hq.pcInc (hd.settled.pcLoad_eq_none hq.pcLoad hq.pcLoadCond)]
    exact hf.pc
  · rw [h.regs_of_noWrite hq.regWrite]
    exact hf.regs
  · rw [h.retired_of_ne (.inr (by rw [hstate]; decide))]
    exact hf.retired
  · rw [h.qclk_of_noLoad hq.qclkLoad, hf.qclk, UInt32.add_assoc, UInt32.ofNat_add]
    rfl

/-- A core in decode is frozen for as long as the cycles of the hold stay in decode. -/
theorem Reachable.frozen (h : Reachable config c) (hsettled : c.HasSettled) (hs : c.state = .decode)
    {limit : Nat} (hstall : ∀ n < limit, ∀ e, e.Settled → e.config = config → Frozen c n e →
      e.control.nextState = .decode) (hc : Continues c n d) (hn : n ≤ limit) : Frozen c n d := by
  have hrunnable := h.runnable hsettled (by rw [hs]; decide)
  -- an edit touches nothing that `Frozen` is about; a clock ticks the sound core under its lines
  induction hc with
  | refl => exact h.frozen_refl hs
  | edit _ he ih => exact (ih hn).edit he
  | @clock n d e hc hclock ih =>
    obtain ⟨f, i, hf, rfl⟩ := (hc.runnable hrunnable).1
    have hfrozen := (ih (by omega)).of_drive
    have hconfig : f.config = config := (hc.reachable h).shaped.config
    exact (tick_of_clock hclock).frozen hf hfrozen (hstall n hn f hf.settled hconfig hfrozen)

end Core

end Sequencer

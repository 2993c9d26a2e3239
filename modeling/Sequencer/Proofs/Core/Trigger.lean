import Mathlib
import Sequencer.Proofs.Core.Stall

/-! The time at which a triggered pulse fires.

    A triggered pulse holds the core in decode until the timebase shows its command time. Nothing
    loads the timebase during the hold, so it counts clocks: from `q` it comes to `t` after as many
    clocks as the word `t - q` says and not before (`add_ofNat_eq_iff`). If `t` has passed already,
    the count goes through zero. -/

namespace Sequencer

theorem add_ofNat_eq_iff {q t : UInt32} {n : Nat} (hn : n ≤ (t - q).toNat) :
    q + UInt32.ofNat n = t ↔ n = (t - q).toNat := by
  have hlt : n < 2 ^ 32 := lt_of_le_of_lt hn (t - q).toNat_lt
  constructor
  · rintro rfl
    rw [UInt32.add_comm, UInt32.add_sub_cancel, UInt32.toNat_ofNat_of_lt' hlt]
  · rintro rfl
    rw [UInt32.ofNat_toNat, UInt32.add_comm, UInt32.sub_add_cancel]

/-- The clocks until the timebase wraps, for a time that has passed. -/
theorem exists_wrap {q t : UInt32} (h : t < q) :
    ∃ n, 0 < n ∧ n ≤ (t - q).toNat ∧ q + UInt32.ofNat n = 0 := by
  have hlt : t.toNat < q.toNat := h
  have hq := q.toNat_lt
  have hsub : (t - q).toNat = 2 ^ 32 - q.toNat + t.toNat := by
    rw [UInt32.toNat_sub]
    omega
  refine ⟨2 ^ 32 - q.toNat, by omega, by omega, UInt32.toNat_inj.mp ?_⟩
  rw [UInt32.toNat_add, UInt32.toNat_ofNat', Nat.add_mod_mod, Nat.add_sub_cancel' hq.le,
    Nat.mod_self]
  rfl

namespace Core

variable {c d e : Core} {config : Config} {i : Inputs} {n : Nat} {cmdTime : UInt32} {reg : UInt8}
  {fields : Bundle PulseField}

/-- What `d` is in the cycle after the pulse that `c` decodes has fired: the strobe is high, the
    parameters that the pulse enables are written and the instruction has retired. -/
structure Fired (config : Config) (c : Core) (cmdTime : UInt32) (reg : UInt8)
    (fields : Bundle PulseField) (d : Core) : Prop where
  state : d.state = .fetchWait
  pc : d.pc = c.pc
  regs : d.regs = c.regs
  cstrobe : d.pulse.out.cstrobe = true
  retired : d.retired = c.retired + 1
  qclk : d.qclk.value = cmdTime + 1
  stores : ∀ p, (fields.get p).writeEn = true → (d.pulse.out.data.get p).toNat =
    (if (fields.get p).regSel then c.visible.reg reg else (fields.get p).value).toNat %
      2 ^ config.widths.pulse.get p
  keeps : ∀ p, (fields.get p).writeEn = false → d.pulse.out.data.get p = c.pulse.out.data.get p

/-- Before its time a triggered pulse stays in decode. -/
theorem Settled.nextState_of_early (h : c.Settled) (hs : c.state = .decode)
    (hop : c.operation = .pulseWrite true cmdTime reg fields) (hne : c.qclk.value ≠ cmdTime) :
    c.control.nextState = .decode := by
  have htime : c.timing.timeMatch = false := by
    rw [Bool.eq_false_iff, ne_eq, timeMatch_iff hop]
    exact hne
  rw [h.control, hs, hop]
  simp [Control.of, Control.decode, Control.pulse, Control.goto, htime]

/-- In the cycle of its time it fires. -/
theorem Tick.fired (h : Tick i d e) (hd : d.Sound) (hw : d.pulse.widths = config.widths.pulse)
    (hf : Frozen c n d) (hop : c.operation = .pulseWrite true cmdTime reg fields)
    (hq : d.qclk.value = cmdTime) : Fired config c cmdTime reg fields e := by
  have hop' : d.operation = .pulseWrite true cmdTime reg fields := hf.operation.trans hop
  have hfires : d.Fires := ⟨hf.state, reg, fields, by rw [hq]; exact hop'⟩
  have hquiet : d.control.Quiet := by
    rw [hd.settled.control, hf.state, hop']
    exact Control.quiet_waitState (.pulseWrite true cmdTime reg fields) _ _ (by rintro addr ⟨⟩)
  have hstate : e.state = .fetchWait := h.state.trans (hd.settled.nextState_of_active (.inl hfires))
  have hout := h.nextOutputs hd hw
  refine ⟨hstate, ?_, ?_, hout.cstrobe.mpr hfires, ?_, ?_, fun p hen => ?_, fun p hen => ?_⟩
  · rw [h.pc_of_noLoad hquiet.pcInc (hd.settled.pcLoad_eq_none hquiet.pcLoad hquiet.pcLoadCond)]
    exact hf.pc
  · rw [h.regs_of_noWrite hquiet.regWrite]
    exact hf.regs
  · rw [h.retired_of_boundary (by rw [hf.state]; decide) hstate, hf.retired]
  · rw [h.qclk_of_noLoad hquiet.qclkLoad, hq]
  · have hreg : d.visible.reg reg = c.visible.reg reg := by
      simp only [visible, Visible.reg, hf.regs]
    rw [← hreg]
    exact hout.stores p _ ⟨hf.state, true, cmdTime, reg, fields, hop', fun _ => hq, hen, rfl⟩
  · rw [hout.keeps p fun x hx => ?_, hf.data]
    obtain ⟨-, trigger, t, r, fs, hop'', -, hen', -⟩ := hx
    cases hop'.symm.trans hop''
    exact absurd (hen.symm.trans hen') (by decide)

theorem Reachable.frozen_of_early (h : Reachable config c) (hsettled : c.HasSettled)
    (hs : c.state = .decode) (hop : c.operation = .pulseWrite true cmdTime reg fields)
    (hc : Continues c n d) (hn : n ≤ (cmdTime - c.qclk.value).toNat) : Frozen c n d := by
  refine h.frozen hsettled hs (fun k hk e he _ hf => ?_) hc hn
  refine he.nextState_of_early hf.state (hf.operation.trans hop) ?_
  rw [hf.qclk, ne_eq, add_ofNat_eq_iff hk.le]
  exact hk.ne

theorem Reachable.fired (h : Reachable config c) (hsettled : c.HasSettled) (hs : c.state = .decode)
    (hop : c.operation = .pulseWrite true cmdTime reg fields)
    (hc : Continues c ((cmdTime - c.qclk.value).toNat + 1) d) :
    Fired config c cmdTime reg fields d := by
  obtain ⟨e, f, he, hclock, hf⟩ := hc.exists_last
  have hfrozen := h.frozen_of_early hsettled hs hop he le_rfl
  have hwidths := (he.reachable h).shaped.pulse
  obtain ⟨g, i, hg, rfl⟩ := (he.runnable (h.runnable hsettled (by rw [hs]; decide))).1
  have hfrozen := hfrozen.of_drive
  have hq : g.qclk.value = cmdTime := by
    rw [hfrozen.qclk, add_ofNat_eq_iff le_rfl]
  have hfired := (tick_of_clock hclock).fired hg hwidths hfrozen hop hq
  obtain ⟨words, j, rfl⟩ := hf.eq_drive
  exact { hfired with }

/-- A triggered pulse fires at its command time. A core that has settled in decode of one while the
    timebase shows `q` is frozen for as many clocks as the word `cmdTime - q` says, with anything on
    its input lines and anything written to its program memory. The next clock fires the pulse, and
    on any inputs there is a run that far, unless the cycle count is exhausted before. If the
    command time has passed already, the timebase first goes through zero. -/
theorem fires_at_command_time (h : Reachable config c) (hsettled : c.HasSettled)
    (hs : c.state = .decode) (hop : c.operation = .pulseWrite true cmdTime reg fields) :
    (∀ n d, n ≤ (cmdTime - c.qclk.value).toNat → Continues c n d →
      Frozen c n d ∧ d.cycle = c.cycle + n ∧ (d.cycle + 1 < 2 ^ 64 → ∃ e, d.clock = .ok e)) ∧
    (∀ d, Continues c ((cmdTime - c.qclk.value).toNat + 1) d →
      Fired config c cmdTime reg fields d) ∧
    (c.cycle + (cmdTime - c.qclk.value).toNat + 1 < 2 ^ 64 → ∀ inputs,
      ∃ d, c.run inputs ((cmdTime - c.qclk.value).toNat + 1) = .ok d ∧
        Fired config c cmdTime reg fields d) ∧
    (cmdTime < c.qclk.value → ∃ n, 0 < n ∧ n ≤ (cmdTime - c.qclk.value).toNat ∧
      ∀ d, Continues c n d → d.qclk.value = 0) := by
  have hrunnable := h.runnable hsettled (by rw [hs]; decide)
  refine ⟨fun n d hn hc => ?_, fun d hc => h.fired hsettled hs hop hc, fun hlt inputs => ?_,
    fun hpast => ?_⟩
  · obtain ⟨hrunnable', hcycle⟩ := hc.runnable hrunnable
    exact ⟨h.frozen_of_early hsettled hs hop hc hn, hcycle, hrunnable'.exists_clock⟩
  · obtain ⟨d, hd⟩ := hrunnable.exists_run inputs ((cmdTime - c.qclk.value).toNat + 1) hlt
    exact ⟨d, hd, h.fired hsettled hs hop (.of_run hd)⟩
  · obtain ⟨n, hpos, hn, hzero⟩ := exists_wrap hpast
    exact ⟨n, hpos, hn, fun d hc => (h.frozen_of_early hsettled hs hop hc hn).qclk.trans hzero⟩

/-- A pulse for time 1 that is decoded at time 2 fires after 2 ^ 32 clocks, when the timebase has
    gone all the way round. -/
theorem fires_at_command_time_wrapped :
    ∃ c d fields, Reachable .narrow c ∧ c.state = .decode ∧
      c.operation = .pulseWrite true 1 1 fields ∧ c.qclk.value = 2 ∧
      c.run (fun _ => {}) 4294967296 = .ok d ∧ Fired .narrow c 1 1 fields d := by
  have hrun : ∃ fresh c₀ c fields, Core.new .narrow = pure fresh ∧
      fresh.loadProgram [Narrow.pulseAtOne] = .ok (c₀, .ok ()) ∧
      c₀.run (fun _ => {}) 2 = .ok c ∧ c.state = .decode ∧ c.cycle = 2 ∧ c.qclk.value = 2 ∧
      c.operation = .pulseWrite true 1 1 fields :=
    ⟨_, _, _, _, rfl, rfl, rfl, rfl, rfl, rfl, rfl⟩
  obtain ⟨fresh, c₀, c, fields, hnew, hload, hrun, hs, hcycle, hq, hop⟩ := hrun
  have hreach : Reachable _ c := ((Reachable.new hnew).load hload).run hrun
  have hstart : Start _ c₀ := .load (.new hnew) hload
  have hsettled := (Continues.of_run hrun).hasSettled hstart.hasSettled
  obtain ⟨-, -, hfires, -⟩ := fires_at_command_time hreach hsettled hs hop
  rw [hcycle, hq] at hfires
  obtain ⟨d, hd, hfired⟩ := hfires (by decide) fun _ => {}
  exact ⟨c, d, fields, hreach, hs, hop, hq, hd, hfired⟩

end Core

end Sequencer

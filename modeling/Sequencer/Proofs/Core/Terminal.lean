import Mathlib
import Sequencer.Proofs.Core.Stall

/-! The end of a program.

    `done` holds a core in decode for good, and so does an unassigned class under the policy that
    stalls. No input line, no late answer and no program write reaches such a core. A core is done
    when it decodes `done`, so it stays done, and the cycle that it has recorded is the first one in
    which it was (`Trace.doneCycle_iff`). -/

namespace Sequencer

/-- Does the operation hold a core in decode for good? -/
def Operation.terminal (policy : UnknownPolicy) : Operation → Bool
  | .done => true
  | .unknown _ => policy = .stallInDecode
  | _ => false

theorem exists_isFirst {p : Nat → Prop} {t : Nat} (h : p t) : ∃ k ≤ t, IsFirst p 0 k := by
  classical
  have hex : ∃ j, p j := ⟨t, h⟩
  exact ⟨Nat.find hex, Nat.find_min' hex h, Nat.zero_le _, Nat.find_spec hex,
    fun j _ hj => Nat.find_min hex hj⟩

namespace Control

variable {s : State} {op : Operation} {inputs : TimingInputs} {config : Config}

theorem of_terminal (h : op.terminal config.unknownOpcode = true) :
    of .decode op inputs config = { goto .decode with done := decide (op = .done) } := by
  cases op with
  | done => rfl
  | unknown bits =>
    have hpolicy : config.unknownOpcode = .stallInDecode := of_decide_eq_true h
    simp [of, decode, goto, hpolicy]
  | _ => cases h

theorem done_iff : (of s op inputs config).done = true ↔ s = .decode ∧ op = .done := by
  obtain ⟨fetchCycle, timeMatch, fprocReady, syncReady⟩ := inputs
  cases s with
  | fetchWait =>
    simp only [of]
    split <;> simp [fetch, goto]
  | decode =>
    cases op with
    | pulseWrite trigger => cases trigger <;> simp [of, decode, pulse, goto]
    | unknown => cases h : config.unknownOpcode <;> simp [of, decode, goto, h]
    | _ => simp [of, decode, alu, goto]
  | aluFprocWait | jumpFprocWait =>
    cases op <;> cases fprocReady <;> simp [of, feedback, fprocWait, alu, goto]
  | _ => simp [of, goto]

end Control

namespace Core

variable {c d : Core} {config : Config} {n t k : Nat} {run : Nat → Core}

/-! ### Terminal instructions -/

theorem Settled.done (h : c.Settled) : c.done = c.control.done := by
  rw [h.control]
  exact congrArg (·.lines.done) h.eq_settle.2.2.2

theorem HasSettled.done_iff (h : c.HasSettled) :
    c.done = true ↔ c.state = .decode ∧ c.operation = .done := by
  obtain ⟨d, i, hd, rfl⟩ := h
  have hdone : (d.drive i).done = (Control.of d.state d.operation d.timing d.config).done :=
    hd.done.trans (congrArg Control.done hd.control)
  rw [hdone, Control.done_iff]
  rfl

/-- A core that decodes a terminal instruction asks for nothing. -/
theorem HasSettled.requests_of_terminal (h : c.HasSettled) (hs : c.state = .decode)
    (hop : c.operation.terminal c.config.unknownOpcode = true) :
    c.lines.fprocRequest.enable = false ∧ c.lines.syncRequest.enable = false := by
  obtain ⟨d, i, hd, rfl⟩ := h
  have hcontrol : d.control =
      { Control.goto .decode with done := decide (d.operation = .done) } := by
    rw [hd.control, show d.state = .decode from hs]
    exact Control.of_terminal hop
  have hfproc := hd.fprocRequest
  have hsync := hd.syncRequest
  rw [hcontrol] at hfproc hsync
  exact ⟨congrArg Request.enable hfproc, congrArg Request.enable hsync⟩

theorem Reachable.frozen_of_terminal (h : Reachable config c) (hsettled : c.HasSettled)
    (hs : c.state = .decode) (hop : c.operation.terminal config.unknownOpcode = true)
    (hc : Continues c n d) : Frozen c n d := by
  refine h.frozen hsettled hs (fun k _ e he hconfig hf => ?_) hc le_rfl
  rw [← hf.operation, ← hconfig] at hop
  rw [he.control, hf.state, Control.of_terminal hop]
  rfl

/-! ### The cycle of the first done -/

theorem doneCycle_of_propagate (h : c.propagate = .ok d) :
    d.doneCycle = if d.done && c.doneCycle.isNone then some c.cycle else c.doneCycle := by
  obtain ⟨op, x, y, -, -, -, rfl⟩ := propagate_eq_ok.mp h
  rfl

/-- A cycle records its number if the core is done in it and none was recorded before. -/
theorem Continues.doneCycle (hc : Continues c 1 d) :
    d.doneCycle = if d.done && c.doneCycle.isNone then some d.cycle else c.doneCycle := by
  obtain ⟨e, f, he, hclock, hf⟩ := hc.exists_last
  obtain ⟨edge, hedge, hp⟩ := Checked.bind_eq_ok.mp hclock
  have hfirst := doneCycle_of_propagate hp
  have hcycle : f.cycle = edge.cycle := by
    obtain ⟨op, x, y, -, -, -, rfl⟩ := propagate_eq_ok.mp hp
    rfl
  obtain ⟨words, i, rfl⟩ := he.eq_drive
  obtain ⟨words', j, rfl⟩ := hf.eq_drive
  obtain ⟨fetchCycle, retired, memory, regs, pulse, cycle, -, -, -, -, -, -, rfl⟩ :=
    latch_eq_ok.mp hedge
  rw [← hcycle] at hfirst
  exact hfirst

theorem doneCycle_of_atStart (h : c.propagate = .ok d) (hs : c.state = .fetchWait)
    (hnone : c.doneCycle = none) : d.done = false ∧ d.doneCycle = none := by
  have hdone : d.done = false := by
    rw [Bool.eq_false_iff, ne_eq, HasSettled.done_iff (.of_self (settled_of_propagate h))]
    obtain ⟨op, x, y, -, -, -, rfl⟩ := propagate_eq_ok.mp h
    rintro ⟨hdecode, -⟩
    exact absurd (hs.symm.trans hdecode) (by decide)
  rw [doneCycle_of_propagate h, hdone, hnone]
  exact ⟨rfl, rfl⟩

theorem Start.doneCycle (h : Start config c) : c.done = false ∧ c.doneCycle = none := by
  induction h with
  | new h =>
    obtain ⟨l, core, hl, hcore, h⟩ := new_eq_pure.mp h
    rw [blank_of_layout hl, Except.ok.injEq] at hcore
    subst hcore
    exact doneCycle_of_atStart h rfl rfl
  | reset _ hr => exact doneCycle_of_atStart hr rfl rfl
  | load _ hl ih =>
    obtain ⟨words, rfl, -⟩ := exists_holding_of_load hl
    exact ih

theorem Start.reachable (h : Start config c) : Reachable config c := by
  induction h with
  | new h => exact .new h
  | reset h hr => exact h.reset hr
  | load _ hl ih => exact ih.load hl

/-- The cores of a run, one a cycle, from a start through `n` clocks with any edits between them. -/
structure Trace (config : Config) (run : Nat → Core) (n : Nat) : Prop where
  start : Start config (run 0)
  next : ∀ t < n, Continues (run t) 1 (run (t + 1))

namespace Trace

theorem spec (h : Trace config run n) : ∀ t ≤ n,
    Reachable config (run t) ∧ (run t).Runnable ∧ (run t).cycle = t
  | 0, _ => by
    obtain ⟨hsound, hstart, -⟩ := h.start.spec
    exact ⟨h.start.reachable, .of_self hsound, hstart.cycle⟩
  | t + 1, hle => by
    obtain ⟨hreach, hrunnable, hcycle⟩ := h.spec t (by omega)
    have hnext := h.next t hle
    obtain ⟨hrunnable', hcycle'⟩ := hnext.runnable hrunnable
    exact ⟨hnext.reachable hreach, hrunnable', by rw [hcycle', hcycle]⟩

theorem hasSettled (h : Trace config run n) (ht : t ≤ n) : (run t).HasSettled :=
  (h.spec t ht).2.1.imp Sound.settled

theorem done_succ (h : Trace config run n) (ht : t < n) (hdone : (run t).done = true) :
    (run (t + 1)).done = true := by
  obtain ⟨hs, hop⟩ := (h.hasSettled ht.le).done_iff.mp hdone
  have hfrozen := (h.spec t ht.le).1.frozen_of_terminal (h.hasSettled ht.le) hs (by rw [hop]; rfl)
    (h.next t ht)
  exact (h.hasSettled ht).done_iff.mpr ⟨hfrozen.state, hfrozen.operation.trans hop⟩

theorem done_mono (h : Trace config run n) (hdone : (run k).done = true) :
    ∀ t, k ≤ t → t ≤ n → (run t).done = true := by
  intro t hkt
  induction t, hkt using Nat.le_induction with
  | base => exact fun _ => hdone
  | succ t _ ih => exact fun ht => h.done_succ ht (ih (by omega))

/-- The recorded cycle is the first in which the core is done. -/
theorem doneCycle_iff (h : Trace config run n) : ∀ t ≤ n, ∀ k,
    (run t).doneCycle = some k ↔ k ≤ t ∧ IsFirst (fun j => (run j).done = true) 0 k
  | 0, _, k => by
    obtain ⟨hdone, hnone⟩ := h.start.doneCycle
    rw [hnone]
    constructor
    · intro hk
      cases hk
    · rintro ⟨hk, -, hp, -⟩
      obtain rfl := Nat.le_zero.mp hk
      exact absurd (hdone.symm.trans hp) (by decide)
  | t + 1, hle, k => by
    have ih := h.doneCycle_iff t (by omega)
    -- a new cycle is the first one exactly when it is recorded
    have hnow : IsFirst (fun j => (run j).done = true) 0 (t + 1) ↔
        (run (t + 1)).done = true ∧ (run t).doneCycle = none := by
      constructor
      · rintro ⟨-, hdone, hbefore⟩
        refine ⟨hdone, Option.eq_none_iff_forall_ne_some.mpr fun w hw => ?_⟩
        obtain ⟨hwt, -, hp, -⟩ := (ih w).mp hw
        exact hbefore w (Nat.zero_le w) (by omega) hp
      · rintro ⟨hdone, hnone⟩
        refine ⟨Nat.zero_le _, hdone, fun j _ hj hp => ?_⟩
        obtain ⟨w, hw, hfirst⟩ := exists_isFirst (p := fun j => (run j).done = true) hp
        have hsome := (ih w).mpr ⟨by omega, hfirst⟩
        rw [hnone] at hsome
        cases hsome
    have hsplit : k ≤ t + 1 ∧ IsFirst (fun j => (run j).done = true) 0 k ↔
        (run t).doneCycle = some k ∨
          k = t + 1 ∧ (run (t + 1)).done = true ∧ (run t).doneCycle = none := by
      rw [ih k, ← hnow]
      constructor
      · rintro ⟨hk, hfirst⟩
        rcases Nat.le_succ_iff.mp hk with hkt | rfl
        · exact .inl ⟨hkt, hfirst⟩
        · exact .inr ⟨rfl, hfirst⟩
      · rintro (⟨hkt, hfirst⟩ | ⟨rfl, hfirst⟩)
        · exact ⟨by omega, hfirst⟩
        · exact ⟨le_rfl, hfirst⟩
    rw [(h.next t hle).doneCycle, (h.spec (t + 1) hle).2.2, hsplit]
    cases (run t).doneCycle <;> cases (run (t + 1)).done <;> simp [eq_comm]

theorem isSome_doneCycle (h : Trace config run n) (ht : t ≤ n) :
    (run t).doneCycle.isSome = (run t).done := by
  have hiff := h.doneCycle_iff t ht
  rw [Bool.eq_iff_iff, Option.isSome_iff_exists]
  constructor
  · rintro ⟨k, hk⟩
    obtain ⟨hkt, -, hdone, -⟩ := (hiff k).mp hk
    exact h.done_mono hdone t hkt ht
  · intro hdone
    obtain ⟨k, hk, hfirst⟩ := exists_isFirst (p := fun j => (run j).done = true) hdone
    exact ⟨k, (hiff k).mpr ⟨hk, hfirst⟩⟩

end Trace

/-- Terminal instructions are for good. A core that has settled in decode of `done`, or of an
    unassigned class that stalls, is frozen through any number of clocks, whatever its input lines
    carry and whatever is written to its program memory, and it can always be clocked on until the
    cycle count is exhausted. It asks for no feedback and no barrier, and it is done if and only if
    the instruction is `done`. In every cycle of a run a cycle is recorded exactly when the core is
    done, and it is the first in which it was. -/
theorem terminal_absorbing :
    (∀ {config : Config} {c : Core}, Reachable config c → c.HasSettled → c.state = .decode →
      c.operation.terminal config.unknownOpcode = true → ∀ {n : Nat} {d : Core}, Continues c n d →
        Frozen c n d ∧ d.lines.fprocRequest.enable = false ∧ d.lines.syncRequest.enable = false ∧
        (d.done = true ↔ c.operation = .done) ∧ d.cycle = c.cycle + n ∧
        (d.cycle + 1 < 2 ^ 64 → ∃ e, d.clock = .ok e)) ∧
    ∀ {config : Config} {run : Nat → Core} {n : Nat}, Trace config run n → ∀ t ≤ n,
      (run t).cycle = t ∧ (run t).doneCycle.isSome = (run t).done ∧
      ∀ k, (run t).doneCycle = some k ↔ k ≤ t ∧ IsFirst (fun j => (run j).done = true) 0 k := by
  refine ⟨fun {config c} h hsettled hs hop {n d} hc => ?_, fun {config run n} h t ht => ?_⟩
  · have hfrozen := h.frozen_of_terminal hsettled hs hop hc
    have hsettled' := hc.hasSettled hsettled
    obtain ⟨hrunnable, hcycle⟩ := hc.runnable (h.runnable hsettled (by rw [hs]; decide))
    have hop' : d.operation.terminal d.config.unknownOpcode = true := by
      rw [hfrozen.operation, (hc.reachable h).shaped.config]
      exact hop
    obtain ⟨hfproc, hsync⟩ := hsettled'.requests_of_terminal hfrozen.state hop'
    refine ⟨hfrozen, hfproc, hsync, ?_, hcycle, hrunnable.exists_clock⟩
    rw [hsettled'.done_iff, hfrozen.operation]
    exact and_iff_right hfrozen.state
  · exact ⟨(h.spec t ht).2.2, h.isSome_doneCycle ht, h.doneCycle_iff t ht⟩

/-- Word 0 is of an unassigned class. A core that stalls on it stays there when `done` is written
    over it and the barrier answers. A core that decodes `done` in cycle 2 has recorded that cycle
    and no later one. -/
theorem terminal_absorbing_overwritten :
    (∃ c e d, Reachable .narrow c ∧ c.operation = .unknown 0 ∧
      c.writeProgram 0 Narrow.done = .ok e ∧
      ((e.setSyncReady true).clock >>= clock) = .ok d ∧ Frozen c 2 d ∧ ¬ d.done = true) ∧
    ∃ run, Trace .narrow run 4 ∧
      (run 4).doneCycle = some 2 ∧ IsFirst (fun j => (run j).done = true) 0 2 := by
  have hstall : ∃ fresh c₀ c e d₁ d, Core.new .narrow = pure fresh ∧
      fresh.loadProgram [0] = .ok (c₀, .ok ()) ∧ c₀.run (fun _ => {}) 2 = .ok c ∧
      c.state = .decode ∧ c.operation = .unknown 0 ∧ c.writeProgram 0 Narrow.done = .ok e ∧
      (e.setSyncReady true).clock = .ok d₁ ∧ d₁.clock = .ok d :=
    ⟨_, _, _, _, _, _, rfl, rfl, rfl, rfl, rfl, rfl, rfl, rfl⟩
  have hdone : ∃ fresh c₀ c₁ c₂ c₃ c₄, Core.new .narrow = pure fresh ∧
      fresh.loadProgram [Narrow.done] = .ok (c₀, .ok ()) ∧ c₀.clock = .ok c₁ ∧
      c₁.clock = .ok c₂ ∧ c₂.clock = .ok c₃ ∧ c₃.clock = .ok c₄ ∧ c₄.doneCycle = some 2 :=
    ⟨_, _, _, _, _, _, rfl, rfl, rfl, rfl, rfl, rfl, rfl⟩
  constructor
  · obtain ⟨fresh, c₀, c, e, d₁, d, hnew, hload, hrun, hs, hop, hw, h₁, h⟩ := hstall
    have hstart : Start _ c₀ := .load (.new hnew) hload
    have hreach := hstart.reachable.run hrun
    have hsettled := (Continues.of_run hrun).hasSettled hstart.hasSettled
    have hc : Continues c 2 d :=
      (((Continues.refl.edit (.write hw)).edit (.setSyncReady _ true)).clock h₁).clock h
    obtain ⟨hfrozen, -, -, hiff, -⟩ :=
      terminal_absorbing.1 hreach hsettled hs (by rw [hop]; rfl) hc
    refine ⟨c, e, d, hreach, hop, hw, Checked.bind_eq_ok.mpr ⟨d₁, h₁, h⟩, hfrozen, ?_⟩
    rw [hiff, hop]
    decide
  · obtain ⟨fresh, c₀, c₁, c₂, c₃, c₄, hnew, hload, h₁, h₂, h₃, h₄, hfirst⟩ := hdone
    have htrace : Trace .narrow (fun t => [c₀, c₁, c₂, c₃, c₄].getD t c₀) 4 := by
      refine ⟨.load (.new hnew) hload, fun t ht => ?_⟩
      interval_cases t
      · exact .clock .refl h₁
      · exact .clock .refl h₂
      · exact .clock .refl h₃
      · exact .clock .refl h₄
    have hiff := (terminal_absorbing.2 htrace 4 le_rfl).2.2 2
    exact ⟨_, htrace, hfirst, (hiff.mp hfirst).2⟩

end Core

end Sequencer

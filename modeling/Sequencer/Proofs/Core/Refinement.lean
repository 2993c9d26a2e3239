import Mathlib
import Sequencer.Proofs.Core.InFlight

/-! A core runs its program like the interpreter.

    From a boundary on, the instruction at the program counter is in flight until the interpreter's
    step ends it (`run_inFlight`). So the next boundary of a run is the one that the interpreter
    gives, with the view that it gives, and there is none if the interpreter is stuck
    (`nextBoundary_iff_step`). -/

namespace Sequencer

namespace Core

variable {c c' c₀ : Core} {inputs : Nat → Inputs} {v v' : Visible} {op : Operation}
  {config : Config} {program : List Word} {b t : Nat}

/-! ### Boundaries and instructions in flight -/

theorem Boundary.inFlight (hb : c.Boundary) : InFlight inputs c.visible op c := by
  refine .fetching hb.1 ?_ ?_ fun hne => absurd hb.2 hne
  · rw [hb.2]
    rfl
  · have hqclk : c.visible.qclkAt c.cycle = c.visible.qclk := Visible.qclkAt_self _
    rw [hqclk]
    rfl

/-- An instruction in flight is at a boundary only in its first cycle. -/
theorem InFlight.cycle_eq (h : InFlight inputs v op c) (hb : c.Boundary) : c.cycle = v.cycle := by
  cases h with
  | fetching _ hcycle =>
    rw [hb.2] at hcycle
    exact hcycle
  | decoding hs => exact nomatch hs.symm.trans hb.1
  | waiting hs => exact absurd (hs.symm.trans hb.1) op.waitState_ne_fetchWait
  | executing _ he => exact absurd hb.1 (op.execState_ne he).1

/-- An instruction in flight has not reached the end that the interpreter gives. -/
theorem InFlight.cycle_lt (h : InFlight inputs v op c) (hc : c.Sound)
    (hstep : Step c.config inputs v op v') : c.cycle < v'.cycle := by
  obtain ⟨w, hw, rfl⟩ := step_iff.mp hstep
  have hfinish : w < (op.finish c.config inputs v w).cycle := by
    rw [Operation.finish_cycle]
    split <;> omega
  have hstart := hw.1
  cases h with
  | fetching _ hcycle =>
    have hle := UInt32.le_iff_toNat_le.mp hc.fetchCycle_le
    unfold Operation.waitStart at hstart
    split at hstart <;> omega
  | decoding _ _ hd hcycle =>
    rw [Operation.waitStart_of_ne hd] at hstart
    omega
  | waiting _ _ _ _ hnot =>
    have hle : c.cycle ≤ w := Nat.not_lt.mp fun hlt => hnot w hstart hlt hw.2.1
    omega
  | executing w' he _ hw' hcycle =>
    rw [hw'.unique hw] at hcycle
    rw [Operation.finish_cycle, he, hcycle]
    exact Nat.lt_succ_self _

/-! ### Runs of a loaded core -/

theorem fetch_congr (hl : c.layout = c'.layout) (hw : c.memory.words = c'.memory.words)
    (addr : UInt16) : c.fetch addr = c'.fetch addr := by
  simp only [fetch, ProgramMemory.read, hl, hw]

theorem Formed.exists_fetch (h : c.Formed) (addr : UInt16) :
    ∃ op, c.fetch addr = .ok op ∧ op.Fits c.layout.widths := by
  have hsize : 0 < c.memory.words.size := by
    rw [h.words]
    positivity
  rw [fetch, ProgramMemory.read, dif_pos hsize, Checked.ok_bind]
  exact Layout.decode_ok h.placed _

/-- What holds in cycle `t` of a run from `c₀`: nothing but the clock has touched the core. -/
structure Reached (config : Config) (c₀ : Core) (t : Nat) (c : Core) : Prop where
  sound : c.Sound
  config : c.config = config
  cycle : c.cycle = t
  layout : c.layout = c₀.layout
  words : c.memory.words = c₀.memory.words

theorem Loaded.reached (h : Loaded config program c₀) : Reached config c₀ 0 c₀ := by
  obtain ⟨fresh, hnew, hload⟩ := h
  obtain ⟨hsound, hconfig, hstart⟩ := sound_of_new hnew
  have hsound' := hsound.load hload
  obtain ⟨words, rfl, -⟩ := exists_holding_of_load hload
  exact ⟨hsound', hconfig, hstart.cycle, rfl, rfl⟩

theorem Reached.tick {i : Inputs} (h : Reached config c₀ t c) (ht : Tick i c c') :
    Reached config c₀ (t + 1) c' :=
  ⟨ht.sound h.sound, ht.config.trans h.config, by rw [ht.cycle, h.cycle],
    ht.layout.trans h.layout, (ProgramMemory.words_of_latch ht.memory).trans h.words⟩

theorem run_succ_eq_ok : c₀.run inputs (t + 1) = .ok c' ↔
    ∃ c, c₀.run inputs t = .ok c ∧ (c.drive (inputs (c.cycle + 1))).clock = .ok c' :=
  Checked.bind_eq_ok

theorem Reached.run (h : Reached config c₀ 0 c₀) :
    ∀ {t : Nat} {c : Core}, c₀.run inputs t = .ok c → Reached config c₀ t c
  | 0, _, hrun => Except.ok.inj hrun ▸ h
  | _ + 1, _, hrun => by
    obtain ⟨c, hc, hclock⟩ := run_succ_eq_ok.mp hrun
    exact (h.run hc).tick (tick_of_clock hclock)

/-- A run goes on until the cycle count is exhausted. -/
theorem Reached.exists_run (h : Reached config c₀ 0 c₀) (inputs : Nat → Inputs) :
    ∀ t : Nat, t < 2 ^ 64 → ∃ c, c₀.run inputs t = .ok c
  | 0, _ => ⟨c₀, rfl⟩
  | t + 1, ht => by
    obtain ⟨c, hc⟩ := h.exists_run inputs t (by omega)
    have hr := h.run hc
    obtain ⟨c', hc'⟩ := hr.sound.exists_clock (by rw [hr.cycle]; exact ht) (inputs (c.cycle + 1))
    exact ⟨c', run_succ_eq_ok.mpr ⟨c, hc, hc'⟩⟩

theorem Loaded.reached_run (h : Loaded config program c₀) (hrun : c₀.run inputs t = .ok c) :
    Reached config c₀ t c := h.reached.run hrun

theorem Loaded.exists_run (h : Loaded config program c₀) (inputs : Nat → Inputs) (t : Nat)
    (ht : t < 2 ^ 64) : ∃ c, c₀.run inputs t = .ok c := h.reached.exists_run inputs t ht

/-- From a boundary on, the instruction is in flight until the interpreter's step ends it. -/
theorem run_inFlight (h : Loaded config program c₀) (hrun : c₀.run inputs b = .ok c)
    (hb : c.Boundary) (hf : c₀.fetch c.pc.value = .ok op) (n : Nat) :
    ∀ {c'}, c₀.run inputs (b + n) = .ok c' →
    InFlight inputs c.visible op c' ∨
      ∃ s d, b < s ∧ s ≤ b + n ∧ c₀.run inputs s = .ok d ∧ d.Boundary ∧
        Step config inputs c.visible op d.visible := by
  induction n with
  | zero =>
    intro c' hrun'
    obtain rfl : c = c' := Except.ok.inj (hrun.symm.trans hrun')
    exact .inl hb.inFlight
  | succ n ih =>
    intro c' hrun'
    obtain ⟨d, hd, hclock⟩ := run_succ_eq_ok.mp hrun'
    rcases ih hd with hin | ⟨s, e, hbs, hsn, hrest⟩
    · have hr := h.reached_run hd
      have hfetch : d.fetch c.visible.pc = .ok op := (fetch_congr hr.layout hr.words _).trans hf
      refine ((tick_of_clock hclock).inFlight hr.sound hfetch hin).imp id fun ⟨hb', hstep⟩ => ?_
      rw [hr.config] at hstep
      exact ⟨b + (n + 1), c', by omega, le_refl _, hrun', hb', hstep⟩
    · exact .inr ⟨s, e, hbs, by omega, hrest⟩

/-- The boundaries after `b` up to the end of the instruction: the only one is its end. -/
theorem step_of_boundary (h : Loaded config program c₀) (hrun : c₀.run inputs b = .ok c)
    (hb : c.Boundary) (hf : c₀.fetch c.pc.value = .ok op) (hbt : b < t)
    (hrun' : c₀.run inputs t = .ok c') (hb' : c'.Boundary) :
    ∃ s d, b < s ∧ s ≤ t ∧ c₀.run inputs s = .ok d ∧ d.Boundary ∧
      Step config inputs c.visible op d.visible := by
  obtain ⟨n, rfl⟩ := Nat.exists_eq_add_of_lt hbt
  refine (run_inFlight h hrun hb hf (n + 1) hrun').resolve_left fun hin => ?_
  have hcycle := hin.cycle_eq hb'
  rw [(h.reached_run hrun').cycle] at hcycle
  have hstart : c.visible.cycle = b := (h.reached_run hrun).cycle
  omega

/-- A core runs its program like the interpreter. A run from a loaded core goes on until the cycle
    count is exhausted. At each of its boundaries the word at the program counter decodes to an
    operation that names existing registers and addresses only, and the next boundary is the one to
    which the interpreter steps on this operation, with the same cycle, counter, registers, timebase
    and count. Where the interpreter has no step, there is no next boundary. -/
theorem nextBoundary_iff_step (h : Loaded config program c₀) (hrun : c₀.run inputs b = .ok c)
    (hb : c.Boundary) :
    (∀ t, t < 2 ^ 64 → ∃ c', c₀.run inputs t = .ok c') ∧
      c.cycle = b ∧ c.regs.regs.size = 2 ^ config.widths.regAddr ∧
      ∃ op, c₀.fetch c.pc.value = .ok op ∧ op.Fits config.widths ∧
        ∀ v, c₀.NextBoundary inputs b v ↔ Step config inputs c.visible op v ∧ v.cycle < 2 ^ 64 := by
  have hr := h.reached_run hrun
  have hwidths : c.layout.widths = config.widths := by
    rw [(placed_of_layout hr.sound.formed.layout).2.1, hr.config]
  obtain ⟨op, hfetch, hfits⟩ := hr.sound.formed.exists_fetch c.pc.value
  rw [hwidths] at hfits
  rw [fetch_congr hr.layout hr.words] at hfetch
  refine ⟨h.exists_run inputs, hr.cycle, hwidths ▸ hr.sound.formed.regs.size, op, hfetch, hfits,
    fun v => ⟨?_, ?_⟩⟩
  · rintro ⟨hbv, ⟨d, hd, hdb, rfl⟩, hnone⟩
    obtain ⟨s, e, hbs, hsd, he, heb, hstep⟩ := step_of_boundary h hrun hb hfetch hbv hd hdb
    have hs : s = d.cycle := by
      rcases Nat.lt_or_eq_of_le hsd with hlt | heq
      · exact absurd heb (hnone s e hbs hlt he)
      · exact heq
    subst hs
    obtain rfl : e = d := Except.ok.inj (he.symm.trans hd)
    exact ⟨hstep, (h.reached_run hd).sound.cycle_lt⟩
  · rintro ⟨hstep, hlt⟩
    have hend : ∀ {s d}, c₀.run inputs s = .ok d → Step config inputs c.visible op d.visible →
        s = v.cycle ∧ d.visible = v := by
      intro s d hd hstep'
      have heq := hstep'.unique hstep
      exact ⟨(h.reached_run hd).cycle.symm.trans (congrArg Visible.cycle heq), heq⟩
    have hbv : b < v.cycle := by
      have := hstep.cycle_lt
      rwa [show c.visible.cycle = b from hr.cycle] at this
    refine ⟨hbv, ?_, fun t d hbt htv hd hdb => ?_⟩
    · obtain ⟨d, hd⟩ := h.exists_run inputs v.cycle hlt
      obtain ⟨n, hn⟩ := Nat.exists_eq_add_of_le hbv.le
      rcases run_inFlight h hrun hb hfetch n (hn ▸ hd) with hin | ⟨s, e, -, -, he, heb, hstep'⟩
      · have hd' := h.reached_run hd
        have hcycle := hin.cycle_lt hd'.sound (hd'.config ▸ hstep)
        rw [hd'.cycle] at hcycle
        exact absurd hcycle (lt_irrefl _)
      · obtain ⟨rfl, hview⟩ := hend he hstep'
        exact ⟨e, he, heb, hview⟩
    · obtain ⟨s, e, -, hst, he, -, hstep'⟩ := step_of_boundary h hrun hb hfetch hbt hd hdb
      have := (hend he hstep').1
      omega

/-- With a read latency of two, a feedback instruction at the first boundary skips the answer of its
    decode cycle 3, takes the one of cycle 6 and ends in cycle 8. -/
theorem nextBoundary_feedback :
    ∃ c₀, Loaded { Config.narrow with memReadLatency := 2 } [Narrow.aluFproc] c₀ ∧
      c₀.NextBoundary (fun t => { response := ⟨t == 3 || t == 6, t.toUInt32⟩ }) 0
        ⟨8, 1, #[0, 0, 0, 11], 8, 1⟩ := by
  have hl : ∃ c₀, Loaded { Config.narrow with memReadLatency := 2 } [Narrow.aluFproc] c₀ ∧
      c₀.Boundary ∧ c₀.visible = ⟨0, 0, #[0, 0, 0, 0], 0, 0⟩ ∧
      c₀.fetch c₀.pc.value = .ok (.aluFproc .add (.imm 5) 3 7) :=
    ⟨_, ⟨_, rfl, rfl⟩, ⟨rfl, rfl⟩, rfl, rfl⟩
  obtain ⟨c₀, hl, hb, hv, hop⟩ := hl
  have hrun : c₀.run (fun t => { response := ⟨t == 3 || t == 6, t.toUInt32⟩ }) 0 = .ok c₀ := rfl
  obtain ⟨-, -, -, op, hfetch, -, hiff⟩ := nextBoundary_iff_step hl hrun hb
  obtain rfl : op = .aluFproc .add (.imm 5) 3 7 := Except.ok.inj (hfetch.symm.trans hop)
  rw [hv] at hiff
  have hfirst : IsFirst (fun t => (t == 3 || t == 6) = true) 4 6 := by
    refine ⟨by decide, rfl, fun t hle hlt => ?_⟩
    interval_cases t <;> decide
  exact ⟨c₀, hl, (hiff _).mpr ⟨.aluFproc .add (.imm 5) 3 7 6 hfirst, by decide⟩⟩

end Core

end Sequencer

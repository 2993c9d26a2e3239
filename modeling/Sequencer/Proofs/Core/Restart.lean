import Mathlib
import Sequencer.Proofs.Core.Start
import Sequencer.Proofs.RoundTrip

/-! A reset core is a fresh core.

    Whatever was done to a core, its parts keep their sizes, and program memory keeps words of its
    own width (`ProgramMemory.Stores`). A reset clears everything else, so it gives the fresh core
    of the configuration with the contents of program memory in it (`Reachable.reset_eq`), and this
    is the core that loading these contents into a fresh core gives
    (`Reachable.loadProgram_words`). No run changes these contents, so a reset after a run leads
    back to the core that was loaded (`Loaded.reset_of_run`). -/

namespace Sequencer

namespace ProgramMemory

/-- Words are kept at `width` bits. -/
structure Stores (m : ProgramMemory) (width : Nat) : Prop where
  mask : m.mask = Word.ones width
  low : ∀ w ∈ m.words, w.low width = w

variable {m m' : ProgramMemory} {width addr : Nat} {w : Word}

theorem Stores.and_mask (h : m.Stores width) (w : Word) : w &&& m.mask = w.low width := by
  rw [h.mask, Word.low]

theorem Stores.write (h : m.Stores width) (hw : m.write addr w = .ok m') : m'.Stores width := by
  obtain ⟨-, rfl⟩ := write_eq_ok.mp hw
  refine ⟨h.mask, fun x hx => ?_⟩
  rcases Array.mem_or_eq_of_mem_setIfInBounds hx with hx | rfl
  · exact h.low x hx
  · rw [h.and_mask, Word.low_low]

theorem Stores.latch {addr : UInt16} (h : m.Stores width) (hl : m.latch addr = .ok m') :
    m'.Stores width := by
  obtain ⟨w, -, hm⟩ := Checked.bind_eq_ok.mp hl
  obtain rfl := Except.ok.inj hm
  exact { h with }

end ProgramMemory

namespace Core

variable {c c' fresh : Core} {config : Config} {l : Layout}

/-! ### The contents of program memory -/

/-- Consecutive words are stored one after the other, each cut by the mask of the memory. -/
theorem writeWords_of_le : ∀ (ws : List Word) (addr : Nat) {c : Core},
    0 < c.memory.words.size → addr + ws.length ≤ c.memory.words.size →
    ∃ words, c.writeWords addr ws = .ok (c.holding words) ∧
      words.size = c.memory.words.size ∧
      ∀ j, words[j]? = if addr ≤ j ∧ j < addr + ws.length then
        (ws[j - addr]?).map (· &&& c.memory.mask) else c.memory.words[j]?
  | [], addr, c, _, _ => by
    refine ⟨c.memory.words, rfl, rfl, fun j => ?_⟩
    rw [if_neg (by simp)]
  | w :: ws, addr, c, hpos, hle => by
    rw [List.length_cons] at hle
    have hw : c.writeProgram addr w =
        .ok (c.holding (c.memory.words.setIfInBounds addr (w &&& c.memory.mask))) := by
      rw [writeProgram_eq_ok, Nat.mod_eq_of_lt (by omega)]
      exact ⟨hpos, rfl⟩
    obtain ⟨words, hws, hsize, hget⟩ := writeWords_of_le ws (addr + 1)
      (c := c.holding (c.memory.words.setIfInBounds addr (w &&& c.memory.mask)))
      (by simpa using hpos) (by simp; omega)
    refine ⟨words, Checked.bind_eq_ok.mpr ⟨_, hw, hws⟩, by simpa using hsize, fun j => ?_⟩
    rw [hget j, holding_words, Array.getElem?_setIfInBounds, List.length_cons]
    -- Below and above the range nothing changes; its first word is the one just stored.
    rcases Nat.lt_trichotomy j addr with hj | rfl | hj
    · rw [if_neg (by omega), if_neg (by omega), if_neg (by omega)]
    · rw [if_neg (by omega), if_pos rfl, if_pos (by omega), if_pos (by omega)]
      simp
    · have hsub : j - addr = j - (addr + 1) + 1 := by omega
      rw [if_neg (by omega : ¬ addr = j), hsub, List.getElem?_cons_succ]
      refine if_congr ?_ rfl rfl
      omega

theorem stores_of_writeWords {width : Nat} : ∀ {ws : List Word} {addr : Nat} {c c' : Core},
    c.memory.Stores width → c.writeWords addr ws = .ok c' → c'.memory.Stores width
  | [], _, c, c', hc, h => by
    obtain rfl : c = c' := Except.ok.inj h
    exact hc
  | w :: ws, addr, c, c', hc, h => by
    obtain ⟨d, hd, hrest⟩ := Checked.bind_eq_ok.mp h
    obtain ⟨m, hm, hset⟩ := Checked.bind_eq_ok.mp hd
    obtain rfl := Except.ok.inj hset
    exact stores_of_writeWords (hc.write hm) hrest

/-! ### Fresh cores -/

theorem exists_new (hl : config.layout = pure l) : ∃ fresh, Core.new config = pure fresh := by
  have hblank := blank_of_layout hl
  obtain ⟨fresh, hfresh⟩ := (blank_eq_ok hl hblank).1.exists_propagate
  exact ⟨fresh, new_eq_pure.mpr ⟨l, _, hl, hblank, hfresh⟩⟩

theorem memory_of_new (hnew : Core.new config = pure fresh) :
    fresh.memory = { words := Array.replicate (2 ^ config.widths.instrAddr) 0, dataOut := 0,
                     mask := Word.ones config.widths.instr } := by
  obtain ⟨l, core, hl, hcore, hp⟩ := new_eq_pure.mp hnew
  rw [blank_of_layout hl, Except.ok.injEq] at hcore
  subst hcore
  obtain ⟨op, x, y, -, -, -, rfl⟩ := propagate_eq_ok.mp hp
  rw [← (placed_of_layout hl).2.1]
  rfl

/-! ### What every use of a core keeps -/

theorem Reachable.exists_new (h : Reachable config c) : ∃ fresh, Core.new config = pure fresh := by
  have hshape := h.shaped
  exact Core.exists_new (hshape.config ▸ hshape.formed.layout)

/-- Program memory never holds a bit above the width of an instruction word. -/
theorem Reachable.stores (h : Reachable config c) : c.memory.Stores config.widths.instr := by
  induction h with
  | new h =>
    rw [memory_of_new h]
    refine ⟨rfl, fun w hw => ?_⟩
    obtain rfl := Array.eq_of_mem_replicate hw
    exact Word.low_of_toNat_lt (by simp)
  | load _ hl ih =>
    rcases loadProgram_eq_ok hl with ⟨rfl, -⟩ | ⟨hw, -⟩
    · exact ih
    · exact stores_of_writeWords ih hw
  | write _ hw ih =>
    obtain ⟨m, hm, hset⟩ := Checked.bind_eq_ok.mp hw
    obtain rfl := Except.ok.inj hset
    exact ih.write hm
  | setResponse r _ ih => exact ih
  | setSyncReady ready _ ih => exact ih
  | latch _ hl ih =>
    obtain ⟨fetchCycle, retired, memory, regs, pulse, cycle, -, -, hm, -, -, -, rfl⟩ :=
      latch_eq_ok.mp hl
    exact ih.latch hm
  | propagate _ hp ih =>
    obtain ⟨op, x, y, -, -, -, rfl⟩ := propagate_eq_ok.mp hp
    exact ih
  | reset _ hr ih =>
    obtain ⟨op, x, y, -, -, -, rfl⟩ := propagate_eq_ok.mp hr
    exact { ih with }

/-! ### The reset -/

/-- A reset gives the fresh core of the configuration, with the contents of program memory kept. -/
theorem Reachable.reset_eq (h : Reachable config c) (hnew : Core.new config = pure fresh) :
    c.reset = .ok (fresh.holding c.memory.words) := by
  obtain ⟨l, core, hl, hcore, hp⟩ := new_eq_pure.mp hnew
  rw [blank_of_layout hl, Except.ok.injEq] at hcore
  subst hcore
  obtain ⟨hformed, hpulse, hconfig⟩ := h.shaped
  have hwidths := (placed_of_layout hl).2.1
  obtain rfl : c.layout = l := by
    have hlayout := hformed.layout
    rw [hconfig, hl] at hlayout
    exact (Attempt.pure_inj.mp hlayout).symm
  have hpc : c.pc.reset = ⟨0, ((1 <<< c.layout.widths.instrAddr) - 1).toUInt16⟩ := by
    rw [ProgramCounter.reset, hformed.pc.mask]
  have hregs : c.regs.reset =
      ⟨Array.replicate (2 ^ c.layout.widths.regAddr) 0, c.layout.widths.regAddr⟩ := by
    rw [RegisterFile.reset, hformed.regs.size, hformed.regs.addrWidth]
  have hmemory : c.memory.reset = ⟨c.memory.words, 0, Word.ones c.layout.widths.instr⟩ := by
    rw [ProgramMemory.reset, h.stores.mask, hwidths]
  have hout : c.pulse.reset = { widths := c.layout.widths.pulse } := by
    rw [PulseRegisters.reset, hpulse, hwidths]
  -- Settling reads no stored operation and no control line, which the reset leaves alone.
  obtain ⟨op, x, y, hop, h0, h1, rfl⟩ := propagate_eq_ok.mp hp
  rw [Core.reset, hpc, hregs, hmemory, hout, hconfig]
  exact propagate_eq_ok.mpr ⟨op, x, y, hop, h0, h1, rfl⟩

/-- Loading the contents of a program memory into a fresh core restores them. -/
theorem Reachable.loadProgram_words (h : Reachable config c) (hnew : Core.new config = pure fresh) :
    fresh.loadProgram c.memory.words.toList = .ok (fresh.holding c.memory.words, .ok ()) := by
  have hmemory := memory_of_new hnew
  have hsize : c.memory.words.size = fresh.memory.words.size := by
    have hwidths := (placed_of_layout h.shaped.formed.layout).2.1
    rw [h.shaped.formed.words, hwidths, h.shaped.config, hmemory, Array.size_replicate]
  have hpos : 0 < fresh.memory.words.size := by
    rw [hmemory, Array.size_replicate]
    positivity
  obtain ⟨words, hload, hsize', hget⟩ := writeWords_of_le c.memory.words.toList 0 hpos
    (by rw [Nat.zero_add, Array.length_toList, hsize])
  have hwords : words = c.memory.words := by
    refine Array.ext_getElem? fun j => ?_
    rw [hget j, Nat.zero_add, Array.length_toList, Nat.sub_zero, Array.getElem?_toList]
    by_cases hj : j < c.memory.words.size
    · have hlow := h.stores.low _ (Array.getElem_mem hj)
      rw [if_pos ⟨Nat.zero_le j, hj⟩, Array.getElem?_eq_getElem hj, Option.map_some, hmemory,
        ← Word.low, hlow]
    · rw [if_neg fun hlt => hj hlt.2, Array.getElem?_eq_none (by omega),
        Array.getElem?_eq_none (by omega)]
  subst hwords
  rw [loadProgram, if_neg (by rw [Array.length_toList, hsize, ProgramMemory.depth]; omega), hload]
  rfl

/-- A loaded core is told by the contents of its program memory. -/
theorem Loaded.eq_holding {program : List Word} (h : Loaded config program c)
    (hnew : Core.new config = pure fresh) : c = fresh.holding c.memory.words := by
  obtain ⟨fresh', hnew', hload⟩ := h
  obtain rfl := Attempt.pure_inj.mp (hnew.symm.trans hnew')
  obtain ⟨words, rfl, -⟩ := exists_holding_of_load hload
  rfl

/-! ### Runs of a loaded core -/

theorem Reachable.run {inputs : Nat → Inputs} (h : Reachable config c) :
    ∀ {t : Nat} {c' : Core}, c.run inputs t = .ok c' → Reachable config c'
  | 0, _, hrun => Except.ok.inj hrun ▸ h
  | _ + 1, _, hrun => by
    obtain ⟨d, hd, hclock⟩ := run_succ_eq_ok.mp hrun
    obtain ⟨edge, hedge, hp⟩ := Checked.bind_eq_ok.mp hclock
    exact ((((h.run hd).setResponse _).setSyncReady _).latch hedge).propagate hp

/-- A reset after any number of cycles leads back to the core that was loaded. -/
theorem Loaded.reset_of_run {program : List Word} {inputs : Nat → Inputs} {t : Nat}
    (h : Loaded config program c) (hrun : c.run inputs t = .ok c') : c'.reset = .ok c := by
  obtain ⟨fresh, hnew, hload⟩ := id h
  have hreach : Reachable config c := (Reachable.new hnew).load hload
  rw [(hreach.run hrun).reset_eq hnew, (h.reached_run hrun).words, ← h.eq_holding hnew]

theorem AtStart.drive_eq (h : c.AtStart) : c.drive {} = c := by
  have hlines : { c.lines with fprocResponse := {}, syncReady := false } = c.lines := by
    rw [← h.response, ← h.syncReady]
  exact congrArg (fun lines => { c with lines }) hlines

end Core

end Sequencer

import Mathlib
import Sequencer.Proofs.Core.Stall
import Sequencer.Proofs.Reencoding

/-! Program memory is written while a core runs.

    A load looks at the length of the program before it writes, so it stores the whole program or
    nothing. It cuts the words to the width of an instruction word, which no field reaches beyond,
    so the stored words decode like the given ones (`Reachable.loadProgram_of_le`).

    A running core sees program memory only through the read register. Every edge of a fetch fills
    it with the word at the counter, and the edge that ends the fetch loads what it holds:

        cycle s         cycle s + 1     cycle s + 2
        FETCH_WAIT  ──▶ FETCH_WAIT  ──▶ DECODE
                    read            load

    So the core executes what stood at the counter when the last waiting cycle started. A write
    before that edge is seen and a later one is not (`AtEdges.loaded_word`). -/

namespace Sequencer

namespace Core

variable {c d e : Core} {config : Config} {i : Inputs} {run : Nat → Core} {n s b t : Nat}

/-! ### Loading -/

/-- `d` is `c` with a program at the start of its memory. -/
structure Overwritten (c : Core) (program : List Word) (d : Core) : Prop where
  /-- Nothing but the contents of program memory differs. -/
  frame : d = c.holding d.memory.words
  size : d.memory.words.size = c.memory.words.size
  /-- A word is stored modulo the size of an instruction word, and decodes as before. -/
  stored : ∀ (j : Nat) w, program[j]? = some w → ∃ s op, d.memory.words[j]? = some s ∧
    s.toNat = w.toNat % 2 ^ c.config.widths.instr ∧
    c.layout.decode w = .ok op ∧ c.layout.decode s = .ok op
  kept : ∀ j : Nat, program.length ≤ j → d.memory.words[j]? = c.memory.words[j]?

theorem Reachable.size_words (h : Reachable config c) :
    c.memory.words.size = 2 ^ config.widths.instrAddr := by
  rw [h.shaped.formed.words, (placed_of_layout h.shaped.formed.layout).2.1, h.shaped.config]

theorem Reachable.loadProgram_of_lt (h : Reachable config c) {program : List Word}
    (hlt : 2 ^ config.widths.instrAddr < program.length) :
    c.loadProgram program =
      .ok (c, .error ⟨program.length, 2 ^ config.widths.instrAddr⟩) := by
  rw [← h.size_words] at hlt ⊢
  exact if_pos hlt

theorem Reachable.loadProgram_of_le (h : Reachable config c) {program : List Word}
    (hle : program.length ≤ 2 ^ config.widths.instrAddr) :
    ∃ d, c.loadProgram program = .ok (d, .ok ()) ∧ c.Overwritten program d := by
  obtain ⟨-, hwidths, hplaced⟩ := placed_of_layout h.shaped.formed.layout
  have hpos : 0 < c.memory.words.size := by
    rw [h.size_words]
    positivity
  have hmask : c.memory.mask = Word.ones c.layout.widths.instr := by
    rw [h.stores.mask, hwidths, h.shaped.config]
  rw [← h.size_words] at hle
  obtain ⟨words, hwords, hsize, hget⟩ := writeWords_of_le program 0 hpos (by omega)
  refine ⟨c.holding words, ?_, rfl, hsize, fun j w hw => ?_, fun j hj => ?_⟩
  · rw [loadProgram, if_neg (show ¬ c.memory.depth < program.length from Nat.not_lt.mpr hle),
      hwords]
    rfl
  · obtain ⟨hj, -⟩ := List.getElem?_eq_some_iff.mp hw
    obtain ⟨op, hop, -⟩ := Layout.decode_ok hplaced w
    refine ⟨w.low c.layout.widths.instr, op, ?_, ?_, hop, (Layout.decode_low hplaced w).trans hop⟩
    · rw [holding_words, hget j, if_pos (by omega), Nat.sub_zero, hw, hmask]
      rfl
    · rw [Word.toNat_low, hwidths]
  · rw [holding_words, hget j, if_neg (by omega)]

/-- Only a program that is too long is refused. -/
theorem Reachable.lt_of_refused (h : Reachable config c) {program : List Word}
    {reason : ProgramTooLong} (hl : c.loadProgram program = .ok (d, .error reason)) :
    2 ^ config.widths.instrAddr < program.length := by
  by_contra hle
  obtain ⟨d', hd', -⟩ := h.loadProgram_of_le (Nat.not_lt.mp hle)
  cases (Prod.mk.inj (Except.ok.inj (hl.symm.trans hd'))).2

/-! ### One edge of a fetch -/

/-- The edge reads the word at the counter. -/
theorem Tick.read (h : Tick i c d) (hs : c.Settled) (hf : c.Formed)
    (hload : c.lines.pcLoad = none) :
    c.memory.words[c.pc.value.toNat]? = some d.memory.dataOut := by
  have hlt : c.pc.value.toNat < c.memory.words.size := by
    rw [hf.words]
    exact hf.pc.lt
  have hmemory := h.memory
  rw [hs.pcOut_eq hf hload, ProgramMemory.latch_of_lt hlt, Except.ok.injEq] at hmemory
  rw [← hmemory]
  simp [hlt]

/-- Outside of a fetch the instruction stays. -/
theorem Tick.ir_of_ne (h : Tick i c d) (hs : c.Settled) (hne : c.state ≠ .fetchWait) :
    d.ir = c.ir := by
  rw [h.ir, hs.instrLoad_of_ne hne]
  rfl

/-! ### One edge with the edits after it -/

/-- An edge leads from `c` to `d`, with programs loaded, words written and lines driven after it. -/
def Advances (c d : Core) : Prop := ∃ e, c.clock = .ok e ∧ Continues e 0 d

theorem HasSettled.decode (h : c.HasSettled) : c.layout.decode c.ir = .ok c.operation := by
  obtain ⟨d, i, hd, rfl⟩ := h
  exact hd.decode

namespace Advances

theorem reachable (h : c.Advances d) (hr : Reachable config c) : Reachable config d := by
  obtain ⟨e, hclock, hedits⟩ := h
  exact hedits.reachable ((Continues.refl.clock hclock).reachable hr)

theorem hasSettled (h : c.Advances d) (hs : c.HasSettled) : d.HasSettled := by
  obtain ⟨e, hclock, hedits⟩ := h
  exact hedits.hasSettled ((Continues.refl.clock hclock).hasSettled hs)

/-- The edge is a tick of the core as it settled. -/
theorem exists_tick (h : c.Advances d) (hr : Reachable config c) (hs : c.HasSettled) :
    ∃ a i e words j, Reachable config a ∧ a.Settled ∧ Tick i a e ∧ c = a.drive i ∧
      d = (e.holding words).drive j := by
  obtain ⟨a, i, hreach, hsettled, rfl⟩ := hr.exists_settled hs
  obtain ⟨e, hclock, hedits⟩ := h
  obtain ⟨words, j, rfl⟩ := hedits.eq_drive
  exact ⟨a, i, e, words, j, hreach, hsettled, tick_of_clock hclock, rfl, rfl⟩

/-- Before its last cycle a fetch goes on at the same counter, and the edge reads the memory
    there. -/
theorem waits (h : c.Advances d) (hr : Reachable config c) (hs : c.HasSettled)
    (hstate : c.state = .fetchWait) (hlt : c.fetchCycle < config.memReadLatency) :
    d.state = .fetchWait ∧ d.fetchCycle.toNat = c.fetchCycle.toNat + 1 ∧ d.pc = c.pc ∧
      c.memory.words[c.pc.value.toNat]? = some d.memory.dataOut := by
  obtain ⟨a, i, e, words, j, hreach, hsettled, htick, rfl, rfl⟩ := h.exists_tick hr hs
  rw [← hreach.shaped.config] at hlt
  obtain ⟨hquiet, hnext, hcount⟩ := htick.fetches_on hsettled hstate hlt
  have hload := hsettled.pcLoad_eq_none hquiet.pcLoad hquiet.pcLoadCond
  exact ⟨hnext, hcount, htick.pc_of_noLoad hquiet.pcInc hload,
    htick.read hsettled hreach.shaped.formed hload⟩

/-- The edge after the last cycle of a fetch loads what the read register holds. -/
theorem loads (h : c.Advances d) (hr : Reachable config c) (hs : c.HasSettled)
    (hstate : c.state = .fetchWait) (hle : config.memReadLatency ≤ c.fetchCycle) :
    d.state = .decode ∧ d.ir = c.memory.dataOut := by
  obtain ⟨a, i, e, words, j, hreach, hsettled, htick, rfl, rfl⟩ := h.exists_tick hr hs
  rw [← hreach.shaped.config] at hle
  exact htick.loads hsettled hstate hle

/-- Outside of a fetch the instruction stays, and a fetch that starts has not waited yet. -/
theorem keeps (h : c.Advances d) (hr : Reachable config c) (hs : c.HasSettled)
    (hne : c.state ≠ .fetchWait) : d.ir = c.ir ∧ d.fetchCycle = 0 := by
  obtain ⟨a, i, e, words, j, hreach, hsettled, htick, rfl, rfl⟩ := h.exists_tick hr hs
  have hcount := htick.fetchCycle
  rw [nextFetchCycle, if_neg (show ¬ a.state = .fetchWait from hne),
    hreach.paced.fetchCycle_zero hne] at hcount
  exact ⟨htick.ir_of_ne hsettled hne, (Except.ok.inj hcount).symm⟩

end Advances

/-! ### Runs -/

/-- The cores of a run as its edges find them, from a settled core on. -/
structure AtEdges (config : Config) (run : Nat → Core) (n : Nat) : Prop where
  reachable : Reachable config (run 0)
  settled : (run 0).HasSettled
  next : ∀ t < n, (run t).Advances (run (t + 1))

namespace AtEdges

theorem spec (h : AtEdges config run n) : ∀ t ≤ n,
    Reachable config (run t) ∧ (run t).HasSettled
  | 0, _ => ⟨h.reachable, h.settled⟩
  | t + 1, ht => by
    obtain ⟨hr, hs⟩ := h.spec t (by omega)
    exact ⟨(h.next t ht).reachable hr, (h.next t ht).hasSettled hs⟩

theorem memReadLatency_ne (h : AtEdges config run n) : config.memReadLatency ≠ 0 := by
  have hshape := h.reachable.shaped
  exact hshape.config ▸ (placed_of_layout hshape.formed.layout).1

/-- From its first cycle on a fetch waits for the latency of the memory, at one counter. -/
theorem fetches (h : AtEdges config run n) (hb : (run b).Boundary) : ∀ j : Nat,
    j ≤ config.memReadLatency.toNat → b + j ≤ n →
    (run (b + j)).state = .fetchWait ∧ (run (b + j)).fetchCycle.toNat = j ∧
      (run (b + j)).pc = (run b).pc
  | 0, _, _ => ⟨hb.1, by rw [Nat.add_zero, hb.2]; rfl, rfl⟩
  | j + 1, hj, hn => by
    obtain ⟨hstate, hcount, hpc⟩ := h.fetches hb j (by omega) (by omega)
    obtain ⟨hr, hs⟩ := h.spec (b + j) (by omega)
    have hlt : (run (b + j)).fetchCycle < config.memReadLatency := by
      rw [UInt32.lt_iff_toNat_lt, hcount]
      exact hj
    obtain ⟨hnext, hcount', hpc', -⟩ := (h.next (b + j) (by omega)).waits hr hs hstate hlt
    exact ⟨hnext, by rw [← Nat.add_assoc, hcount', hcount], hpc'.trans hpc⟩

/-- The cycle after the wait decodes. -/
theorem decodes (h : AtEdges config run n) (hb : (run b).Boundary)
    (hn : b + config.memReadLatency.toNat < n) :
    (run (b + config.memReadLatency.toNat + 1)).state = .decode := by
  obtain ⟨hstate, hcount, -⟩ := h.fetches hb _ le_rfl hn.le
  obtain ⟨hr, hs⟩ := h.spec _ hn.le
  exact ((h.next _ hn).loads hr hs hstate (UInt32.le_iff_toNat_le.mpr hcount.ge)).1

/-- A cycle that ends a fetch loads the word that was at the counter when the cycle started. -/
theorem loaded_word (h : AtEdges config run n) (hn : s + 2 ≤ n)
    (hlast : (run (s + 1)).state = .fetchWait) (hdecode : (run (s + 2)).state ≠ .fetchWait) :
    (run s).state = .fetchWait ∧ (run (s + 1)).pc = (run s).pc ∧
      (run s).memory.words[(run s).pc.value.toNat]? = some (run (s + 2)).ir := by
  obtain ⟨hr, hs⟩ := h.spec s (by omega)
  obtain ⟨hr', hs'⟩ := h.spec (s + 1) (by omega)
  have hedge := h.next s (by omega)
  have hedge' := h.next (s + 1) hn
  have hdone : config.memReadLatency ≤ (run (s + 1)).fetchCycle := by
    rw [← UInt32.not_lt]
    exact fun hlt => hdecode (hedge'.waits hr' hs' hlast hlt).1
  have hstate : (run s).state = .fetchWait := by
    by_contra hne
    have hzero := (hedge.keeps hr hs hne).2
    rw [hzero] at hdone
    exact h.memReadLatency_ne (UInt32.le_antisymm hdone UInt32.zero_le)
  have hlt : (run s).fetchCycle < config.memReadLatency := by
    rw [← UInt32.not_le]
    intro hle
    have hnext := (hedge.loads hr hs hstate hle).1
    exact absurd (hlast.symm.trans hnext) (by decide)
  obtain ⟨-, -, hpc, hread⟩ := hedge.waits hr hs hstate hlt
  exact ⟨hstate, hpc, by rw [(hedge'.loads hr' hs' hlast hdone).2, hread]⟩

/-- An instruction stays until the next fetch. -/
theorem ir_eq (h : AtEdges config run n) (hst : s ≤ t) (ht : t ≤ n)
    (hbusy : ∀ u, s ≤ u → u < t → (run u).state ≠ .fetchWait) : (run t).ir = (run s).ir := by
  induction t, hst using Nat.le_induction with
  | base => rfl
  | succ t hst ih =>
    obtain ⟨hr, hs⟩ := h.spec t (by omega)
    have hkeep := ((h.next t ht).keeps hr hs (hbusy t hst (by omega))).1
    exact hkeep.trans (ih (by omega) fun u hu hut => hbusy u hu (by omega))

end AtEdges

/-- Loads are atomic, and a running core executes what its fetch has read last. A program is refused
    exactly if it is longer than the memory, and the core that a refusal leaves is the core as it
    was. Any other program is stored from address 0 on, and nothing else changes. In a run with any
    writes between its edges, take the last waiting cycle of a fetch: the word that stood at the
    counter at the edge which starts this cycle is the one that the core has decoded and holds until
    it fetches again. A fetch waits at one counter, for one cycle more than the latency of the
    memory, and then decodes. -/
theorem loads_atomic_and_fetches_dated :
    (∀ {config : Config} {c : Core}, Reachable config c → ∀ program : List Word,
      ((∃ d e, c.loadProgram program = .ok (d, .error e)) ↔
        2 ^ config.widths.instrAddr < program.length) ∧
      (∀ d e, c.loadProgram program = .ok (d, .error e) →
        d = c ∧ e = ⟨program.length, 2 ^ config.widths.instrAddr⟩) ∧
      (program.length ≤ 2 ^ config.widths.instrAddr →
        ∃ d, c.loadProgram program = .ok (d, .ok ()) ∧ c.Overwritten program d)) ∧
    ∀ {config : Config} {run : Nat → Core} {n : Nat}, AtEdges config run n →
      (∀ s, s + 2 ≤ n → (run (s + 1)).state = .fetchWait → (run (s + 2)).state ≠ .fetchWait →
        (run s).state = .fetchWait ∧ (run (s + 1)).pc = (run s).pc ∧
        ∃ word, (run s).memory.words[(run s).pc.value.toNat]? = some word ∧
          ∀ t, s + 2 ≤ t → t ≤ n → (∀ u, s + 2 ≤ u → u < t → (run u).state ≠ .fetchWait) →
            (run t).ir = word ∧ (run t).layout.decode word = .ok (run t).operation) ∧
      ∀ b, (run b).Boundary → b + config.memReadLatency.toNat < n →
        (∀ j ≤ config.memReadLatency.toNat,
          (run (b + j)).state = .fetchWait ∧ (run (b + j)).pc = (run b).pc) ∧
        (run (b + config.memReadLatency.toNat + 1)).state = .decode := by
  refine ⟨fun {config c} h program => ⟨⟨?_, fun hlt => ⟨_, _, h.loadProgram_of_lt hlt⟩⟩,
      fun d e he => ?_, h.loadProgram_of_le⟩,
    fun {config run n} h => ⟨fun s hn hlast hdecode => ?_, fun b hb hn => ?_⟩⟩
  · rintro ⟨d, e, he⟩
    exact h.lt_of_refused he
  · rw [h.loadProgram_of_lt (h.lt_of_refused he), Except.ok.injEq, Prod.mk.injEq,
      Except.error.injEq] at he
    exact ⟨he.1.symm, he.2.symm⟩
  · obtain ⟨hstate, hpc, hword⟩ := h.loaded_word hn hlast hdecode
    refine ⟨hstate, hpc, _, hword, fun t hst ht hbusy => ?_⟩
    have hir := h.ir_eq hst ht hbusy
    exact ⟨hir, hir ▸ (h.spec t ht).2.decode⟩
  · refine ⟨fun j hj => ?_, h.decodes hb hn⟩
    obtain ⟨hstate, -, hpc⟩ := h.fetches hb j hj (by omega)
    exact ⟨hstate, hpc⟩

/-- With a latency of two, `done` is written over an instruction before the edge that starts the
    last waiting cycle, through an address that wraps, and word 0 over it before the next edge: the
    core decodes `done`. In the middle of this, nine words do not fit, and one with bits above the
    instruction word is stored without them. -/
theorem loads_atomic_and_fetches_dated_overwritten :
    ∃ c c₁ d₁ c₂ d₂ d : Core, c.Boundary ∧ c.config.memReadLatency = 2 ∧ c.clock = .ok c₁ ∧
      c₁.writeProgram 8 Narrow.done = .ok d₁ ∧ d₁.clock = .ok c₂ ∧
      c₂.writeProgram 0 0 = .ok d₂ ∧ d₂.clock = .ok d ∧ d.operation = .done ∧
      (∃ e, d₂.loadProgram (List.replicate 9 0) = .ok (e, .error ⟨9, 8⟩) ∧ e = d₂) ∧
      ∃ e, d₂.loadProgram [BitVec.allOnes 128] = .ok (e, .ok ()) ∧
        d₂.Overwritten [BitVec.allOnes 128] e := by
  have hrun : ∃ fresh c c₁ d₁ c₂ d₂ d,
      Core.new { Config.narrow with memReadLatency := 2 } = pure fresh ∧
      fresh.loadProgram [Narrow.setMinusSix] = .ok (c, .ok ()) ∧ c.Boundary ∧
      c.config.memReadLatency = 2 ∧ c.clock = .ok c₁ ∧
      c₁.writeProgram 8 Narrow.done = .ok d₁ ∧ d₁.clock = .ok c₂ ∧
      c₂.writeProgram 0 0 = .ok d₂ ∧ d₂.clock = .ok d ∧ d₂.state = .fetchWait ∧
      d.state = .decode ∧
      d₁.memory.words[d₁.pc.value.toNat]? = some Narrow.done ∧
      d.layout.decode Narrow.done = .ok .done :=
    ⟨_, _, _, _, _, _, _, rfl, rfl, ⟨rfl, rfl⟩, rfl, rfl, rfl, rfl, rfl, rfl, rfl, rfl, rfl, rfl⟩
  obtain ⟨fresh, c, c₁, d₁, c₂, d₂, d, hnew, hload, hb, hlatency, h₁, hw₁, h₂, hw₂, h₃, hlast,
    hdecode, hread, hdone⟩ := hrun
  have hstart : Start _ c := .load (.new hnew) hload
  have hrun : AtEdges { Config.narrow with memReadLatency := 2 }
      (fun t => [c, d₁, d₂, d].getD t c) 3 := by
    refine ⟨(Reachable.new hnew).load hload, hstart.hasSettled, fun t ht => ?_⟩
    interval_cases t
    · exact ⟨c₁, h₁, Continues.refl.edit (.write hw₁)⟩
    · exact ⟨c₂, h₂, Continues.refl.edit (.write hw₂)⟩
    · exact ⟨d, h₃, .refl⟩
  have hne : d.state ≠ .fetchWait := by
    rw [hdecode]
    decide
  obtain ⟨-, -, word, hword, hexec⟩ :=
    (loads_atomic_and_fetches_dated.2 hrun).1 1 le_rfl hlast hne
  obtain ⟨-, hop⟩ := hexec 3 le_rfl le_rfl fun u hu hlt => by omega
  obtain rfl := Option.some.inj (hread.symm.trans hword)
  obtain ⟨hrefused, hkept, -⟩ := loads_atomic_and_fetches_dated.1 (hrun.spec 2 (by omega)).1
    (List.replicate 9 0)
  obtain ⟨e, reason, he⟩ := hrefused.mpr (by decide)
  obtain ⟨hsame, rfl⟩ := hkept e reason he
  obtain ⟨-, -, hshort⟩ := loads_atomic_and_fetches_dated.1 (hrun.spec 2 (by omega)).1
    [BitVec.allOnes 128]
  exact ⟨c, c₁, d₁, c₂, d₂, d, hb, hlatency, h₁, hw₁, h₂, hw₂, h₃,
    Except.ok.inj (hop.symm.trans hdone), ⟨e, he, hsame⟩, hshort (by decide)⟩

end Core

end Sequencer

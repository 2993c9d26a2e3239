import Mathlib
import Sequencer.Proofs.Cluster.Sound
import Sequencer.Proofs.Core.Faultless

/-! Nothing that is done to a cluster faults.

    A table is accepted or refused before a shift by its number of lines could leave a word, so
    every cluster is built or refused. What building, changing the barrier, edits of single cores,
    clocks and resets keep is `Cluster.Runnable`: runnable cores that share the cycle of the
    cluster, each with a response line, and clients that have a bit in a word. Nothing is asked of
    the barrier: its edge and its ready lines return for every mask. -/

namespace Sequencer

namespace Cluster

variable {s s' : Cluster} {m : Meas}

/-! ### Building -/

theorem exists_everyCore {n : Nat} (h0 : n ≠ 0) (hn : n ≤ maxCores) :
    ∃ mask, everyCore n = .ok mask := by
  have hlt : maxCores - n < 32 := by
    rw [maxCores]
    omega
  rw [everyCore, Checked.sub_of_le hn, Checked.ok_bind, Checked.shiftRight_of_lt _ hlt]
  exact ⟨_, rfl⟩

theorem returns_distributor (table : LookupTable) (n : Nat) :
    Attempt.Returns (Distributor.new table n) :=
  (table.requires_validate n).returns.bind fun _ _ => Attempt.returns_pure _

/-- A cluster is built or refused, for every number of cores and every table. -/
theorem returns_new (config : Config) (n : Nat) (table : LookupTable) :
    Attempt.Returns (Cluster.new config n table) := by
  simp only [Cluster.new]
  split
  case isTrue => exact Attempt.returns_throw _
  split
  case isTrue => exact Attempt.returns_throw _
  case isFalse h0 hle =>
    refine ((Core.returns_new config).adapt _).bind fun core _ => ?_
    refine ((returns_distributor table n).adapt _).bind fun lut _ => ?_
    obtain ⟨mask, hmask⟩ := exists_everyCore h0 (Nat.not_lt.mp hle)
    exact (Attempt.returns_liftM hmask).bind fun mask _ => Attempt.returns_pure _

/-! ### Clusters in use -/

/-- The clusters that building, changing the barrier, edits of single cores, clocks and resets lead
    to. -/
inductive Operated : Cluster → Prop
  | new {config : Config} {n : Nat} {table : LookupTable} {s : Cluster} :
    Cluster.new config n table = pure s → Operated s
  | withBarrier {s : Cluster} (participants : UInt32) :
    Operated s → Operated (s.withBarrier participants)
  | edit {s : Cluster} {i : Nat} {c c' : Core} :
    Operated s → s.core i = .ok c → c.Edits c' → Operated (s.setCore i c')
  | clock {s s' : Cluster} (m : Meas) : Operated s → s.clock m = .ok s' → Operated s'
  | reset {s s' : Cluster} : Operated s → s.reset = .ok s' → Operated s'

/-- Runnable cores that share the cycle, each with a response line, and clients with a bit in a
    word. -/
structure Runnable (s : Cluster) : Prop where
  clients_lt : ∀ cl ∈ s.lut.clients, cl.core < 32
  responses_le : s.cores.length ≤ s.lut.responses.length
  cores : ∀ c ∈ s.cores, c.Runnable ∧ c.cycle = s.cycle

theorem Sound.runnable (h : s.Sound) : s.Runnable := by
  refine ⟨h.clients_lt, h.responses_le, fun c hc => ?_⟩
  obtain ⟨i, hi⟩ := List.mem_iff_getElem?.mp hc
  obtain ⟨hsound, hcycle⟩ := h.core hi
  exact ⟨.of_self hsound, hcycle⟩

/-- Settling moves no part of a cluster. -/
theorem seats_of_propagate (h : s.propagate m = .ok s') :
    s'.lut.clients = s.lut.clients ∧ s'.lut.responses.length = s.lut.responses.length ∧
      s'.cores.length = s.cores.length ∧ s'.cycle = s.cycle := by
  obtain ⟨rs, cs, hrs, hcs, rfl⟩ := propagate_eq_ok.mp h
  exact ⟨rfl, Distributor.length_respondAll hrs, (getElem?_propagateCores hcs).1, rfl⟩

namespace Runnable

theorem edit (h : s.Runnable) {i : Nat} {c c' : Core} (hc : s.core i = .ok c) (he : c.Edits c') :
    (s.setCore i c').Runnable := by
  refine ⟨h.clients_lt, List.length_set.trans_le h.responses_le, fun d hd => ?_⟩
  rcases List.mem_or_eq_of_mem_set hd with hd | rfl
  · exact h.cores d hd
  · obtain ⟨hrunnable, hcycle⟩ := h.cores c (List.mem_of_getElem? (Checked.get_eq_ok.mp hc))
    exact ⟨hrunnable.edit Core.Sound.holding he, he.cycle.trans hcycle⟩

theorem exists_clock (h : s.Runnable) (hcycle : s.cycle + 1 < 2 ^ 64) (m : Meas) :
    ∃ s', s.clock m = .ok s' := by
  refine Cluster.exists_clock hcycle h.clients_lt h.responses_le (fun c hc => ?_) m
  obtain ⟨hrunnable, heq⟩ := h.cores c hc
  exact hrunnable.exists_latch (by rw [heq]; exact hcycle)

theorem clock (h : s.Runnable) (hc : s.clock m = .ok s') :
    s'.Runnable ∧ s'.cycle = s.cycle + 1 := by
  have hcores := @mem_clock s s' m hc
  obtain ⟨edge, hedge, hp⟩ := clock_eq_ok.mp hc
  obtain ⟨barrier, cs, -, hcs, -, rfl⟩ := latch_eq_ok.mp hedge
  obtain ⟨hclients, hresponses, hlength, hcycle⟩ := seats_of_propagate hp
  refine ⟨⟨fun cl hcl => ?_, ?_, fun c' hc' => ?_⟩, hcycle⟩
  · rw [hclients] at hcl
    obtain ⟨cl₀, hcl₀, hcore⟩ := Distributor.core_of_mem_latchClients hcl
    rw [← hcore]
    exact h.clients_lt cl₀ hcl₀
  · rw [hlength, hresponses, (Checked.mapM_eq_ok hcs).1]
    exact h.responses_le
  · obtain ⟨c, hmem, i, hclock⟩ := hcores hc'
    obtain ⟨hrunnable, heq⟩ := h.cores c hmem
    obtain ⟨hnext, hcount⟩ := Core.Runnable.clock (hrunnable.drive i) hclock
    rw [hcycle, hcount, ← heq]
    exact ⟨hnext, rfl⟩

/-- The cleared parts of a cluster settle. -/
theorem exists_reset (h : s.Runnable) : ∃ s', s.reset = .ok s' := by
  obtain ⟨cs, hcs⟩ := Checked.exists_mapM fun c hc => (h.cores c hc).1.exists_reset
  obtain ⟨s', hs'⟩ := exists_propagate (s := ⟨cs, s.lut.reset, s.barrier.reset, 0⟩)
    (fun cl hcl => by
      obtain ⟨cl₀, hcl₀, rfl⟩ := List.mem_map.mp hcl
      exact h.clients_lt cl₀ hcl₀)
    (by
      rw [(Checked.mapM_eq_ok hcs).1, Distributor.reset, List.length_map]
      exact h.responses_le)
    (fun c' hc' => by
      obtain ⟨c, hc, hreset⟩ := Checked.mem_mapM hcs hc'
      exact ((h.cores c hc).1.formed.reset hreset).1.formed) {}
  exact ⟨s', reset_eq_ok.mpr ⟨cs, hcs, hs'⟩⟩

theorem reset (h : s.Runnable) (hr : s.reset = .ok s') : s'.Runnable := by
  obtain ⟨cs, hcs, hp⟩ := reset_eq_ok.mp hr
  obtain ⟨hclients, hresponses, hlength, hcycle⟩ := seats_of_propagate hp
  refine ⟨fun cl hcl => ?_, ?_, fun c' hc' => ?_⟩
  · rw [hclients] at hcl
    obtain ⟨cl₀, hcl₀, rfl⟩ := List.mem_map.mp hcl
    exact h.clients_lt cl₀ hcl₀
  · rw [hlength, hresponses, (Checked.mapM_eq_ok hcs).1, Distributor.reset, List.length_map]
    exact h.responses_le
  · obtain ⟨rs, cs', -, hcs', rfl⟩ := propagate_eq_ok.mp hp
    obtain ⟨c₁, hc₁, i, hsettle⟩ := mem_propagateCores hcs' hc'
    obtain ⟨c, hc, hreset⟩ := Checked.mem_mapM hcs hc₁
    obtain ⟨hsound, hstart⟩ := (h.cores c hc).1.formed.reset hreset
    refine ⟨.of_self (hsound.redrive hsettle), ?_⟩
    obtain ⟨op, x, y, -, -, -, rfl⟩ := Core.propagate_eq_ok.mp hsettle
    exact hstart.cycle

end Runnable

theorem Operated.runnable (h : Operated s) : s.Runnable := by
  induction h with
  | new h => exact (sound_of_new h).1.runnable
  | withBarrier participants _ ih => exact ⟨ih.clients_lt, ih.responses_le, ih.cores⟩
  | edit _ hc he ih => exact ih.edit hc he
  | clock m _ hc ih => exact (ih.clock hc).1
  | reset _ hr ih => exact ih.reset hr

/-- A cluster can be clocked until its cycle count is exhausted. -/
theorem Runnable.exists_clockN {meas : Nat → Meas} : ∀ {n : Nat} {s : Cluster}, s.Runnable →
    s.cycle + n < 2 ^ 64 → ∃ s', clockN meas n s = .ok s'
  | 0, s, _, _ => ⟨s, rfl⟩
  | n + 1, s, h, hlt => by
    obtain ⟨s₁, h₁⟩ := h.exists_clock (by omega) (meas (s.cycle + 1))
    obtain ⟨hrunnable, hcycle⟩ := h.clock h₁
    obtain ⟨s', hs'⟩ := hrunnable.exists_clockN (n := n) (by omega)
    exact ⟨s', Checked.bind_eq_ok.mpr ⟨s₁, h₁, hs'⟩⟩

/-- Nothing faults. Every configuration has a layout or is refused. Under a layout a core is built,
    every operation is encoded or refused and every word is decoded, with all its fields read; and
    whatever is done to the core, programs are loaded or refused, every address is written, a reset
    returns, and so does any number of clocks that the cycle count can hold. Every table is accepted
    or refused and every cluster built or refused, and whatever is done to it, its barrier replaced
    by one with any mask included, a reset returns, and so does any number of clocks that its cycle
    count can hold. -/
theorem operations_return (config : Config) :
    Attempt.Returns config.layout ∧
    (∀ l, config.layout = pure l →
      (∃ c, Core.new config = pure c) ∧
      (∀ op, Attempt.Returns (l.encode op)) ∧
      (∀ w, ∃ values op, l.fields.mapM (·.extract w) = .ok values ∧ l.decode w = .ok op)) ∧
    (∀ c, Core.Operated config c →
      (∀ program, ∃ c' result, c.loadProgram program = .ok (c', result)) ∧
      (∀ addr w, ∃ c', c.writeProgram addr w = .ok c') ∧
      (∃ c', c.reset = .ok c') ∧
      ∀ n, c.cycle + n < 2 ^ 64 → ∃ c', c.clockN n = .ok c') ∧
    (∀ n, ∃ table, LookupTable.zero n = .ok table) ∧
    (∀ n table, Attempt.Returns (table.validate n) ∧
      Attempt.Returns (Cluster.new config n table)) ∧
    ∀ s, Operated s →
      (∃ s', s.reset = .ok s') ∧
      ∀ meas n, s.cycle + n < 2 ^ 64 → ∃ s', clockN meas n s = .ok s' := by
  refine ⟨config.returns_layout, fun l hl => ⟨Core.exists_new hl, fun op => ?_, fun w => ?_⟩,
    fun c hc => ?_, LookupTable.exists_zero,
    fun n table => ⟨(table.requires_validate n).returns, returns_new config n table⟩,
    fun s hs => ⟨hs.runnable.exists_reset, fun meas n => hs.runnable.exists_clockN⟩⟩
  · exact (Core.placed_of_layout hl).2.2.returns_encode op
  · have hplaced := (Core.placed_of_layout hl).2.2
    obtain ⟨values, hvalues⟩ := hplaced.exists_extract w
    obtain ⟨op, hop, -⟩ := Layout.decode_ok hplaced w
    exact ⟨values, op, hvalues, hop⟩
  · have hrunnable := hc.runnable
    exact ⟨hrunnable.exists_load, hrunnable.exists_write, hrunnable.exists_reset,
      fun n => hrunnable.exists_clockN⟩

/-- A core whose fetches take as long as they can, with a response driven between two clocks, and a
    cluster whose barrier was changed in the middle of a run to name cores that do not exist. -/
theorem operations_return_midway :
    ∃ l c s, Config.slow.layout = pure l ∧ Core.Operated .slow c ∧
      c.cycle = 2 ∧ Operated s ∧ s.cycle = 2 ∧ s.barrier.participants = 0xffffffff ∧
      (∃ values op, l.fields.mapM (·.extract (BitVec.allOnes 128)) = .ok values ∧
        l.decode (BitVec.allOnes 128) = .ok op) ∧
      (∃ c', c.writeProgram (2 ^ 64 - 1) 5 = .ok c') ∧
      (∃ c', c.clockN (2 ^ 64 - 3) = .ok c') ∧
      ∃ s', clockN (fun _ => ⟨0xffffffff, 0xffffffff⟩) (2 ^ 64 - 3) s = .ok s' := by
  have hcore : ∃ l fresh c₁ c, Config.slow.layout = pure l ∧ Core.new .slow = pure fresh ∧
      fresh.clock = .ok c₁ ∧ (c₁.setResponse ⟨true, 1⟩).clock = .ok c ∧ c.cycle = 2 :=
    ⟨_, _, _, _, rfl, rfl, rfl, rfl, rfl⟩
  have hcluster : ∃ s₀ s₁ s, Cluster.new .narrow 2 .echo = pure s₀ ∧
      s₀.clock ⟨1, 1⟩ = .ok s₁ ∧ (s₁.withBarrier 0xffffffff).clock {} = .ok s ∧ s.cycle = 2 ∧
      s.barrier.participants = 0xffffffff :=
    ⟨_, _, _, rfl, rfl, rfl, rfl, rfl⟩
  obtain ⟨l, fresh, c₁, c, hl, hnew, h₁, h₂, hcycle⟩ := hcore
  obtain ⟨s₀, s₁, s, hnew', h₁', h₂', hcycle', hmask⟩ := hcluster
  obtain ⟨-, hlayout, hcores, -, -, hclusters⟩ := operations_return .slow
  have hc := ((Core.Operated.new hnew).clock h₁ |>.edit (.setResponse c₁ ⟨true, 1⟩)).clock h₂
  have hs := ((Operated.new hnew').clock _ h₁' |>.withBarrier 0xffffffff).clock _ h₂'
  exact ⟨l, c, s, hl, hc, hcycle, hs, hcycle', hmask, (hlayout l hl).2.2 _,
    (hcores c hc).2.1 _ _, (hcores c hc).2.2.2 _ (by rw [hcycle]; decide),
    (hclusters s hs).2 _ _ (by rw [hcycle']; decide)⟩

end Cluster

end Sequencer

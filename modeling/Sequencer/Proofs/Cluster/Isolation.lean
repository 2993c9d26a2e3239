import Mathlib
import Sequencer.Proofs.Cluster.Rendezvous
import Sequencer.Proofs.Cluster.Restart

/-! A core sees other cores through the barrier only.

    What a core reads from its surroundings is its ready line and its response line. A core that
    takes no part in the barrier, or that never decodes a barrier request (`Core.Syncless`), has a
    ready line that stays low. The response comes from the client of the core, and the client sees
    the measurement lines, the shared round and the requests of this core. So two clusters in which
    core `i`, its client, its response and the round are the same stay so under the same measurement
    lines (`Twins.clock`), whatever runs on the other cores. -/

namespace Sequencer

/-! ### Cores that never request a barrier -/

/-- Does the word decode to a barrier request? -/
def Layout.Syncs (l : Layout) (w : Word) : Prop := ∃ id, l.decode w = .ok (.sync id)

/-- The word zero has an unassigned class. -/
theorem Layout.decode_zero {l : Layout} (h : l.Placed) : l.decode 0 = .ok (.unknown 0) := by
  have hclass : l.classBits 0 = .ok 0 := by
    rw [classBits, Field.extract_of_inside h.inside_opClass, Field.value]
    simp
  rw [decode, hclass, Checked.ok_bind]
  rfl

theorem Layout.not_syncs_zero {l : Layout} (h : l.Placed) : ¬ l.Syncs 0 := by
  rintro ⟨id, hid⟩
  rw [decode_zero h] at hid
  cases hid

namespace Core

variable {c c' fresh : Core} {i : Inputs}

/-- No barrier request is in the instruction register, on its way there or in program memory. -/
structure Syncless (c : Core) : Prop where
  ir : ¬ c.layout.Syncs c.ir
  dataOut : ¬ c.layout.Syncs c.memory.dataOut
  words : ∀ w ∈ c.memory.words, ¬ c.layout.Syncs w

theorem Syncless.operation_ne (h : c.Syncless) (hs : c.Settled) (id : UInt16) :
    c.operation ≠ .sync id :=
  fun hop => h.ir ⟨id, hop ▸ hs.decode⟩

theorem Tick.syncless (h : Tick i c c') (hc : c.Syncless) : c'.Syncless := by
  obtain ⟨w, hw, hmemory⟩ := Checked.bind_eq_ok.mp h.memory
  have hmem : c'.memory = { c.memory with dataOut := w } := (Except.ok.inj hmemory).symm
  refine ⟨?_, ?_, ?_⟩
  · rw [h.layout, h.ir]
    split
    · exact hc.dataOut
    · exact hc.ir
  · rw [h.layout, hmem]
    unfold ProgramMemory.read at hw
    split at hw
    case isTrue hpos =>
      rw [← Except.ok.inj hw]
      exact hc.words _ (Array.getElem_mem _)
    case isFalse => cases hw
  · rw [h.layout, hmem]
    exact hc.words

/-- A fresh core fetches from its program memory only. -/
theorem syncless_of_new {config : Config} (hnew : Core.new config = pure fresh)
    {words : Array Word} (hwords : ∀ w ∈ words, ¬ fresh.layout.Syncs w) :
    (fresh.holding words).Syncless := by
  have hzero := Layout.not_syncs_zero (sound_of_new hnew).1.formed.placed
  have hir : fresh.ir = 0 := by
    obtain ⟨l, core, hl, hcore, hp⟩ := new_eq_pure.mp hnew
    rw [blank_of_layout hl, Except.ok.injEq] at hcore
    obtain ⟨op, x, y, -, -, -, rfl⟩ := propagate_eq_ok.mp hp
    rw [← hcore]
    rfl
  refine ⟨?_, ?_, hwords⟩
  · exact fun h => hzero (hir ▸ h)
  · have hout : (fresh.holding words).memory.dataOut = 0 :=
      congrArg ProgramMemory.dataOut (memory_of_new hnew)
    rw [hout]
    exact hzero

end Core

namespace Cluster

variable {s s' t t' s₀ : Cluster} {m : Meas} {i : Nat} {c : Core} {cl : Client} {r : Response}

/-! ### The ready line of an isolated core -/

/-- Core `i` takes no part in the barrier, or never requests one. -/
def Isolated (i : Nat) (s : Cluster) : Prop :=
  s.barrier.isParticipant i = .ok false ∨ ∃ c, s.cores[i]? = some c ∧ c.Syncless

theorem Tick.isolated (h : Tick m s s') (hi : Isolated i s) : Isolated i s' := by
  rcases hi with hi | ⟨c, hc, hsyncless⟩
  · exact .inl ((h.isParticipant i).trans hi)
  · obtain ⟨r, ready, c', -, -, hc', htick⟩ := h.core hc
    exact .inr ⟨c', hc', htick.syncless hsyncless⟩

/-- A barrier that fires has core `i` waiting at it, if core `i` takes part. -/
theorem Reachable.ready_eq_false (hs : Reachable s) (hi : Isolated i s) :
    s.barrier.ready i = .ok false := by
  obtain ⟨ready, hready⟩ := s.barrier.exists_ready i
  cases ready with
  | false => exact hready
  | true =>
    obtain ⟨hfire, hpart⟩ := Barrier.ready_iff.mp hready
    rcases hi with hi | ⟨c, hc, hsyncless⟩
    · cases hi.symm.trans hpart
    · obtain ⟨id, hall⟩ := hs.gathered hfire
      obtain ⟨d, hd, -, hop⟩ := hall hpart
      obtain rfl := Option.some.inj (hc.symm.trans hd)
      exact absurd hop (hsyncless.operation_ne (hs.sound.core hc).1.settled id)

/-! ### Twins -/

/-- Core `i`, its client and its response line. -/
structure Seat (s : Cluster) (i : Nat) (c : Core) (cl : Client) (r : Response) : Prop where
  core : s.cores[i]? = some c
  client : s.lut.clients[i]? = some cl
  response : s.lut.responses[i]? = some r

/-- One cycle at one seat. -/
theorem Seat.clock (h : Seat s i c cl r) (ht : s.clock m = .ok t) :
    ∃ c' r' ready, Seat t i c' (cl.latch c.lines.fprocRequest r.ready) r' ∧
      (cl.latch c.lines.fprocRequest r.ready).respond m t.lut.round.output = .ok r' ∧
      t.barrier.ready i = .ok ready ∧ (c.drive ⟨r', ready⟩).clock = .ok c' := by
  obtain ⟨r', ready, c', hr', hready, hc', hclock⟩ := clock_core ht h.core
  obtain ⟨r'', hcl', hr'', hrespond⟩ := (tick_of_clock ht).client h.core h.client h.response
  obtain rfl : r' = r'' := Option.some.inj (hr'.symm.trans hr'')
  exact ⟨c', r', ready, ⟨hc', hcl', hr'⟩, hrespond, hready, hclock⟩

/-- Two clusters that agree on seat `i` and on what all cores share, the barrier apart. -/
structure Twins (i : Nat) (s s' : Cluster) : Prop where
  seat : ∃ c cl r, Seat s i c cl r ∧ Seat s' i c cl r
  round : s.lut.round = s'.lut.round
  meas : s.lut.meas = s'.lut.meas
  cycle : s.cycle = s'.cycle

/-- Twins whose ready lines agree after the edge stay twins. -/
theorem Twins.clock (h : Twins i s s') (ht : s.clock m = .ok t) (ht' : s'.clock m = .ok t')
    (hlines : t.barrier.ready i = t'.barrier.ready i) : Twins i t t' := by
  obtain ⟨c, cl, r, hseat, hseat'⟩ := h.seat
  have htick := tick_of_clock ht
  have htick' := tick_of_clock ht'
  have hround : t.lut.round = t'.lut.round := by
    rw [htick.round, htick'.round, h.round, h.meas]
  obtain ⟨d, q, ready, hd, hrespond, hready, hclock⟩ := hseat.clock ht
  obtain ⟨d', q', ready', hd', hrespond', hready', hclock'⟩ := hseat'.clock ht'
  obtain rfl : q = q' := by
    rw [hround, hrespond', Except.ok.injEq] at hrespond
    exact hrespond.symm
  obtain rfl : ready = ready' := by
    rw [hlines, hready', Except.ok.injEq] at hready
    exact hready.symm
  obtain rfl : d = d' := by
    rw [hclock', Except.ok.injEq] at hclock
    exact hclock.symm
  refine ⟨⟨d, _, q, hd, hd'⟩, hround, ?_, ?_⟩
  · rw [htick.meas, htick'.meas]
  · rw [htick.cycle, htick'.cycle, h.cycle]

/-- Isolated twins stay twins over a run on the same measurement lines. -/
theorem Twins.run {meas : Nat → Meas} (hs : Reachable s) (hs' : Reachable s') (h : Twins i s s')
    (hi : Isolated i s) (hi' : Isolated i s') : ∀ {k : Nat} {t t' : Cluster},
    clockN meas k s = .ok t → clockN meas k s' = .ok t' →
    Twins i t t' ∧ Isolated i t ∧ Isolated i t'
  | 0, _, _, hrun, hrun' => by
    obtain rfl := Except.ok.inj hrun
    obtain rfl := Except.ok.inj hrun'
    exact ⟨h, hi, hi'⟩
  | k + 1, t, t', hrun, hrun' => by
    obtain ⟨u, hu, hclock⟩ := clockN_succ_eq_ok.mp hrun
    obtain ⟨u', hu', hclock'⟩ := clockN_succ_eq_ok.mp hrun'
    obtain ⟨htwins, hiu, hiu'⟩ := Twins.run hs hs' h hi hi' hu hu'
    have hit := (tick_of_clock hclock).isolated hiu
    have hit' := (tick_of_clock hclock').isolated hiu'
    have hready := (hs.run hrun).1.ready_eq_false hit
    have hready' := (hs'.run hrun').1.ready_eq_false hit'
    rw [← htwins.cycle] at hclock'
    exact ⟨htwins.clock hclock hclock' (hready.trans hready'.symm), hit, hit'⟩

/-! ### Loaded clusters -/

variable {config : Config} {n : Nat} {table : LookupTable} {mask : Option UInt32}

theorem Built.reachable (h : Built config n table mask s) : Reachable s := by
  obtain ⟨s₀, hnew, rfl⟩ := h
  cases mask with
  | none => exact .new hnew
  | some mask => exact .withBarrier mask hnew

theorem Reachable.loadPrograms : ∀ {programs : List (List Word)} {index : Nat} {s s' : Cluster},
    Reachable s → s.loadPrograms index programs = pure s' → Reachable s'
  | [], _, _, _, h, hl => Attempt.pure_inj.mp hl ▸ h
  | _ :: _, _, _, _, h, hl => by
    obtain ⟨c, c', hc, hc', hl⟩ := loadPrograms_cons_eq_pure.mp hl
    exact (h.load hc hc').loadPrograms hl

/-- In loaded clusters, cores of one number with the same program are twins. -/
theorem Built.twins {programs programs' : List (List Word)} {c' : Core}
    (h : Built config n table mask s₀)
    (hload : s₀.loadPrograms 0 programs = pure s) (hload' : s₀.loadPrograms 0 programs' = pure s')
    (hc : s.cores[i]? = some c) (hc' : s'.cores[i]? = some c')
    (hwords : c.memory.words = c'.memory.words) : c = c' ∧ Twins i s s' := by
  obtain ⟨fresh, hnew, h₀⟩ := h.atRest
  have hloads := h₀.loads.loadPrograms hload
  have hloads' := h₀.loads.loadPrograms hload'
  have hlut : s.lut = s'.lut :=
    (congrArg Cluster.lut hloads.eq).trans (congrArg Cluster.lut hloads'.eq).symm
  have hcycle : s.cycle = s'.cycle :=
    (congrArg Cluster.cycle hloads.eq).trans (congrArg Cluster.cycle hloads'.eq).symm
  obtain rfl : c = c' := by
    rw [hloads.cores c (List.mem_of_getElem? hc), hloads'.cores c' (List.mem_of_getElem? hc'),
      hwords]
  obtain ⟨cl, r, hw⟩ := (h.reachable.loadPrograms hload).sound.wired hc
  refine ⟨rfl, ⟨⟨c, cl, r, ⟨hc, hw.client, hw.response⟩, hc', ?_, ?_⟩, ?_, ?_, hcycle⟩⟩
  · rw [← hlut]
    exact hw.client
  · rw [← hlut]
    exact hw.response
  · rw [hlut]
  · rw [hlut]

/-- A loaded core that takes no part in the barrier, or has no barrier request in its program, is
    isolated. -/
theorem Built.isolated {programs : List (List Word)} (h : Built config n table mask s₀)
    (hload : s₀.loadPrograms 0 programs = pure s) (hc : s.cores[i]? = some c)
    (hi : s₀.barrier.isParticipant i = .ok false ∨ ∀ w ∈ c.memory.words, ¬ c.layout.Syncs w) :
    Isolated i s := by
  obtain ⟨fresh, hnew, h₀⟩ := h.atRest
  have hloads := h₀.loads.loadPrograms hload
  rcases hi with hi | hwords
  · refine .inl ?_
    rw [hloads.eq]
    exact hi
  · refine .inr ⟨c, hc, ?_⟩
    have heq := hloads.cores c (List.mem_of_getElem? hc)
    rw [heq] at hwords ⊢
    exact Core.syncless_of_new hnew hwords

/-- Cores influence each other through the barrier only. Two clusters are built alike, and core `i`
    has the same program in both. If core `i` takes no part in the barrier, or has no barrier
    request in its program memory, then on the same measurement lines core `i`, its client and its
    response are the same in every cycle, whatever programs the other cores run. -/
theorem isolated_from_others {programs programs' : List (List Word)} {c' : Core}
    (hbuilt : Built config n table mask s₀) (hload : s₀.loadPrograms 0 programs = pure s)
    (hload' : s₀.loadPrograms 0 programs' = pure s') (hc : s.core i = .ok c)
    (hc' : s'.core i = .ok c') (hwords : c.memory.words = c'.memory.words)
    (hi : s₀.barrier.isParticipant i = .ok false ∨ ∀ w ∈ c.memory.words, ¬ c.layout.Syncs w)
    (meas : Nat → Meas) {k : Nat} (hk : k < 2 ^ 64) :
    ∃ t t' d cl r, clockN meas k s = .ok t ∧ clockN meas k s' = .ok t' ∧
      t.core i = .ok d ∧ t'.core i = .ok d ∧ t.lut.client i = .ok cl ∧ t'.lut.client i = .ok cl ∧
      t.lut.response i = .ok r ∧ t'.lut.response i = .ok r := by
  have hget := Checked.get_eq_ok.mp hc
  have hget' := Checked.get_eq_ok.mp hc'
  obtain ⟨rfl, htwins⟩ := hbuilt.twins hload hload' hget hget' hwords
  have hs := hbuilt.reachable.loadPrograms hload
  have hs' := hbuilt.reachable.loadPrograms hload'
  have hzero : s.cycle = 0 := by
    obtain ⟨fresh, -, h₀⟩ := hbuilt.atRest
    rw [(h₀.loads.loadPrograms hload).eq]
    exact h₀.cycle
  obtain ⟨t, ht⟩ := hs.exists_clockN meas k (by omega)
  obtain ⟨t', ht'⟩ := hs'.exists_clockN meas k (by rw [← htwins.cycle]; omega)
  obtain ⟨htwins, -, -⟩ := Twins.run hs hs' htwins (hbuilt.isolated hload hget hi)
    (hbuilt.isolated hload' hget' hi) ht ht'
  obtain ⟨d, cl, r, hseat, hseat'⟩ := htwins.seat
  exact ⟨t, t', d, cl, r, ht, ht', Checked.get_eq_ok.mpr hseat.core,
    Checked.get_eq_ok.mpr hseat'.core, Checked.get_eq_ok.mpr hseat.client,
    Checked.get_eq_ok.mpr hseat'.client, Checked.get_eq_ok.mpr hseat.response,
    Checked.get_eq_ok.mpr hseat'.response⟩

/-- Core 0 takes part in the barrier and waits for the table; core 1 runs a barrier request in one
    cluster and an increment in the other. -/
theorem isolated_from_others_feedback :
    ∃ s₀ s s' c, Built .narrow 2 .echo none s₀ ∧
      s₀.loadPrograms 0 [[Narrow.aluFproc], [Narrow.sync]] = pure s ∧
      s₀.loadPrograms 0 [[Narrow.aluFproc], [Narrow.incAddReg]] = pure s' ∧
      s.core 0 = .ok c ∧ s'.core 0 = .ok c ∧ s.programs ≠ s'.programs ∧
      s₀.barrier.isParticipant 0 = .ok true ∧ (∀ w ∈ c.memory.words, ¬ c.layout.Syncs w) ∧
      ∀ meas : Nat → Meas, ∀ k < 2 ^ 64, ∃ t t' d cl r,
        clockN meas k s = .ok t ∧ clockN meas k s' = .ok t' ∧ t.core 0 = .ok d ∧ t'.core 0 = .ok d ∧
        t.lut.client 0 = .ok cl ∧ t'.lut.client 0 = .ok cl ∧ t.lut.response 0 = .ok r ∧
        t'.lut.response 0 = .ok r := by
  have hstart : ∃ s₀ s s' c, Cluster.new .narrow 2 .echo = pure s₀ ∧
      s₀.loadPrograms 0 [[Narrow.aluFproc], [Narrow.sync]] = pure s ∧
      s₀.loadPrograms 0 [[Narrow.aluFproc], [Narrow.incAddReg]] = pure s' ∧
      s.core 0 = .ok c ∧ s'.core 0 = .ok c ∧ s.programs ≠ s'.programs ∧
      s₀.barrier.isParticipant 0 = .ok true ∧
      c.memory.words.toList.map c.layout.decode =
        .ok (.aluFproc .add (.imm 5) 3 7) :: List.replicate 7 (.ok (.unknown 0)) :=
    ⟨_, _, _, _, rfl, rfl, rfl, rfl, rfl, by decide, rfl, rfl⟩
  obtain ⟨s₀, s, s', c, hnew, hload, hload', hc, hc', hne, hpart, hdecode⟩ := hstart
  have hbuilt : Built _ 2 _ none s₀ := ⟨s₀, hnew, rfl⟩
  have hquiet : ∀ w ∈ c.memory.words, ¬ c.layout.Syncs w := by
    rintro w hw ⟨id, hid⟩
    have hmem := List.mem_map_of_mem (f := c.layout.decode) (Array.mem_toList_iff.mpr hw)
    rw [hdecode, hid] at hmem
    simp at hmem
  exact ⟨s₀, s, s', c, hbuilt, hload, hload', hc, hc', hne, hpart, hquiet, fun meas k hk =>
    isolated_from_others hbuilt hload hload' hc hc' rfl (.inr hquiet) meas hk⟩

end Cluster

end Sequencer

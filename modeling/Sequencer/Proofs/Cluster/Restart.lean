import Mathlib
import Sequencer.Proofs.Cluster.Sound
import Sequencer.Proofs.Core.Restart

/-! A reset cluster is a fresh cluster.

    `Reaches s₀ s` says that `s` comes from `s₀` by edges, settling, resets and edits of single
    cores. None of these changes what the parts of a cluster are reset to (`Furnished`). A fresh
    cluster is at rest: the distributor and the barrier are at their reset values, and settling on
    silent lines changes nothing. So a reset gives the fresh cluster with the contents of the
    program memories in it (`Furnished.reset_eq`), whatever was done before. -/

namespace Sequencer

/-! ### What the parts are reset to -/

namespace Client

theorem reset_latch (cl : Client) (q : Request) (answered : Bool) :
    (cl.latch q answered).reset = cl.reset := by
  unfold latch
  split <;> split <;> rfl

end Client

namespace Round

theorem reset_latch (r : Round) (m : Meas) : (r.latch m).reset = r.reset := by
  unfold latch
  split
  · simp only
    split <;> rfl
  · rfl

end Round

namespace Distributor

variable {d d' : Distributor}

theorem reset_latch (d : Distributor) (qs : List Request) : (d.latch qs).reset = d.reset := by
  rw [reset, latch, reset, Round.reset_latch, map_latchClients Client.reset_latch]

theorem reset_propagate {m : Meas} (h : d.propagate m = .ok d') : d'.reset = d.reset := by
  obtain ⟨rs, hrs, h⟩ := Checked.bind_eq_ok.mp h
  obtain rfl := Except.ok.inj h
  rw [reset, reset, List.map_const', List.map_const', length_respondAll hrs]

theorem reset_reset (d : Distributor) : d.reset.reset = d.reset := by
  rw [reset, reset, List.map_map, List.map_map]
  rfl

/-- Clients without a request leave quiet response lines as they are. -/
theorem respondAll_quiet {m : Meas} {entry : Option UInt32} :
    ∀ {cs : List Client} {rs : List Response}, (∀ cl ∈ cs, cl.state = .idle) → (∀ r ∈ rs, r = {}) →
    respondAll m entry cs rs = .ok rs
  | [], _, _, _ => rfl
  | _ :: _, [], _, _ => rfl
  | cl :: cs, r :: rs, hcs, hrs => by
    rw [List.forall_mem_cons] at hcs hrs
    rw [respondAll, Client.respond_idle hcs.1, Checked.ok_bind, respondAll_quiet hcs.2 hrs.2, hrs.1]
    rfl

theorem new_reset {table : LookupTable} {n : Nat} (h : Distributor.new table n = pure d) :
    d.reset = d := by
  obtain ⟨-, rfl⟩ := new_eq_pure h
  rw [reset, List.map_map, List.map_const', List.length_replicate]
  rfl

theorem clients_of_reset (h : d.reset = d) : ∀ cl ∈ d.clients, cl.state = .idle := by
  intro cl hcl
  rw [← h] at hcl
  obtain ⟨cl₀, -, rfl⟩ := List.mem_map.mp hcl
  rfl

theorem responses_of_reset (h : d.reset = d) : ∀ r ∈ d.responses, r = {} := by
  intro r hr
  rw [← h] at hr
  obtain ⟨-, -, rfl⟩ := List.mem_map.mp hr
  rfl

end Distributor

namespace Cluster

variable {s s₀ s₁ s' : Cluster} {config : Config} {n : Nat} {table : LookupTable}
  {mask : Option UInt32} {fresh : Core}

/-! ### Fresh clusters -/

/-- A fresh cluster, with a barrier of all cores or of the given ones. -/
def Built (config : Config) (n : Nat) (table : LookupTable) (mask : Option UInt32) (s : Cluster) :
    Prop :=
  ∃ s₀, Cluster.new config n table = pure s₀ ∧ s = mask.elim s₀ s₀.withBarrier

/-- Fresh cores with a distributor and a barrier at their reset values. -/
structure AtRest (fresh : Core) (s : Cluster) : Prop where
  cores : ∀ c ∈ s.cores, c = fresh
  responses : s.lut.responses.length = s.cores.length
  lut : s.lut.reset = s.lut
  barrier : s.barrier.reset = s.barrier
  cycle : s.cycle = 0

theorem Built.atRest (h : Built config n table mask s) :
    ∃ fresh, Core.new config = pure fresh ∧ s.AtRest fresh := by
  obtain ⟨s₀, hnew, rfl⟩ := h
  obtain ⟨-, core, lut, participants, hcore, hlut, rfl⟩ := new_eq_pure hnew
  refine ⟨core, hcore, ?_⟩
  have hresponses : lut.responses.length = (List.replicate n core).length := by
    obtain ⟨-, rfl⟩ := Distributor.new_eq_pure hlut
    simp
  have hreset := Distributor.new_reset hlut
  cases mask with
  | none => exact ⟨fun c hc => List.eq_of_mem_replicate hc, hresponses, hreset, rfl, rfl⟩
  | some mask => exact ⟨fun c hc => List.eq_of_mem_replicate hc, hresponses, hreset, rfl, rfl⟩

/-- Cores in their first cycle stay as they are when their peers are quiet. -/
theorem propagateCores_quiet {lut : Distributor} {barrier : Barrier}
    (hlut : ∀ r ∈ lut.responses, r = {}) (hbarrier : barrier.fire = false) :
    ∀ (index : Nat) (cs : List Core),
    index + cs.length ≤ lut.responses.length → (∀ c ∈ cs, c.Settled ∧ c.AtStart) →
    propagateCores lut barrier index cs = .ok cs
  | _, [], _, _ => rfl
  | index, c :: cs, hle, hcs => by
    rw [List.forall_mem_cons] at hcs
    rw [List.length_cons] at hle
    obtain ⟨⟨hsettled, hstart⟩, hrest⟩ := hcs
    have hresponse : lut.response index = .ok {} := by
      have hlt : index < lut.responses.length := by omega
      rw [Distributor.response, Checked.get_eq_ok, List.getElem?_eq_getElem hlt,
        hlut _ (List.getElem_mem hlt)]
    have hcore : ((c.setResponse {}).setSyncReady false).propagate = .ok c :=
      (congrArg Core.propagate hstart.drive_eq).trans hsettled
    rw [propagateCores, hresponse, Checked.ok_bind, Barrier.ready_of_quiet hbarrier,
      Checked.ok_bind, hcore, Checked.ok_bind,
      propagateCores_quiet hlut hbarrier (index + 1) cs (by omega) hrest]
    rfl

/-- On silent measurement lines nothing happens in the first cycle. -/
theorem propagate_quiet (hlut : s.lut.reset = s.lut) (hbarrier : s.barrier.fire = false)
    (hseats : s.cores.length ≤ s.lut.responses.length)
    (hcores : ∀ c ∈ s.cores, c.Settled ∧ c.AtStart) : s.propagate {} = .ok s := by
  have hmeas : s.lut.meas = {} := congrArg Distributor.meas hlut.symm
  have hself : { s.lut with meas := {}, responses := s.lut.responses } = s.lut := by rw [← hmeas]
  have hquiet := Distributor.responses_of_reset hlut
  refine propagate_eq_ok.mpr ⟨s.lut.responses, s.cores,
    Distributor.respondAll_quiet (Distributor.clients_of_reset hlut) hquiet, ?_, ?_⟩
  · rw [hself]
    exact propagateCores_quiet hquiet hbarrier 0 s.cores (by rwa [Nat.zero_add]) hcores
  · rw [hself]

/-! ### What can be done to a cluster -/

/-- From `s₀` to `s` by edges, settling, resets and edits of single cores. A clock is an edge and
    the settling after it. -/
inductive Reaches (s₀ : Cluster) : Cluster → Prop
  | refl : Reaches s₀ s₀
  | edit {s : Cluster} {i : Nat} {c c' : Core} :
    Reaches s₀ s → s.core i = .ok c → c.Edits c' → Reaches s₀ (s.setCore i c')
  | latch {s s' : Cluster} : Reaches s₀ s → s.latch = .ok s' → Reaches s₀ s'
  | propagate {s s' : Cluster} (m : Meas) :
    Reaches s₀ s → s.propagate m = .ok s' → Reaches s₀ s'
  | reset {s s' : Cluster} : Reaches s₀ s → s.reset = .ok s' → Reaches s₀ s'

/-- The parts of `s` are reset to those of `s₀`, and its cores are of one configuration. -/
structure Furnished (config : Config) (s₀ s : Cluster) : Prop where
  cores : ∀ c ∈ s.cores, Core.Reachable config c
  length : s.cores.length = s₀.cores.length
  lut : s.lut.reset = s₀.lut
  barrier : s.barrier.reset = s₀.barrier

theorem AtRest.furnished (h : s.AtRest fresh) (hnew : Core.new config = pure fresh) :
    Furnished config s s :=
  ⟨fun c hc => h.cores c hc ▸ .new hnew, rfl, h.lut, h.barrier⟩

theorem Furnished.edit (h : Furnished config s₀ s) {i : Nat} {c c' : Core} (hc : s.core i = .ok c)
    (he : c.Edits c') : Furnished config s₀ (s.setCore i c') := by
  refine ⟨fun d hd => ?_, List.length_set.trans h.length, h.lut, h.barrier⟩
  rcases List.mem_or_eq_of_mem_set hd with hd | rfl
  · exact h.cores d hd
  · exact (h.cores c (List.mem_of_getElem? (Checked.get_eq_ok.mp hc))).edit he

theorem Furnished.latch (h : Furnished config s₀ s) (hl : s.latch = .ok s') :
    Furnished config s₀ s' := by
  obtain ⟨barrier, cs, hbarrier, hcs, -, rfl⟩ := latch_eq_ok.mp hl
  refine ⟨fun c' hc' => ?_, (Checked.mapM_eq_ok hcs).1.trans h.length, ?_, ?_⟩
  · obtain ⟨c, hc, hedge⟩ := Checked.mem_mapM hcs hc'
    exact (h.cores c hc).latch hedge
  · rw [Distributor.reset_latch, h.lut]
  · rw [Barrier.reset_latch hbarrier, h.barrier]

theorem Furnished.propagate {m : Meas} (h : Furnished config s₀ s) (hp : s.propagate m = .ok s') :
    Furnished config s₀ s' := by
  -- the distributor's own settling is kept apart for its reset
  obtain ⟨lut, hlut, hp⟩ := Checked.bind_eq_ok.mp hp
  obtain ⟨cs, hcs, hp⟩ := Checked.bind_eq_ok.mp hp
  obtain rfl := Except.ok.inj hp
  refine ⟨fun c' hc' => ?_, (getElem?_propagateCores hcs).1.trans h.length, ?_, h.barrier⟩
  · obtain ⟨c, hc, i, hsettle⟩ := mem_propagateCores hcs hc'
    exact (((h.cores c hc).setResponse _).setSyncReady _).propagate hsettle
  · rw [Distributor.reset_propagate hlut, h.lut]

theorem Furnished.reset (h : Furnished config s₀ s) (hr : s.reset = .ok s') :
    Furnished config s₀ s' := by
  obtain ⟨cs, hcs, hp⟩ := reset_eq_ok.mp hr
  have hlength := (Checked.mapM_eq_ok hcs).1.trans h.length
  refine Furnished.propagate ⟨fun c' hc' => ?_, hlength, ?_, ?_⟩ hp
  · obtain ⟨c, hc, hreset⟩ := Checked.mem_mapM hcs hc'
    exact (h.cores c hc).reset hreset
  · rw [Distributor.reset_reset, h.lut]
  · exact h.barrier

theorem Reaches.furnished (h : Reaches s₀ s) (hnew : Core.new config = pure fresh)
    (h₀ : s₀.AtRest fresh) : Furnished config s₀ s := by
  induction h with
  | refl => exact h₀.furnished hnew
  | edit _ hc he ih => exact ih.edit hc he
  | latch _ hl ih => exact ih.latch hl
  | propagate m _ hp ih => exact ih.propagate hp
  | reset _ hr ih => exact ih.reset hr

/-! ### The reset -/

/-- The contents of the program memories. -/
def programs (s : Cluster) : List (List Word) := s.cores.map fun c => c.memory.words.toList

/-- The cluster with copies of `fresh` for its cores, one for each memory contents. -/
def refilled (s : Cluster) (fresh : Core) (programs : List (List Word)) : Cluster :=
  { s with cores := programs.map fun program => fresh.holding program.toArray }

/-- A reset gives the fresh cluster, with the contents of the program memories kept. -/
theorem Furnished.reset_eq (h : Furnished config s₀ s) (hnew : Core.new config = pure fresh)
    (h₀ : s₀.AtRest fresh) : s.reset = .ok (s₀.refilled fresh s.programs) := by
  have hcores : s.cores.mapM Core.reset = .ok (s₀.refilled fresh s.programs).cores := by
    rw [Checked.mapM_of_ok fun c hc => (h.cores c hc).reset_eq hnew, refilled, programs,
      List.map_map]
    rfl
  have hstart : ∀ c ∈ (s₀.refilled fresh s.programs).cores, c.Settled ∧ c.AtStart := by
    intro c' hc'
    obtain ⟨c, hc, hreset⟩ := Checked.mem_mapM hcores hc'
    obtain ⟨hsound, hstart⟩ := (h.cores c hc).shaped.formed.reset hreset
    exact ⟨hsound.settled, hstart⟩
  have hseats : (s₀.refilled fresh s.programs).cores.length ≤ s₀.lut.responses.length := by
    rw [h₀.responses, ← h.length]
    simp [refilled, programs]
  have hfire : s₀.barrier.fire = false := congrArg Barrier.fire h₀.barrier.symm
  refine reset_eq_ok.mpr ⟨_, hcores, ?_⟩
  rw [h.lut, h.barrier, ← h₀.cycle]
  exact propagate_quiet (s := s₀.refilled fresh s.programs) h₀.lut hfire hseats hstart

/-! ### Loading programs -/

/-- Load one program into each core from number `index` on. -/
def loadPrograms (s : Cluster) : Nat → List (List Word) → Attempt ProgramTooLong Cluster
  | _, [] => pure s
  | index, program :: programs => do
    let core ← s.core index
    let core ← Attempt.accepted (core.loadProgram program)
    (s.setCore index core).loadPrograms (index + 1) programs

theorem loadPrograms_cons_eq_pure {index : Nat} {program : List Word}
    {programs : List (List Word)} :
    s.loadPrograms index (program :: programs) = pure s' ↔ ∃ c c', s.core index = .ok c ∧
      c.loadProgram program = .ok (c', .ok ()) ∧
      (s.setCore index c').loadPrograms (index + 1) programs = pure s' := by
  simp only [loadPrograms, Attempt.bind_eq_pure, Attempt.liftM_eq_pure, Attempt.accepted_eq_pure]
  constructor
  · rintro ⟨c, hc, c', hc', h⟩
    exact ⟨c, c', hc, hc', h⟩
  · rintro ⟨c, c', hc, hc', h⟩
    exact ⟨c, hc, c', hc', h⟩

/-- Programs go into fresh cores one after the other, after cores `cs` that have theirs. -/
theorem loadPrograms_replicate : ∀ (programs : List (List Word)) (cs : List Core),
    (∀ program ∈ programs,
      fresh.loadProgram program = .ok (fresh.holding program.toArray, .ok ())) →
    loadPrograms { s with cores := cs ++ List.replicate programs.length fresh } cs.length programs =
      pure { s with cores := cs ++ (s.refilled fresh programs).cores }
  | [], _, _ => rfl
  | program :: programs, cs, h => by
    rw [List.forall_mem_cons] at h
    refine loadPrograms_cons_eq_pure.mpr ⟨fresh, _, ?_, h.1, ?_⟩
    · refine Checked.get_eq_ok.mpr ?_
      simp
    · have hrest := loadPrograms_replicate programs (cs ++ [fresh.holding program.toArray]) h.2
      simp only [setCore, List.length_cons, List.replicate_succ, List.length_append,
        List.length_nil, List.append_assoc, List.singleton_append, Nat.zero_add] at hrest ⊢
      rw [List.set_append_right _ _ (Nat.le_refl _), Nat.sub_self, List.set_cons_zero]
      exact hrest

/-- Loading the contents of all program memories into the fresh cluster restores them. -/
theorem Furnished.loadPrograms_programs (h : Furnished config s₀ s)
    (hnew : Core.new config = pure fresh) (h₀ : s₀.AtRest fresh) :
    s₀.loadPrograms 0 s.programs = pure (s₀.refilled fresh s.programs) := by
  have hlength : s.programs.length = s₀.cores.length := List.length_map _ |>.trans h.length
  have hcores : s₀.cores = List.replicate s.programs.length fresh :=
    List.eq_replicate_iff.mpr ⟨hlength.symm, h₀.cores⟩
  have hload : ∀ program ∈ s.programs,
      fresh.loadProgram program = .ok (fresh.holding program.toArray, .ok ()) := by
    intro program hp
    obtain ⟨c, hc, rfl⟩ := List.mem_map.mp hp
    exact (h.cores c hc).loadProgram_words hnew
  have hall := loadPrograms_replicate (s := s₀) s.programs [] hload
  rw [List.nil_append, List.nil_append, ← hcores] at hall
  exact hall

/-- The cluster differs from `s₀` in the contents of program memories only. -/
structure Loads (fresh : Core) (s₀ s : Cluster) : Prop where
  eq : s = { s₀ with cores := s.cores }
  cores : ∀ c ∈ s.cores, c = fresh.holding c.memory.words

theorem AtRest.loads (h : s.AtRest fresh) : Loads fresh s s :=
  ⟨rfl, fun c hc => by rw [h.cores c hc]; rfl⟩

theorem Loads.loadPrograms : ∀ {programs : List (List Word)} {index : Nat} {s s' : Cluster},
    Loads fresh s₀ s → s.loadPrograms index programs = pure s' → Loads fresh s₀ s'
  | [], _, s, s', h, hl => by
    obtain rfl : s = s' := Attempt.pure_inj.mp hl
    exact h
  | program :: programs, index, s, s', h, hl => by
    obtain ⟨c, c', hc, hc', hl⟩ := loadPrograms_cons_eq_pure.mp hl
    obtain ⟨words, rfl, -⟩ := Core.exists_holding_of_load hc'
    refine Loads.loadPrograms ⟨?_, fun d hd => ?_⟩ hl
    · rw [setCore, h.eq]
    · rcases List.mem_or_eq_of_mem_set hd with hd | rfl
      · exact h.cores d hd
      · rw [h.cores c (List.mem_of_getElem? (Checked.get_eq_ok.mp hc))]
        rfl

theorem Loads.eq_refilled (h : Loads fresh s₀ s) : s = s₀.refilled fresh s.programs := by
  have hcores : (s₀.refilled fresh s.programs).cores = s.cores := by
    rw [refilled, programs, List.map_map]
    exact (List.map_congr_left fun c hc => (h.cores c hc).symm).trans (List.map_id' _)
  exact h.eq.trans (congrArg (fun cores => { s₀ with cores }) hcores.symm)

theorem Reaches.loadPrograms : ∀ {programs : List (List Word)} {index : Nat} {s s' : Cluster},
    Reaches s₀ s → s.loadPrograms index programs = pure s' → Reaches s₀ s'
  | [], _, _, _, h, hl => Attempt.pure_inj.mp hl ▸ h
  | _ :: _, _, _, _, h, hl => by
    obtain ⟨c, c', hc, hc', hl⟩ := loadPrograms_cons_eq_pure.mp hl
    exact (h.edit hc (.load hc')).loadPrograms hl

/-! ### Runs of a loaded cluster -/

theorem Reaches.run {meas : Nat → Meas} (h : Reaches s₀ s) : ∀ {n : Nat} {s' : Cluster},
    clockN meas n s = .ok s' → Reaches s₀ s'
  | 0, _, hrun => Except.ok.inj hrun ▸ h
  | n + 1, _, hrun => by
    obtain ⟨s₁, h₁, hclock⟩ := clockN_succ_eq_ok.mp hrun
    obtain ⟨edge, hedge, hp⟩ := clock_eq_ok.mp hclock
    exact ((h.run h₁).latch hedge).propagate _ hp

theorem programs_of_tick {m : Meas} (h : Tick m s s') : s'.programs = s.programs := by
  refine List.ext_getElem? fun i => ?_
  rw [programs, programs, List.getElem?_map, List.getElem?_map]
  cases hc : s.cores[i]? with
  | none =>
    have hnone : s'.cores[i]? = none := by
      rw [List.getElem?_eq_none_iff, h.length]
      exact List.getElem?_eq_none_iff.mp hc
    rw [hnone]
  | some c =>
    obtain ⟨r, ready, c', -, -, hc', htick⟩ := h.core hc
    rw [hc', Option.map_some, Option.map_some, ProgramMemory.words_of_latch htick.memory]

/-- A reset after any number of cycles leads back to the cluster that was loaded. -/
theorem Built.reset_of_run {meas : Nat → Meas} {programs : List (List Word)} {t : Nat}
    (h : Built config n table mask s₀) (hload : s₀.loadPrograms 0 programs = pure s₁)
    (hrun : clockN meas t s₁ = .ok s) : s.reset = .ok s₁ := by
  obtain ⟨fresh, hnew, h₀⟩ := h.atRest
  have hreach : Reaches s₀ s := (Reaches.refl.loadPrograms hload).run hrun
  have hkept : s.programs = s₁.programs := eq_of_clockN Cluster.programs programs_of_tick hrun
  rw [(hreach.furnished hnew h₀).reset_eq hnew h₀, hkept,
    ← (h₀.loads.loadPrograms hload).eq_refilled]

/-- Resetting is building anew. Whatever was done to a core, its reset is the fresh core with the
    contents of its program memory loaded, and whatever was done to a cluster, its reset is the
    fresh cluster with the contents of all program memories loaded. So every run after a reset
    repeats what a first run on the same inputs does, cycle by cycle. -/
theorem restart_of_reset :
    (∀ config c, Core.Reachable config c →
      ∃ fresh c', Core.new config = pure fresh ∧ c.reset = .ok c' ∧
        fresh.loadProgram c.memory.words.toList = .ok (c', .ok ())) ∧
    (∀ config program c₀ inputs t c, Core.Loaded config program c₀ → c₀.run inputs t = .ok c →
      ∀ inputs' k, (c.reset >>= Core.run inputs' k) = c₀.run inputs' k) ∧
    (∀ config n table mask s₀ s, Built config n table mask s₀ → Reaches s₀ s →
      ∃ s', s.reset = .ok s' ∧ s₀.loadPrograms 0 s.programs = pure s') ∧
    ∀ config n table mask s₀ programs s₁ meas t s, Built config n table mask s₀ →
      s₀.loadPrograms 0 programs = pure s₁ → clockN meas t s₁ = .ok s →
      ∀ meas' k, (s.reset >>= states meas' k) = states meas' k s₁ := by
  refine ⟨fun config c h => ?_, fun config program c₀ inputs t c h hrun inputs' k => ?_,
    fun config n table mask s₀ s h hreach => ?_,
    fun config n table mask s₀ programs s₁ meas t s h hload hrun meas' k => ?_⟩
  · obtain ⟨fresh, hnew⟩ := h.exists_new
    exact ⟨fresh, _, hnew, h.reset_eq hnew, h.loadProgram_words hnew⟩
  · rw [h.reset_of_run hrun, Checked.ok_bind]
  · obtain ⟨fresh, hnew, h₀⟩ := h.atRest
    have hfurnished := hreach.furnished hnew h₀
    exact ⟨_, hfurnished.reset_eq hnew h₀, hfurnished.loadPrograms_programs hnew h₀⟩
  · rw [h.reset_of_run hload hrun, Checked.ok_bind]

/-- A core that is reset after a bare edge on a changed line, and clusters in the middle of a
    measurement round with one core that has written a register. -/
theorem restart_of_reset_midway :
    (∃ c fresh c', Core.Reachable .narrow c ∧ c.cycle = 9 ∧ c.retired = 2 ∧
      Core.new .narrow = pure fresh ∧ c.reset = .ok c' ∧
      fresh.loadProgram c.memory.words.toList = .ok (c', .ok ())) ∧
    (∃ c₀ c, Core.Loaded .narrow [Narrow.setMinusSix, Narrow.incAddReg] c₀ ∧
      c₀.run (fun _ => {}) 8 = .ok c ∧ c.qclk.value = 2 ∧
      ∀ inputs k, (c.reset >>= Core.run inputs k) = c₀.run inputs k) ∧
    (∃ s₀ s s', Built .narrow 2 .echo (some 1) s₀ ∧ Reaches s₀ s ∧ s.cycle = 6 ∧
      s.lut.round.valid = 1 ∧ s.reset = .ok s' ∧ s₀.loadPrograms 0 s.programs = pure s') ∧
    ∃ s₀ s₁ s, Built .narrow 2 .echo none s₀ ∧
      s₀.loadPrograms 0 [[Narrow.setMinusSix]] = pure s₁ ∧
      clockN (fun _ => ⟨1, 1⟩) 5 s₁ = .ok s ∧ s.lut.round.valid = 1 ∧
      ∀ meas k, (s.reset >>= states meas k) = states meas k s₁ := by
  obtain ⟨hcore, hrun, hcluster, hruns⟩ := restart_of_reset
  refine ⟨?_, ?_, ?_, ?_⟩
  · have hdirty : ∃ fresh c₀ c₁ c, Core.new .narrow = pure fresh ∧
        fresh.loadProgram [Narrow.setMinusSix, Narrow.incAddReg] = .ok (c₀, .ok ()) ∧
        c₀.run (fun _ => {}) 8 = .ok c₁ ∧ (c₁.setResponse ⟨true, 1⟩).latch = .ok c ∧
        c.cycle = 9 ∧ c.retired = 2 :=
      ⟨_, _, _, _, rfl, rfl, rfl, rfl, rfl, rfl⟩
    obtain ⟨fresh, c₀, c₁, c, hnew, hload, hrun, hlatch, hcycle, hretired⟩ := hdirty
    have hreach := ((((Core.Reachable.new hnew).load hload).run hrun).setResponse _).latch hlatch
    obtain ⟨fresh', c', hall⟩ := hcore _ c hreach
    exact ⟨c, fresh', c', hreach, hcycle, hretired, hall⟩
  · have hloaded : ∃ fresh c₀ c, Core.new .narrow = pure fresh ∧
        fresh.loadProgram [Narrow.setMinusSix, Narrow.incAddReg] = .ok (c₀, .ok ()) ∧
        c₀.run (fun _ => {}) 8 = .ok c ∧ c.qclk.value = 2 :=
      ⟨_, _, _, rfl, rfl, rfl, rfl⟩
    obtain ⟨fresh, c₀, c, hnew, hload, h8, hqclk⟩ := hloaded
    have hloaded : Core.Loaded _ _ c₀ := ⟨fresh, hnew, hload⟩
    exact ⟨c₀, c, hloaded, h8, hqclk, hrun _ _ c₀ _ 8 c hloaded h8⟩
  · have hdirty : ∃ s₀ s₁ s₂ s, Cluster.new .narrow 2 .echo = pure s₀ ∧
        (s₀.withBarrier 1).loadPrograms 0 [[Narrow.setMinusSix]] = pure s₁ ∧
        clockN (fun _ => ⟨1, 1⟩) 5 s₁ = .ok s₂ ∧ s₂.latch = .ok s ∧ s.cycle = 6 ∧
        s.lut.round.valid = 1 :=
      ⟨_, _, _, _, rfl, rfl, rfl, rfl, rfl, rfl⟩
    obtain ⟨s₀, s₁, s₂, s, hnew, hload, h5, hlatch, hcycle, hvalid⟩ := hdirty
    have hbuilt : Built _ 2 _ (some 1) (s₀.withBarrier 1) := ⟨s₀, hnew, rfl⟩
    have hreach := ((Reaches.refl.loadPrograms hload).run h5).latch hlatch
    obtain ⟨s', hreset, hfresh⟩ := hcluster _ 2 _ (some 1) _ s hbuilt hreach
    exact ⟨_, s, s', hbuilt, hreach, hcycle, hvalid, hreset, hfresh⟩
  · have hloaded : ∃ s₀ s₁ s, Cluster.new .narrow 2 .echo = pure s₀ ∧
        s₀.loadPrograms 0 [[Narrow.setMinusSix]] = pure s₁ ∧
        clockN (fun _ => ⟨1, 1⟩) 5 s₁ = .ok s ∧ s.lut.round.valid = 1 :=
      ⟨_, _, _, rfl, rfl, rfl, rfl⟩
    obtain ⟨s₀, s₁, s, hnew, hload, h5, hvalid⟩ := hloaded
    have hbuilt : Built _ 2 _ none s₀ := ⟨s₀, hnew, rfl⟩
    exact ⟨s₀, s₁, s, hbuilt, hload, h5, hvalid, hruns _ 2 _ none s₀ _ s₁ _ 5 s hbuilt hload h5⟩

end Cluster

end Sequencer

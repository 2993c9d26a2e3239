import Sequencer.Proofs.Cluster.Sound

/-! Settling carries no state.

    What a core settles to is given by its registers and its two input lines; whatever was on its
    other lines is overwritten (`propagate_congr`). What it asks of its peers does not depend on
    what they answer (`requests_alike`), so there is no loop through the peers: settling a cluster
    again for other measurement lines is the same as settling it for these at once
    (`propagate_propagate`), and one pass over distributor, barrier and cores settles them all. -/

namespace Sequencer

/-- The control lines by which a core asks its peers do not depend on time or on their answers. -/
theorem Control.requests_of (state : State) (op : Operation) (config : Config)
    (a b : TimingInputs) :
    (of state op a config).fprocEn = (of state op b config).fprocEn ∧
      (of state op a config).syncEn = (of state op b config).syncEn ∧
      (of state op a config).done = (of state op b config).done := by
  obtain ⟨fetchA, matchA, readyA, syncA⟩ := a
  obtain ⟨fetchB, matchB, readyB, syncB⟩ := b
  cases state with
  | fetchWait =>
    simp only [of]
    split <;> split <;> exact ⟨rfl, rfl, rfl⟩
  | decode =>
    cases op with
    | pulseWrite trigger => cases trigger <;> exact ⟨rfl, rfl, rfl⟩
    | _ => exact ⟨rfl, rfl, rfl⟩
  | aluFprocWait | jumpFprocWait =>
    cases op with
    | aluFproc | jumpFproc => cases readyA <;> cases readyB <;> exact ⟨rfl, rfl, rfl⟩
    | _ => exact ⟨rfl, rfl, rfl⟩
  | aluExec | incQclkExec | jumpCondExec | syncWait => exact ⟨rfl, rfl, rfl⟩

namespace Core

/-- The cores agree on everything that an edge stores: configuration, registers and counters. -/
structure SameRegisters (c d : Core) : Prop where
  config : c.config = d.config
  layout : c.layout = d.layout
  state : c.state = d.state
  fetchCycle : c.fetchCycle = d.fetchCycle
  ir : c.ir = d.ir
  pc : c.pc = d.pc
  memory : c.memory = d.memory
  regs : c.regs = d.regs
  alu : c.alu = d.alu
  qclk : c.qclk = d.qclk
  pulse : c.pulse = d.pulse
  cycle : c.cycle = d.cycle
  retired : c.retired = d.retired
  doneCycle : c.doneCycle = d.doneCycle

/-- What a core asks of its peers: feedback, the barrier, and to be counted as done. -/
def requests (c : Core) : Request × Request × Bool :=
  (c.lines.fprocRequest, c.lines.syncRequest, c.lines.done)

variable {c d : Core}

theorem settle_congr (h : c.SameRegisters d)
    (hresponse : c.lines.fprocResponse = d.lines.fprocResponse)
    (hready : c.lines.syncReady = d.lines.syncReady) (op : Operation) (x y : UInt32) :
    c.settle op x y = d.settle op x y := by
  simp only [settle, h.config, h.layout, h.state, h.fetchCycle, h.ir, h.pc, h.memory, h.regs, h.alu,
    h.qclk, h.pulse, h.cycle, h.retired, h.doneCycle, hresponse, hready]

/-- Registers and input lines decide what a core settles to. -/
theorem propagate_congr (h : c.SameRegisters d)
    (hresponse : c.lines.fprocResponse = d.lines.fprocResponse)
    (hready : c.lines.syncReady = d.lines.syncReady) : c.propagate = d.propagate := by
  simp only [propagate, h.layout, h.ir, h.regs, settle_congr h hresponse hready]

/-- The requests that a core in a state settles to for a decoded operation. -/
def requestsIn (state : State) (config : Config) (op : Operation) : Request × Request × Bool :=
  let control := Control.of state op {} config
  (⟨control.fprocEn, op.requestId.getD 0⟩, ⟨control.syncEn, op.requestId.getD 0⟩, control.done)

theorem requests_settle (c : Core) (op : Operation) (x y : UInt32) :
    (c.settle op x y).requests = requestsIn c.state c.config op := by
  obtain ⟨hfproc, hsync, hdone⟩ :=
    Control.requests_of c.state op c.config (c.settle op x y).timing {}
  rw [requestsIn, ← hfproc, ← hsync, ← hdone]
  rfl

/-- Cores with the same registers decode the same operation and read the same data, so whatever
    relates what they settle to relates their results. -/
theorem alike_propagate {R : Core → Core → Prop} (h : c.SameRegisters d)
    (hsettle : ∀ op x y, d.layout.decode d.ir = .ok op → d.regs.read (op.readReg0.getD 0) = .ok x →
      d.regs.read (op.readReg1.getD 0) = .ok y → R (c.settle op x y) (d.settle op x y)) :
    Checked.Alike R c.propagate d.propagate := by
  unfold propagate
  rw [h.layout, h.ir, h.regs]
  refine (Checked.Alike.refl _).with_results.bind ?_
  rintro op _ ⟨rfl, hop, -⟩
  refine (Checked.Alike.refl _).with_results.bind ?_
  rintro x _ ⟨rfl, hx, -⟩
  refine (Checked.Alike.refl _).with_results.bind ?_
  rintro y _ ⟨rfl, hy, -⟩
  exact .ok (hsettle op x y hop hx hy)

/-- The requests of a core do not depend on its input lines. -/
theorem requests_alike (h : c.SameRegisters d) :
    Checked.Alike (fun c' d' => c'.requests = d'.requests) c.propagate d.propagate := by
  refine alike_propagate h fun op x y _ _ _ => ?_
  rw [requests_settle, requests_settle, h.state, h.config]

theorem settle_withDone (c : Core) (first : Option Nat) (op : Operation) (x y : UInt32) :
    { c with doneCycle := first }.settle op x y =
      { c.settle op x y with
        doneCycle := if (c.settle op x y).control.done && first.isNone then some c.cycle
          else first } := rfl

theorem sameRegisters_drive (c : Core) (i j : Inputs) : (c.drive i).SameRegisters (c.drive j) := by
  constructor <;> simp only [drive, setResponse, setSyncReady]

/-- The cycle of the first `done` is the only register that settling writes. -/
theorem sameRegisters_settle_drive (c : Core) (i j : Inputs) (op : Operation) (x y : UInt32) :
    (((c.drive i).settle op x y).drive j).SameRegisters
      { c.drive j with doneCycle := ((c.drive i).settle op x y).doneCycle } := by
  constructor <;> simp only [drive, setResponse, setSyncReady, settle]

/-- Settling again for other inputs leaves nothing of the first ones, since no input decides about
    `done`. -/
theorem settle_drive_settle (c : Core) (i j : Inputs) (op : Operation) (x y : UInt32) :
    (((c.drive i).settle op x y).drive j).settle op x y = (c.drive j).settle op x y := by
  have hdone : ((c.drive i).settle op x y).control.done =
      ((c.drive j).settle op x y).control.done :=
    congrArg (·.2.2) ((requests_settle (c.drive i) op x y).trans
      (requests_settle (c.drive j) op x y).symm)
  have hfirst : ((c.drive i).settle op x y).doneCycle =
      if ((c.drive j).settle op x y).control.done && c.doneCycle.isNone then some c.cycle
      else c.doneCycle := by
    rw [← hdone]
    rfl
  rw [settle_congr (sameRegisters_settle_drive c i j op x y) rfl rfl, settle_withDone, hfirst]
  exact congrArg (fun first => { (c.drive j).settle op x y with doneCycle := first })
    (firstDone_idem ((c.drive j).settle op x y).control.done c.cycle c.doneCycle)

theorem alike_drive_propagate (c : Core) (i j : Inputs) :
    Checked.Alike (fun c₁ c₂ => (c₁.drive j).propagate = .ok c₂) (c.drive i).propagate
      (c.drive j).propagate := by
  refine alike_propagate (sameRegisters_drive c i j) fun op x y hop hx hy => ?_
  have hsame := sameRegisters_settle_drive c i j op x y
  rw [propagate_eq_ok]
  refine ⟨op, x, y, ?_, ?_, ?_, (settle_drive_settle c i j op x y).symm⟩
  · rw [hsame.layout, hsame.ir]
    exact hop
  · rw [hsame.regs]
    exact hx
  · rw [hsame.regs]
    exact hy

end Core

/-! ### The distributor -/

/-- Whether a client can answer is a matter of its number alone. -/
theorem Client.alike_respond (cl : Client) (m m' : Meas) (entry : Option UInt32) :
    Checked.Alike (fun _ _ => True) (cl.respond m entry) (cl.respond m' entry) := by
  by_cases h : cl.core < 32
  · obtain ⟨r, hr⟩ := exists_respond h m entry
    obtain ⟨r', hr'⟩ := exists_respond h m' entry
    rw [hr, hr']
    exact .ok trivial
  · have hbit (w : UInt32) : cl.bit w = .error .wideShift := by
      rw [bit, Checked.shiftRight, if_neg h]
      rfl
    unfold respond
    split
    · rw [hbit, hbit m'.valid]
      exact .fault _
    · rw [hbit]
      exact .fault _
    · exact .ok trivial

namespace Distributor

theorem alike_respondAll (m m' : Meas) (entry : Option UInt32) :
    ∀ (cs : List Client) (rs : List Response),
    Checked.Alike (fun rs₁ rs₂ => respondAll m' entry cs rs₁ = .ok rs₂) (respondAll m entry cs rs)
      (respondAll m' entry cs rs)
  | [], _ => .ok rfl
  | _ :: _, [] => .ok rfl
  | cl :: cs, _ :: rs => by
    refine (cl.alike_respond m m' entry).with_results.bind ?_
    rintro r₁ r₂ ⟨-, -, hr₂⟩
    refine (alike_respondAll m m' entry cs rs).bind fun rest₁ rest₂ hrest => .ok ?_
    simp only [respondAll, hr₂, hrest, Checked.ok_bind, Checked.pure_eq_ok]

/-- The responses of a distributor carry no state. -/
theorem alike_propagate (lut : Distributor) (m m' : Meas) :
    Checked.Alike
      (fun lut₁ lut₂ => lut₁.propagate m' = .ok lut₂ ∧
        lut₁.responses.length = lut₂.responses.length)
      (lut.propagate m) (lut.propagate m') := by
  refine (alike_respondAll m m' lut.round.output lut.clients lut.responses).with_results.bind ?_
  rintro rs₁ rs₂ ⟨hrespond, h₁, h₂⟩
  refine .ok ⟨?_, (length_respondAll h₁).trans (length_respondAll h₂).symm⟩
  simp only [propagate, hrespond, Checked.ok_bind, Checked.pure_eq_ok]

theorem alike_response {lut lut' : Distributor}
    (h : lut.responses.length = lut'.responses.length) (i : Nat) :
    Checked.Alike (fun _ _ => True) (lut.response i) (lut'.response i) := by
  unfold response Checked.get
  by_cases hi : i < lut.responses.length
  · rw [List.getElem?_eq_getElem hi, List.getElem?_eq_getElem (h ▸ hi)]
    exact .ok trivial
  · rw [List.getElem?_eq_none (Nat.not_lt.mp hi), List.getElem?_eq_none (h ▸ Nat.not_lt.mp hi)]
    exact .fault _

end Distributor

/-! ### The cluster -/

namespace Cluster

theorem alike_propagateCores {lut lut' : Distributor} (barrier : Barrier)
    (h : lut.responses.length = lut'.responses.length) :
    ∀ (index : Nat) (cs : List Core),
    Checked.Alike (fun cs₁ cs₂ => propagateCores lut' barrier index cs₁ = .ok cs₂)
      (propagateCores lut barrier index cs) (propagateCores lut' barrier index cs)
  | _, [] => .ok rfl
  | index, c :: cs => by
    refine (Distributor.alike_response h index).with_results.bind ?_
    rintro r₁ r₂ ⟨-, -, hr₂⟩
    refine (Checked.Alike.refl (barrier.ready index)).with_results.bind ?_
    rintro ready _ ⟨rfl, hready, -⟩
    refine (c.alike_drive_propagate ⟨r₁, ready⟩ ⟨r₂, ready⟩).bind fun c₁ c₂ hc => ?_
    refine (alike_propagateCores barrier h (index + 1) cs).bind fun rest₁ rest₂ hrest => .ok ?_
    rw [propagateCores, hr₂, Checked.ok_bind, hready, Checked.ok_bind]
    refine Checked.bind_eq_ok.mpr ⟨c₂, hc, ?_⟩
    rw [hrest]
    rfl

theorem alike_propagate (s : Cluster) (m m' : Meas) :
    Checked.Alike (fun s₁ s₂ => s₁.propagate m' = .ok s₂) (s.propagate m) (s.propagate m') := by
  refine (s.lut.alike_propagate m m').bind ?_
  rintro lut₁ lut₂ ⟨hlut, hlength⟩
  refine (alike_propagateCores s.barrier hlength 0 s.cores).bind fun cs₁ cs₂ hcores => .ok ?_
  simp only [propagate, hlut, hcores, Checked.ok_bind, Checked.pure_eq_ok]

/-- Settling leaves nothing of the measurement lines that were settled for before. -/
theorem propagate_propagate (s : Cluster) (m m' : Meas) :
    (s.propagate m >>= fun t => t.propagate m') = s.propagate m' :=
  (s.alike_propagate m m').bind_eq

theorem propagate_idem {s t : Cluster} {m : Meas} (h : s.propagate m = .ok t) :
    t.propagate m = .ok t := by
  have htwice := s.propagate_propagate m m
  rwa [h] at htwice

/-- Nothing is left to settle, neither in the distributor nor in a core, and each core is driven
    with its own response and ready line. -/
structure Steady (m : Meas) (t : Cluster) : Prop where
  lut : t.lut.propagate m = .ok t.lut
  response : ∀ {i : Nat} {c : Core}, t.cores[i]? = some c →
    t.lut.response i = .ok c.lines.fprocResponse
  ready : ∀ {i : Nat} {c : Core}, t.cores[i]? = some c →
    t.barrier.ready i = .ok c.lines.syncReady
  core : ∀ {i : Nat} {c : Core}, t.cores[i]? = some c → c.Settled

/-- One pass over distributor and cores leaves nothing to settle. -/
theorem steady_of_propagate {s t : Cluster} {m : Meas} (h : s.propagate m = .ok t) :
    t.Steady m := by
  obtain ⟨rs, cs, hrs, hcs, ht⟩ := propagate_eq_ok.mp (propagate_idem h)
  have hlut : t.lut = { t.lut with meas := m, responses := rs } := congrArg Cluster.lut ht
  have hcores : t.cores = cs := congrArg Cluster.cores ht
  rw [← hlut, ← hcores] at hcs
  have hcore {i : Nat} {c : Core} (hc : t.cores[i]? = some c) :
      ∃ r ready, t.lut.responses[i]? = some r ∧ t.barrier.ready i = .ok ready ∧
        (c.drive ⟨r, ready⟩).propagate = .ok c := by
    obtain ⟨r, ready, c', hr, hready, hc', hp⟩ := (getElem?_propagateCores hcs).2 i c hc
    obtain rfl : c = c' := Option.some.inj (hc.symm.trans hc')
    rw [Nat.zero_add] at hr hready
    exact ⟨r, ready, hr, hready, hp⟩
  refine ⟨?_, fun hc => ?_, fun hc => ?_, fun hc => ?_⟩
  · rw [Distributor.propagate, hrs]
    exact congrArg Except.ok hlut.symm
  · obtain ⟨r, ready, hr, -, hp⟩ := hcore hc
    obtain ⟨op, x, y, -, -, -, heq⟩ := Core.propagate_eq_ok.mp hp
    rw [congrArg (·.lines.fprocResponse) heq]
    exact Checked.get_eq_ok.mpr hr
  · obtain ⟨r, ready, -, hready, hp⟩ := hcore hc
    obtain ⟨op, x, y, -, -, -, heq⟩ := Core.propagate_eq_ok.mp hp
    rw [congrArg (·.lines.syncReady) heq]
    exact hready
  · obtain ⟨r, ready, -, -, hp⟩ := hcore hc
    exact Core.settled_of_propagate hp

/-- Lines carry no state and there is no loop through them. What a core settles to is given by its
    registers and its two input lines, and its requests by its registers alone. Settling a cluster
    again, for other measurement lines, is settling it for those at once, faults included. One pass
    leaves nothing to settle, and it has a result as soon as every core is formed and has a response
    line, and every client has a bit in a word. -/
theorem settling_carries_no_state :
    (∀ c d : Core, c.SameRegisters d → c.lines.fprocResponse = d.lines.fprocResponse →
      c.lines.syncReady = d.lines.syncReady → c.propagate = d.propagate) ∧
    (∀ c d : Core, c.SameRegisters d →
      Checked.Alike (fun c' d' => c'.requests = d'.requests) c.propagate d.propagate) ∧
    (∀ (s : Cluster) (m₁ m₂ : Meas),
      (s.propagate m₁ >>= fun t => t.propagate m₂) = s.propagate m₂) ∧
    (∀ (s t : Cluster) (m : Meas), s.propagate m = .ok t → t.propagate m = .ok t ∧ t.Steady m) ∧
    ∀ (s : Cluster) (m : Meas), (∀ cl ∈ s.lut.clients, cl.core < 32) →
      s.cores.length ≤ s.lut.responses.length → (∀ c ∈ s.cores, c.Formed) →
      ∃ t, s.propagate m = .ok t := by
  refine ⟨fun c d h hresponse hready => ?_, fun c d h => ?_, propagate_propagate,
    fun s t m h => ⟨propagate_idem h, steady_of_propagate h⟩,
    fun s m hclients hresponses hcores => ?_⟩
  · exact Core.propagate_congr h hresponse hready
  · exact Core.requests_alike h
  · exact exists_propagate hclients hresponses hcores m

/-- Two fresh cores settle for one measurement and then for none. Whatever was on the lines of a
    fresh core is gone after it settles, and an answer changes nothing about its requests. -/
theorem settling_carries_no_state_pair :
    ∃ (s t : Cluster) (c d : Core), Cluster.new .narrow 2 ⟨2, 3, #[0, 0, 0, 0]⟩ = pure s ∧
      s.propagate ⟨1, 1⟩ = .ok t ∧ t.Steady ⟨1, 1⟩ ∧
      t.propagate {} = s.propagate {} ∧ s.core 0 = .ok c ∧ c.SameRegisters d ∧ c.lines ≠ d.lines ∧
      d.propagate = .ok c ∧
      Checked.Alike (fun c' d' => c'.requests = d'.requests) (c.drive {}).propagate
        (c.drive ⟨⟨true, 5⟩, true⟩).propagate := by
  have hnew : ∃ s c, Cluster.new .narrow 2 ⟨2, 3, #[0, 0, 0, 0]⟩ = pure s ∧
      s.core 0 = .ok c ∧ c.lines.done = false :=
    ⟨_, _, rfl, rfl, rfl⟩
  obtain ⟨s, c, hs, hc, hdone⟩ := hnew
  have hsound := (sound_of_new hs).1
  have hformed (e : Core) (he : e ∈ s.cores) : e.Formed := by
    obtain ⟨i, hi⟩ := List.mem_iff_getElem?.mp he
    exact (hsound.core hi).1.formed
  have hsettled : c.propagate = .ok c := (hsound.core (Checked.get_eq_ok.mp hc)).1.settled
  have hother : ∃ d : Core, c.SameRegisters d ∧ c.lines.fprocResponse = d.lines.fprocResponse ∧
      c.lines.syncReady = d.lines.syncReady ∧ d.lines.done = true :=
    ⟨{ c with
        operation := .sync 3, control := .goto .decode, lines := { c.lines with done := true } },
      ⟨rfl, rfl, rfl, rfl, rfl, rfl, rfl, rfl, rfl, rfl, rfl, rfl, rfl, rfl⟩, rfl, rfl, rfl⟩
  obtain ⟨d, hsame, hresponse, hready, hdone'⟩ := hother
  obtain ⟨hregisters, hrequests, htwice, hsteady, hreturns⟩ := settling_carries_no_state
  obtain ⟨t, ht⟩ := hreturns s ⟨1, 1⟩ hsound.clients_lt hsound.responses_le hformed
  refine ⟨s, t, c, d, hs, ht, (hsteady s t _ ht).2, ?_, hc, hsame, fun hlines => ?_,
    (hregisters c d hsame hresponse hready).symm.trans hsettled,
    hrequests _ _ (Core.sameRegisters_drive c _ _)⟩
  · have hagain := htwice s ⟨1, 1⟩ {}
    rwa [ht] at hagain
  · rw [hlines, hdone'] at hdone
    cases hdone

end Cluster

end Sequencer

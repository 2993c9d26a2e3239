import Mathlib
import Sequencer.Proofs.Cluster.Sound
import Sequencer.Proofs.Core.Interpreter

/-! Rounds for any schedule of measurements.

    `r.after lines t` is the round in cycle `t` when edge `k` latches `lines k`. A round that starts
    at edge `s` holds the union of what edges `s` to `t - 1` brought, as long as it waits
    (`after_of_waiting`). So it is completed by the first edge at which every required line has
    been valid, whatever the order of the lines, and its entry is a function of the lines that read
    one (`entry_of_completed_round`). -/

namespace Sequencer

/-- Properties that agree until the first holds have the same first cycle. -/
theorem isFirst_congr {p q : Nat → Prop} {start w : Nat}
    (h : ∀ t, start ≤ t → (∀ k, start ≤ k → k < t → ¬ p k) → (p t ↔ q t)) :
    IsFirst p start w ↔ IsFirst q start w := by
  constructor
  · rintro ⟨hle, hp, hfirst⟩
    refine ⟨hle, (h w hle hfirst).mp hp, fun t ht hlt hq => ?_⟩
    have hbefore (k : Nat) (hk : start ≤ k) (hkt : k < t) : ¬ p k := hfirst k hk (hkt.trans hlt)
    exact hfirst t ht hlt ((h t ht hbefore).mpr hq)
  · rintro ⟨hle, hq, hfirst⟩
    have hnot (t : Nat) : start ≤ t → t < w → ¬ p t := by
      induction t using Nat.strong_induction_on with
      | h t ih =>
        intro ht hlt hp
        have hbefore (k : Nat) (hk : start ≤ k) (hkt : k < t) : ¬ p k :=
          ih k hkt hk (hkt.trans hlt)
        exact hfirst t ht hlt ((h t ht hbefore).mp hp)
    exact ⟨hle, (h w hle hnot).mpr hq, hnot⟩

/-! ### The union of a stretch of edges -/

/-- A word is a submask of another if its bits are among those of the other. -/
theorem and_eq_left_iff (x y : UInt32) :
    x &&& y = x ↔ ∀ i, x.toNat.testBit i = true → y.toNat.testBit i = true := by
  rw [← UInt32.toNat_inj, UInt32.toNat_and]
  constructor
  · intro h i hx
    rw [← h, Nat.testBit_and, Bool.and_eq_true] at hx
    exact hx.2
  · intro h
    refine Nat.eq_of_testBit_eq fun i => ?_
    rw [Nat.testBit_and, Bool.and_eq_left_iff_imp]
    exact h i

/-- Bits that are set at some edge from `s` to `t - 1`. -/
def anyOver (f : Nat → UInt32) (s t : Nat) : UInt32 :=
  (List.Ico s t).foldl (fun w k => w ||| f k) 0

@[simp] theorem anyOver_self (f : Nat → UInt32) (s : Nat) : anyOver f s s = 0 := by
  rw [anyOver, List.Ico.self_empty]
  rfl

theorem anyOver_succ (f : Nat → UInt32) {s t : Nat} (h : s ≤ t) :
    anyOver f s (t + 1) = anyOver f s t ||| f t := by
  rw [anyOver, List.Ico.succ_top h, List.foldl_append]
  rfl

theorem testBit_anyOver (f : Nat → UInt32) {s t : Nat} (h : s ≤ t) (i : Nat) :
    (anyOver f s t).toNat.testBit i = true ↔ ∃ k, s ≤ k ∧ k < t ∧ (f k).toNat.testBit i = true := by
  induction t, h using Nat.le_induction with
  | base =>
    rw [anyOver_self]
    constructor
    · intro h
      simp at h
    · rintro ⟨k, hk, hlt, -⟩
      omega
  | succ t h ih =>
    rw [anyOver_succ f h, UInt32.toNat_or, Nat.testBit_or, Bool.or_eq_true, ih]
    constructor
    · rintro (⟨k, hk, hlt, hbit⟩ | hbit)
      · exact ⟨k, hk, by omega, hbit⟩
      · exact ⟨t, h, by omega, hbit⟩
    · rintro ⟨k, hk, hlt, hbit⟩
      rcases Nat.lt_succ_iff_lt_or_eq.mp hlt with hlt | rfl
      · exact .inl ⟨k, hk, hlt, hbit⟩
      · exact .inr hbit

namespace LookupTable

/-- Required lines that are valid. -/
def arrived (table : LookupTable) (m : Meas) : UInt32 := m.valid &&& table.requiredMask

/-- Required lines that are valid and read one. -/
def reading (table : LookupTable) (m : Meas) : UInt32 := m.meas &&& table.arrived m

/-- Every required line is valid at some edge from `s` to `e`. -/
def Covered (table : LookupTable) (lines : Nat → Meas) (s e : Nat) : Prop :=
  anyOver (fun k => table.arrived (lines k)) s (e + 1) = table.requiredMask

/-- The lines that read one at some edge from `s` to `e`. -/
def address (table : LookupTable) (lines : Nat → Meas) (s e : Nat) : UInt32 :=
  anyOver (fun k => table.reading (lines k)) s (e + 1)

/-- At some edge from `s` to `e`, required line `i` is valid and reads one. -/
def ReadsOne (table : LookupTable) (lines : Nat → Meas) (s e i : Nat) : Prop :=
  ∃ k, s ≤ k ∧ k ≤ e ∧ (lines k).meas.toNat.testBit i = true ∧
    (lines k).valid.toNat.testBit i = true ∧ table.requiredMask.toNat.testBit i = true

theorem testBit_address {table : LookupTable} {lines : Nat → Meas} {s e : Nat} (h : s ≤ e)
    (i : Nat) :
    (table.address lines s e).toNat.testBit i = true ↔ table.ReadsOne lines s e i := by
  rw [address, testBit_anyOver _ (by omega)]
  simp [reading, arrived, ReadsOne, Nat.testBit_and]

end LookupTable

namespace Round

variable {r : Round} {table : LookupTable} {lines : Nat → Meas} {s e : Nat}

/-- The round after the edges before `t`, where edge `k` latches `lines k`. -/
def after (r : Round) (lines : Nat → Meas) : Nat → Round
  | 0 => r
  | t + 1 => (r.after lines t).latch (lines t)

/-- Rounds that edges and resets lead to. -/
inductive Reaches (r : Round) : Round → Prop
  | refl : Reaches r r
  | latch {r' : Round} (m : Meas) : Reaches r r' → Reaches r (r'.latch m)
  | reset {r' : Round} : Reaches r r' → Reaches r r'.reset

/-- Nothing has arrived yet. -/
structure Starts (r : Round) : Prop where
  state : r.state = .wait
  valid : r.valid = 0
  addr : r.addr = 0

theorem starts_new (table : LookupTable) : Starts { table := table } := ⟨rfl, rfl, rfl⟩

theorem Starts.eq_new (h : r.Starts) (ht : r.table = table) : r = { table := table } := by
  obtain ⟨t, state, valid, addr⟩ := r
  obtain ⟨hstate, hvalid, haddr⟩ := h
  simp only at hstate hvalid haddr ht
  rw [hstate, hvalid, haddr, ht]

/-! ### One edge -/

theorem table_latch (r : Round) (m : Meas) : (r.latch m).table = r.table := by
  unfold latch
  split
  · simp only
    split <;> rfl
  · rfl

/-- An edge completes a waiting round if every required line has been valid. -/
theorem latch_ready_iff (h : r.state = .wait) (m : Meas) :
    (r.latch m).state = .ready ↔ (r.accumulate m).complete = true := by
  simp only [latch, h]
  split
  · exact iff_of_true rfl ‹_›
  · exact iff_of_false (by simp [accumulate, h]) ‹_›

theorem complete_iff :
    r.complete = true ↔ r.table.requiredMask ≠ 0 ∧ r.valid = r.table.requiredMask := by
  rw [complete, Bool.and_eq_true, decide_eq_true_iff, beq_iff_eq]

theorem latch_of_wait (h : r.state = .wait) (m : Meas) :
    r.latch m = { r.accumulate m with state := (r.latch m).state } := by
  simp only [latch, h]
  split <;> rfl

/-- The edge after a completed round clears it, whatever the lines. -/
theorem latch_of_ready (h : r.state = .ready) (m : Meas) : r.latch m = { table := r.table } := by
  simp only [latch, h]
  rfl

/-! ### Consistent rounds -/

/-- A round for `table` has an address of valid lines, and they are required. -/
structure Consistent (table : LookupTable) (r : Round) : Prop where
  table_eq : r.table = table
  addr : r.addr &&& r.valid = r.addr
  valid : r.valid &&& table.requiredMask = r.valid

theorem Consistent.new (table : LookupTable) : Consistent table { table := table } :=
  ⟨rfl, UInt32.zero_and, UInt32.zero_and⟩

theorem Consistent.accumulate (h : Consistent table r) (m : Meas) :
    Consistent table (r.accumulate m) := by
  obtain ⟨rfl, haddr, hvalid⟩ := h
  rw [and_eq_left_iff] at haddr hvalid
  refine ⟨rfl, (and_eq_left_iff _ _).mpr fun i => ?_, (and_eq_left_iff _ _).mpr fun i => ?_⟩
  · simp only [Round.accumulate, UInt32.toNat_or, UInt32.toNat_and, Nat.testBit_or,
      Nat.testBit_and, Bool.or_eq_true, Bool.and_eq_true]
    rintro (h | ⟨-, h⟩)
    · exact .inl (haddr i h)
    · exact .inr h
  · simp only [Round.accumulate, UInt32.toNat_or, UInt32.toNat_and, Nat.testBit_or,
      Nat.testBit_and, Bool.or_eq_true, Bool.and_eq_true]
    rintro (h | ⟨-, h⟩)
    · exact hvalid i h
    · exact h

theorem Consistent.latch (h : Consistent table r) (m : Meas) : Consistent table (r.latch m) := by
  cases hs : r.state with
  | wait =>
    rw [latch_of_wait hs]
    have hacc := h.accumulate m
    exact ⟨hacc.table_eq, hacc.addr, hacc.valid⟩
  | ready =>
    rw [latch_of_ready hs, h.table_eq]
    exact .new table

theorem Consistent.of_reaches (h : Reaches { table := table } r) : Consistent table r := by
  induction h with
  | refl => exact .new table
  | latch m _ ih => exact ih.latch m
  | reset _ ih => exact ⟨ih.table_eq, UInt32.zero_and, UInt32.zero_and⟩

theorem Consistent.bounded (h : Consistent table r)
    (hmask : table.requiredMask.toNat < table.entries.size) : r.Bounded := by
  obtain ⟨rfl, haddr, hvalid⟩ := h
  rw [and_eq_left_iff] at haddr hvalid
  exact ⟨hmask, (and_eq_left_iff _ _).mpr fun i hi => hvalid i (haddr i hi)⟩

/-! ### Whole rounds -/

/-- The round is completed by the edge of cycle `k`. -/
def Completes (r : Round) (lines : Nat → Meas) (k : Nat) : Prop :=
  (r.after lines (k + 1)).state = .ready

theorem table_after (r : Round) (lines : Nat → Meas) (t : Nat) :
    (r.after lines t).table = r.table := by
  induction t with
  | zero => rfl
  | succ t ih => exact (table_latch _ _).trans ih

theorem Bounded.after (h : r.Bounded) (lines : Nat → Meas) (t : Nat) :
    (r.after lines t).Bounded := by
  induction t with
  | zero => exact h
  | succ t ih => exact ih.latch _

/-- While a round waits, its registers are the union of what arrived since its start. -/
theorem after_of_waiting (ht : r.table = table) (hs : (r.after lines s).Starts) {t : Nat}
    (hst : s ≤ t) (hwait : ∀ k, s ≤ k → k < t → ¬ r.Completes lines k) :
    r.after lines t =
      { table := table
        valid := anyOver (fun k => table.arrived (lines k)) s t
        addr := anyOver (fun k => table.reading (lines k)) s t } := by
  induction t, hst using Nat.le_induction with
  | base =>
    rw [anyOver_self, anyOver_self]
    exact hs.eq_new ((table_after r lines s).trans ht)
  | succ t hst ih =>
    have hafter := ih fun k hk hlt => hwait k hk (by omega)
    have hstate : (r.after lines t).state = .wait := by rw [hafter]
    have hnext : ((r.after lines t).latch (lines t)).state = .wait := by
      have hnot := hwait t hst (by omega)
      cases h : ((r.after lines t).latch (lines t)).state with
      | wait => rfl
      | ready => exact absurd h hnot
    rw [Round.after, latch_of_wait hstate, hnext, hafter, anyOver_succ _ hst, anyOver_succ _ hst]
    rfl

/-- A round is completed by the first edge at which every required line has been valid. -/
theorem isFirst_completes_iff (ht : r.table = table) (hs : (r.after lines s).Starts) :
    IsFirst (r.Completes lines) s e ↔
      table.requiredMask ≠ 0 ∧ IsFirst (table.Covered lines s) s e := by
  have hstep (t : Nat) (hst : s ≤ t) (hwait : ∀ k, s ≤ k → k < t → ¬ r.Completes lines k) :
      r.Completes lines t ↔ table.requiredMask ≠ 0 ∧ table.Covered lines s t := by
    have hafter := after_of_waiting ht hs hst hwait
    rw [Completes, Round.after, latch_ready_iff (by rw [hafter]), hafter, LookupTable.Covered,
      anyOver_succ _ hst]
    exact complete_iff
  rw [isFirst_congr hstep]
  constructor
  · rintro ⟨hle, ⟨hmask, hcovered⟩, hfirst⟩
    exact ⟨hmask, hle, hcovered, fun t ht hlt h => hfirst t ht hlt ⟨hmask, h⟩⟩
  · rintro ⟨hmask, hle, hcovered, hfirst⟩
    exact ⟨hle, ⟨hmask, hcovered⟩, fun t ht hlt h => hfirst t ht hlt h.2⟩

/-- In every cycle of a run a round waits since its start, or it has just been completed. -/
theorem exists_start (hr : r.Starts) (lines : Nat → Meas) (t : Nat) :
    ∃ s, (r.after lines s).Starts ∧
      ((r.after lines t).state = .wait ∧ s ≤ t ∧
          (∀ k, s ≤ k → k < t → ¬ r.Completes lines k) ∨
        ∃ e, t = e + 1 ∧ IsFirst (r.Completes lines) s e) := by
  induction t with
  | zero => exact ⟨0, hr, .inl ⟨hr.state, le_rfl, by omega⟩⟩
  | succ t ih =>
    obtain ⟨s, hs, ⟨-, hst, hwait⟩ | ⟨e, rfl, -, he, -⟩⟩ := ih
    · cases hnext : (r.after lines (t + 1)).state with
      | wait =>
        refine ⟨s, hs, .inl ⟨rfl, by omega, fun k hk hlt => ?_⟩⟩
        rcases Nat.lt_succ_iff_lt_or_eq.mp hlt with hlt | rfl
        · exact hwait k hk hlt
        · simp [Completes, hnext]
      | ready => exact ⟨s, hs, .inr ⟨t, rfl, hst, hnext, hwait⟩⟩
    · -- the edge after a completed round starts the next one
      have hnew : r.after lines (e + 1 + 1) = { table := (r.after lines (e + 1)).table } :=
        latch_of_ready he _
      refine ⟨e + 1 + 1, ?_, .inl ⟨by rw [hnew], le_rfl, by omega⟩⟩
      rw [hnew]
      exact starts_new _

/-- The round that starts at edge `s` is completed by edge `e`: it waits with nothing presented,
    presents the entry of its address in cycle `e + 1`, and the next round starts at edge `e + 2`
    with nothing of the lines of edge `e + 1`. -/
structure Presents (table : LookupTable) (r : Round) (lines : Nat → Meas) (s e : Nat) : Prop where
  waits : ∀ t, s ≤ t → t ≤ e →
    (r.after lines t).state = .wait ∧ (r.after lines t).output = none
  ready : (r.after lines (e + 1)).state = .ready
  addr : (r.after lines (e + 1)).addr = table.address lines s e
  entry : ∃ entry, table.entries[(table.address lines s e).toNat]? = some entry ∧
    (r.after lines (e + 1)).output = some entry
  discards : ∀ m, (r.after lines (e + 1)).latch m = { table := table }
  restarts : (r.after lines (e + 2)).Starts ∧ (r.after lines (e + 2)).output = none

theorem presents_of_isFirst (ht : r.table = table) (hb : r.Bounded) (hs : (r.after lines s).Starts)
    (he : IsFirst (r.Completes lines) s e) :
    Presents table r lines s e := by
  obtain ⟨hse, hready, hwait⟩ := he
  have hafter (t : Nat) (hst : s ≤ t) (hte : t ≤ e) :=
    after_of_waiting ht hs hst fun k hk hlt => hwait k hk (by omega)
  have hlatch : r.after lines (e + 1) = _ := latch_of_wait (by rw [hafter e hse le_rfl]) (lines e)
  have haddr : (r.after lines (e + 1)).addr = table.address lines s e := by
    rw [hlatch, hafter e hse le_rfl, LookupTable.address, anyOver_succ _ hse]
    rfl
  have htable : (r.after lines (e + 1)).table = table := (table_after r lines (e + 1)).trans ht
  have hdiscards (m : Meas) : (r.after lines (e + 1)).latch m = { table := table } := by
    rw [latch_of_ready hready, htable]
  refine ⟨fun t hst hte => ?_, hready, haddr, ?_, hdiscards, ?_⟩
  · rw [hafter t hst hte]
    exact ⟨rfl, rfl⟩
  · obtain ⟨entry, hget, hout⟩ := (hb.after lines (e + 1)).output_eq hready
    rw [htable, haddr] at hget
    exact ⟨entry, hget, hout⟩
  · have hnew : r.after lines (e + 2) = { table := table } := hdiscards _
    rw [hnew]
    exact ⟨starts_new table, rfl⟩

theorem consistent_of_reaches {n : Nat} {d : Distributor} (hd : Distributor.new table n = pure d)
    (hr : d.round.Reaches r) : Consistent table r ∧ r.Bounded := by
  obtain ⟨hvalid, rfl⟩ := Distributor.new_eq_pure hd
  have hc := Consistent.of_reaches hr
  exact ⟨hc, hc.bounded (LookupTable.mask_lt_of_validate hvalid)⟩

/-- A round takes the measurements of its edges in any order and grouping. In every state that
    edges and resets lead to, the address is made of valid required lines and names an entry. A
    round that starts at edge `s` is completed by the first edge at which every required line has
    been valid since then, and presents the entry of its address for one cycle; in all other cycles
    nothing is presented. Rounds in which the same lines read one present the same entry. -/
theorem entry_of_completed_round {n : Nat} {d : Distributor}
    (hd : Distributor.new table n = pure d) (hr : d.round.Reaches r) (lines : Nat → Meas) :
    (Consistent table r ∧ r.addr.toNat < table.entries.size ∧
      (r.state = .ready → r.output ≠ none)) ∧
    (∀ s, (r.after lines s).Starts → ∀ e,
      (IsFirst (r.Completes lines) s e ↔
        table.requiredMask ≠ 0 ∧ IsFirst (table.Covered lines s) s e) ∧
      (IsFirst (r.Completes lines) s e → Presents table r lines s e)) ∧
    (r.Starts → ∀ t, (r.after lines t).output ≠ none ↔
      ∃ s e, t = e + 1 ∧ (r.after lines s).Starts ∧ table.requiredMask ≠ 0 ∧
        IsFirst (table.Covered lines s) s e) ∧
    ∀ r' lines' s e s' e', d.round.Reaches r' →
      (r.after lines s).Starts → IsFirst (r.Completes lines) s e →
      (r'.after lines' s').Starts → IsFirst (r'.Completes lines') s' e' →
      (∀ i, table.ReadsOne lines s e i ↔ table.ReadsOne lines' s' e' i) →
      (r.after lines (e + 1)).output = (r'.after lines' (e' + 1)).output := by
  obtain ⟨hc, hb⟩ := consistent_of_reaches hd hr
  refine ⟨⟨hc, ?_, fun hready => ?_⟩, fun s hs e => ⟨isFirst_completes_iff hc.table_eq hs,
    presents_of_isFirst hc.table_eq hb hs⟩, fun hstarts t => ⟨fun hout => ?_, ?_⟩, ?_⟩
  · rw [← hc.table_eq]
    exact hb.addr_lt
  · obtain ⟨entry, -, hout⟩ := hb.output_eq hready
    simp [hout]
  · obtain ⟨s, hs, ⟨hwait, -⟩ | ⟨e, rfl, he⟩⟩ := exists_start hstarts lines t
    · simp [output, hwait] at hout
    · exact ⟨s, e, rfl, hs, (isFirst_completes_iff hc.table_eq hs).mp he⟩
  · rintro ⟨s, e, rfl, hs, hfirst⟩
    have he := (isFirst_completes_iff hc.table_eq hs).mpr hfirst
    obtain ⟨entry, -, hout⟩ := (presents_of_isFirst hc.table_eq hb hs he).entry
    simp [hout]
  · intro r' lines' s e s' e' hr' hs he hs' he' hsame
    obtain ⟨hc', hb'⟩ := consistent_of_reaches hd hr'
    obtain ⟨entry, hget, hout⟩ := (presents_of_isFirst hc.table_eq hb hs he).entry
    obtain ⟨entry', hget', hout'⟩ := (presents_of_isFirst hc'.table_eq hb' hs' he').entry
    have haddr : table.address lines s e = table.address lines' s' e' := by
      refine UInt32.toNat_inj.mp (Nat.eq_of_testBit_eq fun i => Bool.eq_iff_iff.mpr ?_)
      rw [LookupTable.testBit_address he.1, LookupTable.testBit_address he'.1, hsame]
    rw [hout, hout', ← hget, ← hget', haddr]

/-- Edge 0 completes a round and the lines of edge 1 are lost. The next round gets line 2 at edge 2,
    together with a line that is not required, and line 0 at edge 4. -/
theorem entry_of_second_round :
    ∃ (lines : Nat → Meas) (d : Distributor),
      Distributor.new ⟨3, 5, #[10, 11, 12, 13, 14, 15, 16, 17]⟩ 3 = pure d ∧
      lines 1 = ⟨7, 7⟩ ∧ (d.round.after lines 1).output = some 10 ∧
      Presents ⟨3, 5, #[10, 11, 12, 13, 14, 15, 16, 17]⟩ d.round lines 2 4 ∧
      (d.round.after lines 5).output = some 14 := by
  let lines : Nat → Meas
    | 0 => ⟨2, 7⟩
    | 1 => ⟨7, 7⟩
    | 2 => ⟨6, 6⟩
    | 4 => ⟨2, 1⟩
    | _ => ⟨7, 0⟩
  obtain ⟨d, hd, hs, hfirst, hsecond⟩ : ∃ d,
      Distributor.new ⟨3, 5, #[10, 11, 12, 13, 14, 15, 16, 17]⟩ 3 = pure d ∧
      (d.round.after lines 2).Starts ∧ (d.round.after lines 1).output = some 10 ∧
      (d.round.after lines 5).output = some 14 :=
    ⟨_, rfl, ⟨by decide, by decide, by decide⟩, by decide, by decide⟩
  have hcovered :
      IsFirst (LookupTable.Covered ⟨3, 5, #[10, 11, 12, 13, 14, 15, 16, 17]⟩ lines 2) 2 4 := by
    unfold LookupTable.Covered
    refine ⟨by decide, by decide, fun t hle hlt => ?_⟩
    interval_cases t <;> decide
  obtain ⟨-, hrounds, -⟩ := entry_of_completed_round hd .refl lines
  obtain ⟨hiff, hpresents⟩ := hrounds 2 hs 4
  exact ⟨lines, d, hd, rfl, hfirst, hpresents (hiff.mpr ⟨by decide, hcovered⟩), hsecond⟩

end Round

end Sequencer

import Mathlib
import Sequencer.Proofs.Command.Session

/-! What a comparison with an expectation says.

    The entry of a core names what failed and nothing else (`ExpectedCore.Reports`), so it is empty
    exactly if all that is expected of the core holds. A comparison puts the entries core by core,
    with the expectation itself for a core that does not exist (`Expectation.getElem?_coreDiffs`).
    Hence nothing differs exactly if no core fails, and the cores named by the difference are those
    that fail (`Expectation.mem_named_iff`). -/

namespace Sequencer

namespace ExpectedCore

variable {e d : ExpectedCore} {s : Snapshot}

/-- All that is expected of a core is so. -/
structure Holds (e : ExpectedCore) (s : Snapshot) : Prop where
  registers : ∀ r v, (r, v) ∈ e.registers → s.register r = v
  qclk : ∀ v, e.qclk = some v → s.qclk = v
  pc : ∀ v, e.pc = some v → s.pc = v
  done : ∀ v, e.done = some v → s.done = v

/-- `d` names exactly what is expected by `e` and is not so, with the actual values. It has no
    register more often than `e`, and none in another order. -/
structure Reports (e : ExpectedCore) (s : Snapshot) (d : ExpectedCore) : Prop where
  registers : ∀ r v, (r, v) ∈ d.registers ↔ v = s.register r ∧ ∃ x, (r, x) ∈ e.registers ∧ x ≠ v
  sublist : (d.registers.map Prod.fst).Sublist (e.registers.map Prod.fst)
  qclk : ∀ v, d.qclk = some v ↔ v = s.qclk ∧ ∃ x, e.qclk = some x ∧ x ≠ v
  pc : ∀ v, d.pc = some v ↔ v = s.pc ∧ ∃ x, e.pc = some x ∧ x ≠ v
  done : ∀ v, d.done = some v ↔ v = s.done ∧ ∃ x, e.done = some x ∧ x ≠ v

theorem isEmpty_iff : e.isEmpty = true ↔ e = {} := by
  obtain ⟨registers, qclk, pc, done⟩ := e
  simp [isEmpty, and_assoc]

theorem failed_eq_some {α : Type} [DecidableEq α] {expected : Option α} {actual v : α} :
    failed expected actual = some v ↔ v = actual ∧ ∃ x, expected = some x ∧ x ≠ v := by
  cases expected with
  | none => simp [failed]
  | some x =>
    by_cases hx : x = actual
    · simp only [failed, if_pos hx, reduceCtorEq, Option.some.injEq, false_iff, not_and]
      rintro rfl ⟨y, rfl, hne⟩
      exact hne hx
    · simp only [failed, if_neg hx, Option.some.injEq]
      constructor
      · rintro rfl
        exact ⟨rfl, x, rfl, hx⟩
      · rintro ⟨rfl, -⟩
        rfl

/-! ### One core -/

theorem mem_diff_registers {r : UInt8} {v : UInt32} : (r, v) ∈ (e.diff s).registers ↔
    v = s.register r ∧ ∃ x, (r, x) ∈ e.registers ∧ x ≠ v := by
  simp only [diff, List.mem_filterMap, Option.map_eq_some_iff, failed_eq_some, Prod.exists,
    Prod.mk.injEq]
  constructor
  · rintro ⟨r', x, hmem, v', ⟨rfl, x', hx', hne⟩, rfl, rfl⟩
    obtain rfl := Option.some.inj hx'
    exact ⟨rfl, x, hmem, hne⟩
  · rintro ⟨rfl, x, hmem, hne⟩
    exact ⟨r, x, hmem, s.register r, ⟨rfl, x, rfl, hne⟩, rfl, rfl⟩

theorem sublist_diff_registers :
    ((e.diff s).registers.map Prod.fst).Sublist (e.registers.map Prod.fst) := by
  simp only [diff]
  induction e.registers with
  | nil => exact .slnil
  | cons p rest ih =>
    obtain ⟨r, x⟩ := p
    by_cases hx : x = s.register r
    · simpa [failed, hx] using ih.cons r
    · simpa [failed, hx] using ih.cons_cons r

theorem reports_diff : e.Reports s (e.diff s) :=
  ⟨fun _ _ => mem_diff_registers, sublist_diff_registers, fun _ => failed_eq_some,
    fun _ => failed_eq_some, fun _ => failed_eq_some⟩

/-- An optional value of a report is absent exactly if what is expected holds. -/
theorem eq_none_iff_of_reported {α : Type} {expected reported : Option α} {actual : α}
    (h : ∀ v, reported = some v ↔ v = actual ∧ ∃ x, expected = some x ∧ x ≠ v) :
    reported = none ↔ ∀ v, expected = some v → actual = v := by
  rw [Option.eq_none_iff_forall_ne_some]
  constructor
  · intro hnone v hv
    by_contra hne
    exact hnone actual ((h actual).mpr ⟨rfl, v, hv, Ne.symm hne⟩)
  · intro hall v hv
    obtain ⟨rfl, x, hx, hne⟩ := (h v).mp hv
    exact hne (hall x hx).symm

/-- Nothing is reported exactly if everything holds. -/
theorem Reports.eq_empty_iff (h : e.Reports s d) : d = {} ↔ e.Holds s := by
  have hregisters : d.registers = [] ↔ ∀ r v, (r, v) ∈ e.registers → s.register r = v := by
    rw [List.eq_nil_iff_forall_not_mem]
    constructor
    · intro hnone r v hv
      by_contra hne
      exact hnone (r, s.register r) ((h.registers _ _).mpr ⟨rfl, v, hv, Ne.symm hne⟩)
    · rintro hall ⟨r, v⟩ hv
      obtain ⟨rfl, x, hx, hne⟩ := (h.registers r v).mp hv
      exact hne (hall r x hx).symm
  have hempty : d = {} ↔ d.registers = [] ∧ d.qclk = none ∧ d.pc = none ∧ d.done = none := by
    obtain ⟨registers, qclk, pc, done⟩ := d
    simp
  rw [hempty, hregisters, eq_none_iff_of_reported h.qclk, eq_none_iff_of_reported h.pc,
    eq_none_iff_of_reported h.done]
  constructor
  · rintro ⟨h1, h2, h3, h4⟩
    exact ⟨h1, h2, h3, h4⟩
  · rintro ⟨h1, h2, h3, h4⟩
    exact ⟨h1, h2, h3, h4⟩

/-- What is reported is the actual state, so it holds. -/
theorem Reports.holds (h : e.Reports s d) : d.Holds s where
  registers r v hv := ((h.registers r v).mp hv).1.symm
  qclk v hv := ((h.qclk v).mp hv).1.symm
  pc v hv := ((h.pc v).mp hv).1.symm
  done v hv := ((h.done v).mp hv).1.symm

end ExpectedCore

namespace Expectation

variable {e d : Expectation} {actual : List Snapshot} {i : Nat} {c : ExpectedCore}

/-! ### Core by core -/

theorem getElem?_coreDiffs (cores : List ExpectedCore) (actual : List Snapshot) (i : Nat) :
    (coreDiffs cores actual)[i]? = cores[i]?.map (fun c => actual[i]?.elim c c.diff) := by
  induction cores generalizing actual i with
  | nil => simp [coreDiffs]
  | cons c cores ih =>
    cases actual with
    | nil => cases i <;> simp [coreDiffs, ih]
    | cons s actual => cases i <;> simp [coreDiffs, ih]

theorem length_coreDiffs (cores : List ExpectedCore) (actual : List Snapshot) :
    (coreDiffs cores actual).length = cores.length := by
  induction cores generalizing actual with
  | nil => simp [coreDiffs]
  | cons c cores ih => cases actual <;> simp [coreDiffs, ih]

/-- Something is expected of core `i` that is not so, or of a core `i` that does not exist. -/
def FailsAt (e : Expectation) (actual : List Snapshot) (i : Nat) : Prop :=
  ∃ c, e.cores[i]? = some c ∧ (∀ s, actual[i]? = some s → ¬ c.Holds s) ∧
    (actual[i]? = none → c ≠ {})

theorem failsAt_iff :
    e.FailsAt actual i ↔ ∃ c, (coreDiffs e.cores actual)[i]? = some c ∧ c ≠ {} := by
  rw [getElem?_coreDiffs]
  cases hc : e.cores[i]? with
  | none => simp [FailsAt, hc]
  | some c =>
    cases hs : actual[i]? with
    | none => simp [FailsAt, hc, hs]
    | some s => simp [FailsAt, hc, hs, ExpectedCore.reports_diff.eq_empty_iff]

theorem compare_eq_none_iff : e.compare actual = none ↔ ∀ i, ¬ e.FailsAt actual i := by
  simp only [compare, ite_eq_left_iff, reduceCtorEq, imp_false, not_not, List.all_eq_true,
    ExpectedCore.isEmpty_iff, failsAt_iff]
  constructor
  · rintro hall i ⟨c, hc, hne⟩
    exact hne (hall c (List.mem_of_getElem? hc))
  · intro hnone c hmem
    obtain ⟨i, hi⟩ := List.mem_iff_getElem?.mp hmem
    by_contra hne
    exact hnone i ⟨c, hi, hne⟩

theorem cores_of_compare (h : e.compare actual = some d) : d.cores = coreDiffs e.cores actual := by
  simp only [compare, Option.ite_none_left_eq_some, Option.some.injEq] at h
  rw [← h.2]

/-- The difference holds where the cores exist. -/
theorem compare_of_compare (h : e.compare actual = some d)
    (hlength : e.cores.length ≤ actual.length) : d.compare actual = none := by
  rw [compare_eq_none_iff]
  rintro i ⟨c, hc, hfails, -⟩
  rw [cores_of_compare h, getElem?_coreDiffs, Option.map_eq_some_iff] at hc
  obtain ⟨c₀, hc₀, rfl⟩ := hc
  have hlt : i < actual.length := (List.getElem?_eq_some_iff.mp hc₀).1.trans_le hlength
  have hs : actual[i]? = some actual[i] := List.getElem?_eq_getElem hlt
  refine hfails _ hs ?_
  rw [hs]
  exact ExpectedCore.reports_diff.holds

/-! ### The cores that are named -/

theorem mem_named : i ∈ d.named ↔ ∃ c, d.cores[i]? = some c ∧ c ≠ {} := by
  simp only [named, List.mem_map, List.mem_filter, Prod.exists, List.mk_mem_zipIdx_iff_getElem?,
    Bool.not_eq_true', ← Bool.not_eq_true, ExpectedCore.isEmpty_iff]
  constructor
  · rintro ⟨c, j, ⟨hc, hne⟩, rfl⟩
    exact ⟨c, hc, hne⟩
  · rintro ⟨c, hc, hne⟩
    exact ⟨c, i, ⟨hc, hne⟩, rfl⟩

theorem pairwise_named (d : Expectation) : d.named.Pairwise (· < ·) := by
  have hindex : d.cores.zipIdx.Pairwise (fun a b => a.2 < b.2) := by
    rw [← List.pairwise_map, List.zipIdx_map_snd]
    exact List.pairwise_lt_range'
  exact List.pairwise_map.mpr (hindex.filter _)

theorem mem_named_iff (h : e.compare actual = some d) : i ∈ d.named ↔ e.FailsAt actual i := by
  rw [mem_named, cores_of_compare h, failsAt_iff]

/-- Nothing differs exactly if all that is expected of the cores holds and nothing is expected of a
    core that does not exist. What differs has one entry for each core that is expected: for one
    that exists it names exactly what failed, with the actual values, and for one that does not
    exist it is the expectation itself. So where all of them exist the difference holds, and the
    cores that a test names, in their order, are those for which something fails. -/
theorem compare_names_exactly_failures (e : Expectation) :
    (∀ actual, e.compare actual = none ↔ ∀ (i : Nat) c, e.cores[i]? = some c →
      (∀ s, actual[i]? = some s → c.Holds s) ∧ (actual[i]? = none → c = {})) ∧
    (∀ actual d, e.compare actual = some d →
      d.cores.length = e.cores.length ∧
      (∀ (i : Nat) c, e.cores[i]? = some c → ∃ c', d.cores[i]? = some c' ∧
        (∀ s, actual[i]? = some s → c.Reports s c') ∧ (actual[i]? = none → c' = c)) ∧
      (e.cores.length ≤ actual.length → d.compare actual = none)) ∧
    ∀ (σ : Type) (fs : Storage (StateM σ)) verbose path expectedPath maxCycles w report w',
      Session.Compares fs verbose path expectedPath maxCycles w e report w' →
      (e.compare report.cores = none →
        ∃ w'', Session.Yields (Session.test fs verbose path expectedPath maxCycles) w () w'') ∧
      ∀ d w'', e.compare report.cores = some d →
        Session.Yields (Session.writeDiff fs (Session.diffPath expectedPath) (some d)) w' () w'' →
        ∃ cores, Session.Fails (Session.test fs verbose path expectedPath maxCycles) w
            (.differs cores expectedPath) w'' ∧
          cores.Pairwise (· < ·) ∧ ∀ i, i ∈ cores ↔ e.FailsAt report.cores i := by
  refine ⟨fun actual => ?_, fun actual d h => ?_, ?_⟩
  · simp only [compare_eq_none_iff, FailsAt, not_exists, not_and]
    constructor
    · intro hnone i c hc
      cases hs : actual[i]? with
      | none => simpa [hs] using hnone i c hc
      | some s => simpa [hs] using hnone i c hc
    · intro hall i c hc hfails hmissing
      cases hs : actual[i]? with
      | none => exact hmissing hs ((hall i c hc).2 hs)
      | some s => exact hfails s hs ((hall i c hc).1 s hs)
  · refine ⟨?_, fun i c hc => ?_, compare_of_compare h⟩
    · rw [cores_of_compare h, length_coreDiffs]
    · refine ⟨actual[i]?.elim c c.diff, ?_, ?_, ?_⟩
      · rw [cores_of_compare h, getElem?_coreDiffs, hc, Option.map_some]
      · intro s hs
        rw [hs]
        exact ExpectedCore.reports_diff
      · intro hs
        rw [hs, Option.elim_none]
  · intro σ fs verbose path expectedPath maxCycles w report w' h
    refine ⟨fun hnone => ?_, fun d w'' hdiff hwrite => ?_⟩
    · obtain ⟨w'', hyields, -⟩ := h.yields_test hnone
      exact ⟨w'', hyields⟩
    · exact ⟨d.named, h.fails_test hdiff hwrite, d.pairwise_named, fun i => mem_named_iff hdiff⟩

/-- Core 0 is expected to have a value in a register that it lacks, core 1 is as expected, and
    core 2 does not exist: the test names the cores 0 and 2. -/
theorem compare_names_exactly_failures_missing :
    ∃ (e : Expectation) (report : Report) (files : Files) (w' w'' : Output × Files)
      (cores : List Nat),
      e.cores = [{ registers := [(9, 5)], done := some true }, { pc := some 1 },
        { qclk := some 0 }] ∧
      Session.Compares Files.storage 0 "s" "e" (some 20) ({}, files) e report w' ∧
      Session.Fails (Session.test Files.storage 0 "s" "e" (some 20)) ({}, files)
        (.differs cores "e") w'' ∧
      0 ∈ cores ∧ 1 ∉ cores ∧ 2 ∈ cores := by
  have hsession : ∃ (files : Files) (p : Expectation × Report) (w'' : Output × Files),
      Session.Yields (do
        let s ← Session.scenario Files.storage "s"
        let e ← Session.document Files.storage "e" (.expectedFile "e") .expected Expectation.reader
        let r ← Session.simulate Files.storage 0 (some 20) s
        Session.writeDiff Files.storage (Session.diffPath "e") (e.compare r.cores)
        return (e, r)) ({}, files) p w'' ∧
      (p.1.cores == [{ registers := [(9, 5)], done := some true }, { pc := some 1 },
          { qclk := some 0 }] &&
        coreDiffs p.1.cores p.2.cores == [{ registers := [(9, 0)] }, {}, { qclk := some 0 }]) =
          true :=
    ⟨⟨[(["s"], "[[[128, 2, 3]], [\"p\", \"p\"]]".toUTF8.data.toList),
        (["p"], "a0000000000000000000000000000000".toUTF8.data.toList),
        (["e"], (Json.Value.pretty 2 (Expectation.value
          ⟨[{ registers := [(9, 5)], done := some true }, { pc := some 1 },
            { qclk := some 0 }]⟩)).toUTF8.data.toList)]⟩,
      Session.exists_yields (by decide +kernel)⟩
  obtain ⟨files, ⟨e, report⟩, w'', hyields, hcheck⟩ := hsession
  obtain ⟨s, w₁, hs, h⟩ := Session.yields_bind.mp hyields
  obtain ⟨_, w₂, he, h⟩ := Session.yields_bind.mp h
  obtain ⟨_, w', hr, h⟩ := Session.yields_bind.mp h
  obtain ⟨_, w₃, hwrite, h⟩ := Session.yields_bind.mp h
  obtain ⟨⟨rfl, rfl⟩, rfl⟩ := Session.yields_pure.mp h
  simp only [Bool.and_eq_true, beq_iff_eq] at hcheck
  obtain ⟨hcores, hdiffs⟩ := hcheck
  have hcompares : Session.Compares Files.storage 0 "s" "e" (some 20) ({}, files) e report w' :=
    ⟨s, w₁, w₂, hs, he, hr⟩
  have hdiff : e.compare report.cores = some ⟨coreDiffs e.cores report.cores⟩ := by
    rw [compare, hdiffs]
    rfl
  rw [hdiff] at hwrite
  obtain ⟨-, -, htest⟩ := compare_names_exactly_failures e
  obtain ⟨cores, hfails, -, hmem⟩ := (htest _ _ _ _ _ _ _ _ _ hcompares).2 _ _ hdiff hwrite
  refine ⟨e, report, files, w', _, cores, hcores, hcompares, hfails, ?_, ?_, ?_⟩
  all_goals
    rw [hmem, failsAt_iff, hdiffs]
    simp

end Expectation

end Sequencer

import Mathlib
import Sequencer.Command.Session
import Sequencer.Proofs.Cluster.Isolation

/-! What the building of a scenario gives.

    A session reads files through a storage of which nothing is assumed: what it answers may depend
    on a state, and reading may change that state. Whatever it answers, a session that builds a
    scenario gives a fresh cluster with one program loaded into each core
    (`Scenario.Builds.exists_programs`). -/

namespace Sequencer

namespace Session

variable {σ α β ε : Type} {w w' w'' : Output × σ} {a b : α} {x : Session (StateM σ) α}

/-- The session succeeds with `a`, and takes the output and the state of the storage from `w` to
    `w'`. -/
def Yields (x : Session (StateM σ) α) (w : Output × σ) (a : α) (w' : Output × σ) : Prop :=
  StateT.run (StateT.run (ExceptT.run x) w.1) w.2 = ((Except.ok a, w'.1), w'.2)

theorem yields_pure : Yields (pure a) w b w' ↔ a = b ∧ w = w' := by
  constructor
  · intro h
    have heq : ((Except.ok a, w.1), w.2) = ((Except.ok b, w'.1), w'.2) := h
    simp only [Prod.mk.injEq, Except.ok.injEq] at heq
    exact ⟨heq.1.1, Prod.ext heq.1.2 heq.2⟩
  · rintro ⟨rfl, rfl⟩
    rfl

theorem not_yields_throw {e : Failure} : ¬ Yields (throw e) w a w' := by
  intro h
  cases congrArg (fun r => r.1.1) h

theorem yields_bind {f : α → Session (StateM σ) β} {b : β} :
    Yields (x >>= f) w b w'' ↔ ∃ a w', Yields x w a w' ∧ Yields (f a) w' b w'' := by
  simp only [Yields, ExceptT.run_bind, StateT.run_bind]
  rcases hx : StateT.run (StateT.run (ExceptT.run x) w.1) w.2 with ⟨⟨r, o⟩, st⟩
  cases r with
  | error e =>
    constructor
    · intro h
      have heq : ((Except.error e, o), st) = ((Except.ok b, w''.1), w''.2) := h
      cases congrArg (fun r => r.1.1) heq
    · rintro ⟨a, w', heq, -⟩
      cases congrArg (fun r => r.1.1) heq
  | ok a =>
    constructor
    · intro h
      exact ⟨a, (o, st), rfl, h⟩
    · rintro ⟨a', w', heq, h⟩
      obtain ⟨⟨⟨rfl⟩, rfl⟩, rfl⟩ := heq
      exact h

theorem yields_checked {c : Checked α} : Yields (checked c) w a w' ↔ c = .ok a ∧ w = w' := by
  cases c with
  | error e => simpa [checked] using not_yields_throw
  | ok b =>
    rw [Except.ok.injEq]
    exact yields_pure

theorem yields_attempt {f : ε → Failure} {y : Attempt ε α} :
    Yields (attempt f y) w a w' ↔ y = pure a ∧ w = w' := by
  rw [attempt, yields_bind]
  constructor
  · rintro ⟨r, w₁, hr, h⟩
    obtain ⟨hy, rfl⟩ := yields_checked.mp hr
    cases r with
    | error e => exact absurd h not_yields_throw
    | ok b =>
      obtain ⟨rfl, rfl⟩ := yields_pure.mp h
      exact ⟨hy, rfl⟩
  · rintro ⟨rfl, rfl⟩
    exact ⟨.ok a, w, yields_checked.mpr ⟨rfl, rfl⟩, yields_pure.mpr ⟨rfl, rfl⟩⟩

/-- A session whose result passes a check yields that result. -/
theorem exists_yields {p : α → Bool}
    (h : (StateT.run (StateT.run (ExceptT.run x) w.1) w.2).1.1.toOption.any p = true) :
    ∃ a w', Yields x w a w' ∧ p a = true := by
  rcases hx : StateT.run (StateT.run (ExceptT.run x) w.1) w.2 with ⟨⟨r, o⟩, st⟩
  rw [hx] at h
  cases r with
  | error e => cases h
  | ok a => exact ⟨a, (o, st), hx, h⟩

/-- Whatever the file holds, a program is loaded into one core. -/
theorem exists_of_load {fs : Storage (StateM σ)} {s s' : Cluster} {path : String} {index : Nat}
    (h : Yields (load fs s path index) w s' w') :
    ∃ c program c', s.core index = .ok c ∧ c.loadProgram program = .ok (c', .ok ()) ∧
      s' = s.setCore index c' := by
  obtain ⟨c, w₁, hc, h⟩ := yields_bind.mp h
  obtain ⟨program, w₂, -, h⟩ := yields_bind.mp h
  obtain ⟨c', w₃, hc', h⟩ := yields_bind.mp h
  obtain ⟨rfl, -⟩ := yields_pure.mp h
  exact ⟨c, program, c', (yields_checked.mp hc).1,
    Attempt.accepted_eq_pure.mp (yields_attempt.mp hc').1, rfl⟩

theorem exists_of_loadAll {fs : Storage (StateM σ)} {s' : Cluster} :
    ∀ {paths : List String} {index : Nat} {s : Cluster} {w : Output × σ},
    Yields ((paths.zipIdx index).foldlM (fun s p => load fs s p.1 p.2) s) w s' w' →
    ∃ programs, programs.length = paths.length ∧ s.loadPrograms index programs = pure s'
  | [], index, s, w, h => by
    obtain ⟨rfl, -⟩ := yields_pure.mp h
    exact ⟨[], rfl, rfl⟩
  | path :: paths, index, s, w, h => by
    rw [List.zipIdx_cons, List.foldlM_cons] at h
    obtain ⟨s₁, w₁, h₁, h⟩ := yields_bind.mp h
    obtain ⟨c, program, c', hc, hc', rfl⟩ := exists_of_load h₁
    obtain ⟨programs, hlength, hload⟩ := exists_of_loadAll h
    exact ⟨program :: programs, congrArg (· + 1) hlength,
      Cluster.loadPrograms_cons_eq_pure.mpr ⟨c, c', hc, hc', hload⟩⟩

end Session

namespace Scenario

variable {s : Scenario} {cluster : Cluster}

/-- A session builds the cluster from the scenario, with some answers of the storage. -/
def Builds (s : Scenario) (cluster : Cluster) : Prop :=
  ∃ (σ : Type) (fs : Storage (StateM σ)) (w w' : Output × σ),
    Session.Yields (Session.build fs s) w cluster w'

theorem built_of_cluster (h : s.cluster = pure cluster) : ∃ table,
    Cluster.Built s.config s.programs.length table s.barrier cluster := by
  obtain ⟨table, -, h⟩ := Attempt.bind_eq_pure.mp h
  obtain ⟨s₀, hnew, h⟩ := Attempt.bind_eq_pure.mp h
  exact ⟨table, s₀, hnew, (Attempt.pure_inj.mp h).symm⟩

/-- Every core of the fresh cluster is given one program. -/
theorem Builds.exists_programs (h : s.Builds cluster) :
    ∃ table s₀ programs, Cluster.Built s.config s.programs.length table s.barrier s₀ ∧
      programs.length = s.programs.length ∧ s₀.loadPrograms 0 programs = pure cluster := by
  obtain ⟨σ, fs, w, w', h⟩ := h
  obtain ⟨s₀, w₁, h₀, h⟩ := Session.yields_bind.mp h
  obtain ⟨programs, hlength, hload⟩ := Session.exists_of_loadAll h
  obtain ⟨table, hbuilt⟩ := built_of_cluster (Session.yields_attempt.mp h₀).1
  exact ⟨table, s₀, programs, hbuilt, hlength, hload⟩

theorem Builds.reachable (h : s.Builds cluster) : cluster.Reachable := by
  obtain ⟨table, s₀, programs, hbuilt, -, hload⟩ := h.exists_programs
  exact hbuilt.reachable.loadPrograms hload

theorem Builds.cycle (h : s.Builds cluster) : cluster.cycle = 0 := by
  obtain ⟨table, s₀, programs, hbuilt, -, hload⟩ := h.exists_programs
  obtain ⟨fresh, -, hrest⟩ := hbuilt.atRest
  rw [(hrest.loads.loadPrograms hload).eq]
  exact hrest.cycle

/-- The cores are cores of the scenario's configuration. -/
theorem Builds.core_reachable (h : s.Builds cluster) :
    ∀ c ∈ cluster.cores, Core.Reachable s.config c := by
  obtain ⟨table, s₀, programs, hbuilt, -, hload⟩ := h.exists_programs
  obtain ⟨fresh, hnew, hrest⟩ := hbuilt.atRest
  exact ((Cluster.Reaches.refl.loadPrograms hload).furnished hnew hrest).cores

end Scenario

/-! ### Files of the narrow configuration -/

/-- One file with a text, and nothing else. -/
def Files.single (name text : String) : Files := ⟨[([name], text.toUTF8.data.toList)]⟩

namespace Narrow

/-! Programs of two words, the second of which is `done`. -/

def pulseText : String := "900000000740000c00000000\na00000000000000000000000"

/-- Wait for the table. -/
def tableText : String := "410000000010800000000000\na00000000000000000000000"

/-- Wait for the measurement line of the core. -/
def lineText : String := "410000000010000000000000\na00000000000000000000000"

end Narrow

end Sequencer

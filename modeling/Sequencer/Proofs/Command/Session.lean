import Mathlib
import Sequencer.Proofs.Scenario.Build

/-! What sessions print, and how they fail.

    A session that goes on after a part of it has succeeded does what the rest does from there
    (`Yields.bind`, `Yields.fails_bind`). So the course of a command follows from its parts: a
    listing prints one text for each word of the program (`exists_of_disasm`), and a test ends as
    the comparison says (`Compares.yields_test`, `Compares.fails_test`). -/

namespace Sequencer.Session

variable {σ α β : Type} {w w' w'' : Output × σ} {a : α} {e : Failure}
  {x : Session (StateM σ) α} {fs : Storage (StateM σ)}

/-- The session fails for the reason `e`, and takes the output and the state of the storage from
    `w` to `w'`. -/
def Fails (x : Session (StateM σ) α) (w : Output × σ) (e : Failure) (w' : Output × σ) : Prop :=
  StateT.run (StateT.run (ExceptT.run x) w.1) w.2 = ((Except.error e, w'.1), w'.2)

theorem fails_throw : Fails (throw e : Session (StateM σ) α) w e w := rfl

theorem Yields.bind {f : α → Session (StateM σ) β} {b : β} (h : Yields x w a w')
    (hf : Yields (f a) w' b w'') : Yields (x >>= f) w b w'' :=
  yields_bind.mpr ⟨a, w', h, hf⟩

theorem Yields.fails_bind {f : α → Session (StateM σ) β} (h : Yields x w a w')
    (hf : Fails (f a) w' e w'') : Fails (x >>= f) w e w'' := by
  simp only [Fails, ExceptT.run_bind, StateT.run_bind]
  rw [show StateT.run (StateT.run (ExceptT.run x) w.1) w.2 = _ from h]
  exact hf

/-- The output after a text is printed. -/
def printed (o : Output) (text : String) : Output := { o with printed := o.printed ++ text }

theorem yields_print {text : String} {u : Unit} :
    Yields (print text) w u w' ↔ w' = (printed w.1 text, w.2) := by
  constructor
  · intro h
    exact Prod.ext (congrArg (fun r => r.1.2) h).symm (congrArg Prod.snd h).symm
  · rintro rfl
    rfl

/-! ### Listings -/

/-- The words of a program are read from a text. -/
theorem exists_of_program {l : Layout} {path : String} {words : List Word}
    (h : Yields (program fs l path) w words w') :
    ∃ source, Program.parse l.widths.instr source = .ok words := by
  obtain ⟨answer, w₁, -, h⟩ := yields_bind.mp h
  cases answer with
  | error e => exact absurd h not_yields_throw
  | ok octets =>
    dsimp only at h
    cases hsource : String.fromUTF8? ⟨octets.toArray⟩ with
    | none =>
      rw [hsource] at h
      exact absurd h not_yields_throw
    | some source =>
      rw [hsource] at h
      dsimp only at h
      cases hparse : Program.parse l.widths.instr source with
      | error e =>
        rw [hparse] at h
        exact absurd h not_yields_throw
      | ok found =>
        rw [hparse] at h
        obtain ⟨rfl, -⟩ := yields_pure.mp h
        exact ⟨source, hparse⟩

/-- What a listing prints for each word of a program, the first of which is at `address`. -/
def listing (l : Layout) (words : List Word) (address : Nat) : Checked (List String) :=
  (words.zipIdx address).mapM (fun p => disassembled l p.1 p.2)

theorem listing_cons {l : Layout} {word : Word} {words : List Word} {address : Nat} :
    listing l (word :: words) address = (do
      let text ← disassembled l word address
      let texts ← listing l words (address + 1)
      return text :: texts) := by
  rw [listing, List.zipIdx_cons, List.mapM_cons]
  rfl

/-- The texts are printed one after the other. -/
theorem exists_listing_of_forIn {l : Layout} {words : List Word} {address : Nat} {u : PUnit}
    (h : Yields (forIn (words.zipIdx address) PUnit.unit (fun p _ => do
      print (← checked (disassembled l p.1 p.2))
      pure (ForInStep.yield PUnit.unit))) w u w') :
    ∃ texts, listing l words address = .ok texts ∧ w' = (printed w.1 (String.join texts), w.2) := by
  induction words generalizing address w with
  | nil =>
    obtain ⟨-, rfl⟩ := yields_pure.mp h
    refine ⟨[], rfl, Prod.ext ?_ rfl⟩
    simp [printed]
  | cons word words ih =>
    rw [List.zipIdx_cons, List.forIn_cons] at h
    obtain ⟨step, w₁, hstep, h⟩ := yields_bind.mp h
    obtain ⟨text, w₂, htext, hstep⟩ := yields_bind.mp hstep
    obtain ⟨_, w₃, hprint, hstep⟩ := yields_bind.mp hstep
    obtain ⟨hdisassembled, rfl⟩ := yields_checked.mp htext
    obtain rfl := yields_print.mp hprint
    obtain ⟨rfl, rfl⟩ := yields_pure.mp hstep
    obtain ⟨texts, htexts, rfl⟩ := ih h
    refine ⟨text :: texts, ?_, ?_⟩
    · rw [listing_cons, hdisassembled, htexts]
      rfl
    · simp [printed, String.join_cons, String.append_assoc]

/-- A listing is that of the program which was read, in the layout of the configuration. -/
theorem exists_of_disasm {path : String} {configPath : Option String} {u : Unit}
    (h : Yields (disasm fs path configPath) w u w') :
    ∃ config l words w₁ w₂ texts, Config.layout config = pure l ∧
      Yields (program fs l path) w₁ words w₂ ∧ listing l words 0 = .ok texts ∧
      w' = (printed w₂.1 (String.join texts), w₂.2) := by
  -- with a configuration file or without, the rest is the same
  have hrest : ∃ (config : Config) (w₁ : Output × σ), Yields (do
      let layout ← attempt Failure.config config.layout
      let words ← program fs layout path
      for p in words.zipIdx do
        print (← checked (disassembled layout p.1 p.2))) w₁ u w' := by
    cases configPath with
    | none =>
      obtain ⟨config, w₁, -, h⟩ := yields_bind.mp h
      exact ⟨config, w₁, h⟩
    | some configPath =>
      obtain ⟨config, w₁, -, h⟩ := yields_bind.mp h
      exact ⟨config, w₁, h⟩
  obtain ⟨config, w₁, h⟩ := hrest
  obtain ⟨l, w₂, hl, h⟩ := yields_bind.mp h
  obtain ⟨words, w₃, hwords, h⟩ := yields_bind.mp h
  obtain ⟨_, w₄, hloop, h⟩ := yields_bind.mp h
  obtain ⟨-, rfl⟩ := yields_pure.mp h
  obtain ⟨texts, htexts, rfl⟩ := exists_listing_of_forIn hloop
  exact ⟨config, l, words, w₂, w₃, texts, (yields_attempt.mp hl).1, hwords, htexts, rfl⟩

/-! ### Tests -/

/-- A test has read the expectation `expected` and come to the report `report`, and is about to
    compare them. -/
def Compares (fs : Storage (StateM σ)) (verbose : Nat) (path expectedPath : String)
    (maxCycles : Option Nat) (w : Output × σ) (expected : Expectation) (report : Report)
    (w' : Output × σ) : Prop :=
  ∃ s w₁ w₂, Yields (scenario fs path) w s w₁ ∧
    Yields (document fs expectedPath (.expectedFile expectedPath) .expected Expectation.reader) w₁
      expected w₂ ∧
    Yields (simulate fs verbose maxCycles s) w₂ report w'

variable {verbose : Nat} {path expectedPath : String} {maxCycles : Option Nat}
  {expected diff : Expectation} {report : Report}

theorem Compares.yields_test
    (h : Compares fs verbose path expectedPath maxCycles w expected report w')
    (hdiff : expected.compare report.cores = none) :
    ∃ w'', Yields (test fs verbose path expectedPath maxCycles) w () w'' ∧
      w''.1 = printed w'.1 s!"Passed after {report.cycles} cycles\n" := by
  obtain ⟨s, w₁, w₂, hs, he, hr⟩ := h
  refine ⟨(printed w'.1 s!"Passed after {report.cycles} cycles\n",
    (StateT.run (fs.remove (diffPath expectedPath)) w'.2).2), ?_, rfl⟩
  refine hs.bind (he.bind (hr.bind ?_))
  dsimp only
  rw [hdiff]
  rfl

theorem Compares.fails_test
    (h : Compares fs verbose path expectedPath maxCycles w expected report w')
    (hdiff : expected.compare report.cores = some diff)
    (hwrite : Yields (writeDiff fs (diffPath expectedPath) (some diff)) w' () w'') :
    Fails (test fs verbose path expectedPath maxCycles) w (.differs diff.named expectedPath)
      w'' := by
  obtain ⟨s, w₁, w₂, hs, he, hr⟩ := h
  refine hs.fails_bind (he.fails_bind (hr.fails_bind ?_))
  dsimp only
  rw [hdiff]
  exact hwrite.fails_bind fails_throw

end Sequencer.Session

/-! The five parameters of a pulse.

    Envelope, phase, frequency, amplitude and configuration always travel together: as widths, as
    places in the instruction word, as values to write and as outputs. `Bundle α` holds one `α` for
    each of them, in that order. -/

namespace Sequencer

/-- One value for each parameter of a pulse. -/
structure Bundle (α : Type) where
  envWord : α
  phase : α
  freq : α
  amp : α
  cfg : α
  deriving DecidableEq, Repr, Inhabited

namespace Bundle

variable {α β γ : Type}

/-- The same value for every parameter. -/
def fill (a : α) : Bundle α := ⟨a, a, a, a, a⟩

def map (f : α → β) (b : Bundle α) : Bundle β :=
  ⟨f b.envWord, f b.phase, f b.freq, f b.amp, f b.cfg⟩

def zipWith (f : α → β → γ) (a : Bundle α) (b : Bundle β) : Bundle γ :=
  ⟨f a.envWord b.envWord, f a.phase b.phase, f a.freq b.freq, f a.amp b.amp, f a.cfg b.cfg⟩

/-- Compute every value, in order. -/
def sequence {m : Type → Type} [Monad m] (b : Bundle (m α)) : m (Bundle α) := do
  return ⟨← b.envWord, ← b.phase, ← b.freq, ← b.amp, ← b.cfg⟩

/-- The values in order. -/
def toList (b : Bundle α) : List α := [b.envWord, b.phase, b.freq, b.amp, b.cfg]

/-- Short names of the parameters, as the disassembly writes them. -/
def labels : Bundle String := ⟨"env", "phase", "freq", "amp", "cfg"⟩

/-- Names of the parameters as fields of a record. -/
def keys : Bundle String := ⟨"env_word", "phase", "freq", "amp", "cfg"⟩

/-- Names of the parameters in prose. -/
def titles : Bundle String := ⟨"Envelope word", "Phase", "Frequency", "Amplitude", "Config"⟩

@[simp] theorem toList_map (f : α → β) (b : Bundle α) : (b.map f).toList = b.toList.map f := rfl

end Bundle

end Sequencer

import Sequencer.Fault

/-! Taking apart computations that may fault or be refused.

    A computation returns when neither a fault nor a refusal cuts it short. Each lemma here says
    when one of its building blocks returns, so that the parts of a returned computation are read
    off from left to right. -/

namespace Sequencer

variable {α β : Type}

namespace Checked

@[simp] theorem pure_eq_ok (a : α) : (pure a : Checked α) = .ok a := rfl

@[simp] theorem ok_bind (a : α) (f : α → Checked β) : ((Except.ok a : Checked α) >>= f) = f a := rfl

/-- A sequence returns when its first part returns and the rest returns on that value. -/
theorem bind_eq_ok {x : Checked α} {f : α → Checked β} {b : β} :
    x >>= f = .ok b ↔ ∃ a, x = .ok a ∧ f a = .ok b := by
  cases x with
  | error e => simp [bind, Except.bind]
  | ok a => simp

theorem sub_eq_ok {a b n : Nat} : sub a b = .ok n ↔ n + b = a := by
  unfold sub
  split
  · rw [Except.ok.injEq]; omega
  · simp only [reduceCtorEq, false_iff]; omega

theorem succ64_eq_ok {n k : Nat} : succ64 n = .ok k ↔ n + 1 < 1 <<< 64 ∧ k = n + 1 := by
  rw [show (1 <<< 64 : Nat) = 0x10000000000000000 from rfl]
  unfold succ64
  split
  · rw [Except.ok.injEq]; omega
  · simp only [reduceCtorEq, false_iff]; omega

/-- A 32-bit counter below another has a next value. -/
theorem succ32_of_lt {n m : UInt32} (h : n < m) :
    succ32 n = .ok (n + 1) ∧ (n + 1).toNat = n.toNat + 1 := by
  have hlt := UInt32.lt_iff_toNat_lt.mp h
  have hmax := m.toNat_lt
  have hne : n ≠ 0xffffffff := by
    rintro rfl
    have : (0xffffffff : UInt32).toNat = 4294967295 := rfl
    omega
  refine ⟨if_neg hne, ?_⟩
  rw [UInt32.toNat_add]
  exact Nat.mod_eq_of_lt (Nat.lt_of_le_of_lt hlt hmax)

/-- The mask of less than 32 bits fits into a word of 32. -/
theorem toNat_mask {n : Nat} (h : n < 32) : (1 <<< n - 1).toUInt32.toNat = 1 <<< n - 1 := by
  have hle : 1 <<< n ≤ 1 <<< 32 := by
    rw [Nat.one_shiftLeft, Nat.one_shiftLeft]
    exact Nat.pow_le_pow_right (by decide) (Nat.le_of_lt h)
  exact Nat.mod_eq_of_lt (Nat.lt_of_le_of_lt (Nat.sub_le_sub_right hle 1) (by decide))

theorem toNat_shiftRight (w : UInt32) {n : Nat} (h : n < 32) :
    (w >>> n.toUInt32).toNat = w.toNat >>> n := by
  rw [UInt32.toNat_shiftRight, Nat.toUInt32, UInt32.toNat_ofNat',
    Nat.mod_mod_of_dvd _ (by decide), Nat.mod_eq_of_lt h]

/-- A bit of a word as a number. -/
theorem shiftRight_and_one (w : UInt32) {n : Nat} (h : n < 32) :
    (w >>> n.toUInt32) &&& 1 = (w.toNat.testBit n).toUInt32 := by
  rw [← UInt32.toNat_inj, UInt32.toNat_and, toNat_shiftRight w h, Nat.testBit, UInt32.toNat_one,
    Nat.and_one_is_mod, Nat.one_and_eq_mod_two]
  rcases Nat.mod_two_eq_zero_or_one (w.toNat >>> n) with hz | hz <;> rw [hz] <;> rfl

theorem get_eq_ok {l : List α} {i : Nat} {a : α} : get l i = .ok a ↔ l[i]? = some a := by
  unfold get
  split <;> simp_all

/-- A list of computations returns the list of their results. -/
theorem mapM_eq_ok {f : α → Checked β} :
    ∀ {l : List α} {l' : List β}, l.mapM f = .ok l' →
    l'.length = l.length ∧ ∀ (i : Nat) a, l[i]? = some a → ∃ b, l'[i]? = some b ∧ f a = .ok b
  | [], l', h => by
    obtain rfl : [] = l' := Except.ok.inj h
    exact ⟨rfl, nofun⟩
  | a :: l, l', h => by
    rw [List.mapM_cons] at h
    obtain ⟨b, hb, h⟩ := bind_eq_ok.mp h
    obtain ⟨bs, hbs, h⟩ := bind_eq_ok.mp h
    obtain rfl : b :: bs = l' := Except.ok.inj h
    obtain ⟨hlength, hget⟩ := mapM_eq_ok hbs
    refine ⟨congrArg (· + 1) hlength, fun i a' ha => ?_⟩
    cases i with
    | zero =>
      obtain rfl : a = a' := Option.some.inj ha
      exact ⟨b, rfl, hb⟩
    | succ i => exact hget i a' ha

theorem mem_mapM {f : α → Checked β} {l : List α} {l' : List β} (h : l.mapM f = .ok l') {b : β}
    (hb : b ∈ l') : ∃ a ∈ l, f a = .ok b := by
  obtain ⟨hlength, hget⟩ := mapM_eq_ok h
  obtain ⟨i, hi⟩ := List.mem_iff_getElem?.mp hb
  have hlt : i < l.length := hlength ▸ (List.getElem?_eq_some_iff.mp hi).1
  obtain ⟨b', hb', hf⟩ := hget i _ (List.getElem?_eq_getElem hlt)
  obtain rfl := Option.some.inj (hi.symm.trans hb')
  exact ⟨_, List.getElem_mem hlt, hf⟩

theorem exists_mapM {f : α → Checked β} :
    ∀ {l : List α}, (∀ a ∈ l, ∃ b, f a = .ok b) → ∃ l', l.mapM f = .ok l'
  | [], _ => ⟨[], rfl⟩
  | a :: l, h => by
    obtain ⟨b, hb⟩ := h a (by simp)
    obtain ⟨l', hl'⟩ := exists_mapM fun a' ha => h a' (List.mem_cons_of_mem a ha)
    exact ⟨b :: l', by rw [List.mapM_cons, hb, ok_bind, hl', ok_bind, pure_eq_ok]⟩

/-- A list of computations that all return gives the list of what they return. -/
theorem mapM_of_ok {f : α → Checked β} {g : α → β} {l : List α} (h : ∀ a ∈ l, f a = .ok (g a)) :
    l.mapM f = .ok (l.map g) := by
  induction l with
  | nil => rfl
  | cons a l ih =>
    rw [List.forall_mem_cons] at h
    rw [List.mapM_cons, h.1, ok_bind, ih h.2, ok_bind, pure_eq_ok, List.map_cons]

/-! ### Two computations side by side -/

/-- Both computations fault alike, or both return, with related results. -/
inductive Alike (R : α → β → Prop) : Checked α → Checked β → Prop
  | fault (e : Fault) : Alike R (.error e) (.error e)
  | ok {a : α} {b : β} : R a b → Alike R (.ok a) (.ok b)

namespace Alike

variable {γ δ : Type} {R : α → β → Prop} {S : γ → δ → Prop} {x : Checked α} {y : Checked β}

theorem refl (x : Checked α) : Alike Eq x x := by
  cases x with
  | error e => exact .fault e
  | ok a => exact .ok rfl

theorem bind {f : α → Checked γ} {g : β → Checked δ} (h : Alike R x y)
    (hf : ∀ a b, R a b → Alike S (f a) (g b)) : Alike S (x >>= f) (y >>= g) := by
  cases h with
  | fault e => exact .fault e
  | ok hab => exact hf _ _ hab

/-- Related results are the results. -/
theorem with_results (h : Alike R x y) :
    Alike (fun a b => R a b ∧ x = .ok a ∧ y = .ok b) x y := by
  cases h with
  | fault e => exact .fault e
  | ok hab => exact .ok ⟨hab, rfl, rfl⟩

/-- When the second result always follows from the first, so does the second computation. -/
theorem bind_eq {f : α → Checked β} (h : Alike (fun a b => f a = .ok b) x y) : x >>= f = y := by
  cases h with
  | fault e => rfl
  | ok hab => exact hab

end Alike

end Checked

namespace Attempt

variable {ε ε' : Type}

/-- A sequence succeeds when its first part succeeds and the rest succeeds on that value. -/
theorem bind_eq_pure {x : Attempt ε α} {f : α → Attempt ε β} {b : β} :
    x >>= f = pure b ↔ ∃ a, x = pure a ∧ f a = pure b := by
  constructor
  · intro h
    match x with
    | .error _ => cases h
    | .ok (.error _) => cases h
    | .ok (.ok a) => exact ⟨a, rfl, h⟩
  · rintro ⟨a, rfl, h⟩
    exact h

theorem pure_inj {a b : α} : (pure a : Attempt ε α) = pure b ↔ a = b :=
  ⟨fun h => Except.ok.inj (Except.ok.inj h), fun h => h ▸ rfl⟩

theorem throw_ne_pure (e : ε) (a : α) : (throw e : Attempt ε α) ≠ pure a := nofun

theorem liftM_eq_pure {x : Checked α} {a : α} : (liftM x : Attempt ε α) = pure a ↔ x = .ok a := by
  cases x with
  | error e => exact ⟨nofun, nofun⟩
  | ok b => exact ⟨fun h => congrArg _ (pure_inj.mp h), fun h => pure_inj.mpr (Except.ok.inj h)⟩

theorem liftM_ok_bind (a : α) (f : α → Attempt ε β) :
    ((liftM (Except.ok a : Checked α) : Attempt ε α) >>= f) = f a := rfl

theorem adapt_eq_pure {f : ε → ε'} {x : Attempt ε α} {a : α} :
    x.adapt f = pure a ↔ x = pure a := by
  match x with
  | .error _ => exact ⟨nofun, nofun⟩
  | .ok (.error _) => exact ⟨nofun, nofun⟩
  | .ok (.ok b) =>
    exact ⟨fun h => pure_inj.mpr (pure_inj.mp h), fun h => pure_inj.mpr (pure_inj.mp h)⟩

theorem accepted_eq_pure {x : Checked (α × Except ε Unit)} {a : α} :
    accepted x = pure a ↔ x = .ok (a, .ok ()) := by
  match x with
  | .error _ => exact ⟨nofun, nofun⟩
  | .ok (_, .error _) => exact ⟨nofun, nofun⟩
  | .ok (b, .ok ()) => exact ⟨fun h => pure_inj.mp h ▸ rfl, fun h => Except.ok.inj h ▸ rfl⟩

/-- The computation does not fault; it may be refused. -/
def Returns (x : Attempt ε α) : Prop := ∃ r, x.run = .ok r

theorem returns_pure (a : α) : Returns (pure a : Attempt ε α) := ⟨_, rfl⟩

theorem returns_throw (e : ε) : Returns (throw e : Attempt ε α) := ⟨_, rfl⟩

theorem returns_liftM {x : Checked α} {a : α} (h : x = .ok a) : Returns (liftM x : Attempt ε α) :=
  h ▸ returns_pure a

/-- A sequence returns when its first part is refused, or succeeds with a value on which the rest
    returns. -/
theorem Returns.bind {x : Attempt ε α} {f : α → Attempt ε β} (hx : Returns x)
    (hf : ∀ a, x = pure a → Returns (f a)) : Returns (x >>= f) := by
  obtain ⟨r, hr⟩ := hx
  cases r with
  | error e =>
    obtain rfl : x = throw e := hr
    exact returns_throw e
  | ok a =>
    obtain rfl : x = pure a := hr
    exact hf a rfl

theorem Returns.adapt {x : Attempt ε α} (hx : Returns x) (f : ε → ε') : Returns (x.adapt f) := by
  obtain ⟨r, hr⟩ := hx
  cases r with
  | error e =>
    obtain rfl : x = throw e := hr
    exact returns_throw (f e)
  | ok a =>
    obtain rfl : x = pure a := hr
    exact returns_pure a

end Attempt

/-! ### Requirements -/

/-- A condition on a request, with the reason to refuse one that does not meet it. -/
structure Requirement (ε : Type) where
  met : Bool
  error : ε

variable {ε : Type}

namespace Requirement

/-- The error of the first requirement that is not met. -/
def firstError : List (Requirement ε) → Option ε
  | [] => none
  | r :: rs => if r.met then firstError rs else some r.error

@[simp] theorem firstError_cons_of_met {r : Requirement ε} (h : r.met = true)
    (rs : List (Requirement ε)) : firstError (r :: rs) = firstError rs := if_pos h

theorem firstError_cons_of_not_met {r : Requirement ε} (h : r.met = false)
    (rs : List (Requirement ε)) : firstError (r :: rs) = some r.error := by
  rw [firstError, h]
  rfl

/-- Requirements that are all met can be left out in front of others. -/
theorem firstError_append_of_met {rs : List (Requirement ε)} (h : ∀ r ∈ rs, r.met = true)
    (ss : List (Requirement ε)) : firstError (rs ++ ss) = firstError ss := by
  induction rs with
  | nil => rfl
  | cons r rs ih =>
    rw [List.forall_mem_cons] at h
    rw [List.cons_append, firstError_cons_of_met h.1, ih h.2]

theorem firstError_eq_none {rs : List (Requirement ε)} :
    firstError rs = none ↔ ∀ r ∈ rs, r.met = true := by
  induction rs with
  | nil => simp [firstError]
  | cons r rs ih =>
    rw [List.forall_mem_cons]
    cases hr : r.met with
    | true => simp [hr, ih]
    | false => simp [firstError, hr]

theorem exists_of_firstError {rs : List (Requirement ε)} {e : ε} (h : firstError rs = some e) :
    ∃ r ∈ rs, r.error = e := by
  induction rs with
  | nil => cases h
  | cons r rs ih =>
    cases hr : r.met with
    | true =>
      rw [firstError_cons_of_met hr] at h
      obtain ⟨r', hr', he⟩ := ih h
      exact ⟨r', List.mem_cons_of_mem r hr', he⟩
    | false =>
      rw [firstError_cons_of_not_met hr] at h
      exact ⟨r, List.mem_cons_self, Option.some.inj h⟩

end Requirement

namespace Attempt

/-- The computation succeeds when every requirement is met, and otherwise is refused for the first
    one that is not. -/
structure Requires (x : Attempt ε α) (rs : List (Requirement ε)) : Prop where
  succeeds : Requirement.firstError rs = none → ∃ a, x = pure a
  refused : ∀ e, Requirement.firstError rs = some e → x = throw e

variable {x : Attempt ε α} {rs : List (Requirement ε)}

theorem requires_of_pure {a : α} (h : Requirement.firstError rs = none) (hx : x = pure a) :
    x.Requires rs :=
  ⟨fun _ => ⟨a, hx⟩, fun e he => absurd (h.symm.trans he) (by simp)⟩

theorem requires_of_throw {e : ε} (h : Requirement.firstError rs = some e) (hx : x = throw e) :
    x.Requires rs := by
  refine ⟨fun hnone => absurd (h.symm.trans hnone) (by simp), fun e' he' => ?_⟩
  obtain rfl := Option.some.inj (h.symm.trans he')
  exact hx

/-- A check in front of a computation puts its requirement in front. -/
theorem requires_check {r : Requirement ε} {c : Prop} [Decidable c] {y : Attempt ε α}
    (hmet : r.met = true ↔ ¬ c) (hy : y = throw r.error) (hx : ¬ c → x.Requires rs) :
    (if c then y else x).Requires (r :: rs) := by
  by_cases hc : c
  · have hbroken : r.met = false := by rw [Bool.eq_false_iff, ne_eq, hmet]; exact fun h => h hc
    rw [if_pos hc]
    exact requires_of_throw (Requirement.firstError_cons_of_not_met hbroken rs) hy
  · have hfirst := Requirement.firstError_cons_of_met (hmet.mpr hc) rs
    rw [if_neg hc]
    exact ⟨fun hnone => (hx hc).succeeds (hfirst.symm.trans hnone),
      fun e he => (hx hc).refused e (hfirst.symm.trans he)⟩

namespace Requires

theorem exists_pure_iff (h : x.Requires rs) :
    (∃ a, x = pure a) ↔ Requirement.firstError rs = none := by
  refine ⟨fun ⟨a, ha⟩ => ?_, h.succeeds⟩
  cases he : Requirement.firstError rs with
  | none => rfl
  | some e => exact absurd ((h.refused e he).symm.trans ha) (throw_ne_pure e a)

theorem eq_throw_iff (h : x.Requires rs) (e : ε) :
    x = throw e ↔ Requirement.firstError rs = some e := by
  refine ⟨fun hx => ?_, h.refused e⟩
  cases he : Requirement.firstError rs with
  | none =>
    obtain ⟨a, ha⟩ := h.succeeds he
    exact absurd (hx.symm.trans ha) (throw_ne_pure e a)
  | some e' =>
    have heq : (throw e : Attempt ε α) = throw e' := hx.symm.trans (h.refused e' he)
    exact congrArg some (Except.error.inj (Except.ok.inj heq)).symm

/-- Only the first error counts. -/
theorem congr (h : x.Requires rs) {ss : List (Requirement ε)}
    (heq : Requirement.firstError rs = Requirement.firstError ss) : x.Requires ss :=
  ⟨fun hnone => h.succeeds (heq.trans hnone), fun e he => h.refused e (heq.trans he)⟩

theorem returns (h : x.Requires rs) : Returns x := by
  cases he : Requirement.firstError rs with
  | none =>
    obtain ⟨a, rfl⟩ := h.succeeds he
    exact returns_pure a
  | some e =>
    rw [h.refused e he]
    exact returns_throw e

end Requires

end Attempt

end Sequencer

import Mathlib
import Sequencer.Program

/-! Numbers as programs spell them.

    A numeral is a run of hexadecimal digits with underscores anywhere among them, behind the mark
    `0x` or without it (`Numeral`). What is read as a number is more: the mark may be repeated, and
    a plus sign may stand before the digits (`Reads`). `wordOf_eq_ok` says that a word is read
    exactly from such a text if its number has at most as many bits as an instruction, and
    `numeral_iff_reads` that the numerals are the texts among these that have no sign and no second
    mark. -/

namespace Sequencer

/-! ### Digits -/

namespace Text

/-- `c` is the hexadecimal digit of value `d`, in lower or in upper case. -/
def IsHexDigit (c : Char) (d : Nat) : Prop := d < 16 ∧ (c = d.digitChar ∨ c = d.digitChar.toUpper)

instance (c : Char) (d : Nat) : Decidable (IsHexDigit c d) := inferInstanceAs (Decidable (_ ∧ _))

theorem toNat_lt_of_hexValue? {c : Char} {d : Nat} (h : hexValue? c = some d) : c.toNat < 103 := by
  have hle (b : Char) : c ≤ b ↔ c.toNat ≤ b.toNat := Iff.rfl
  simp only [hexValue?, Bool.and_eq_true, decide_eq_true_eq, hle] at h
  split at h
  case isTrue hc =>
    have hnine : '9'.toNat = 57 := rfl
    omega
  split at h
  case isTrue hc =>
    have hf : 'f'.toNat = 102 := rfl
    omega
  split at h
  case isTrue hc =>
    have hF : 'F'.toNat = 70 := rfl
    omega
  · cases h

theorem hexValue?_eq_some {c : Char} {d : Nat} : hexValue? c = some d ↔ IsHexDigit c d := by
  constructor
  · intro h
    have hall : ∀ n : Fin 103, ∀ d ∈ hexValue? (Char.ofNat n), IsHexDigit (Char.ofNat n) d := by
      decide
    have hc := hall ⟨c.toNat, toNat_lt_of_hexValue? h⟩ d
    simp only [Char.ofNat_toNat] at hc
    exact hc h
  · have hall : ∀ d : Fin 16, hexValue? d.val.digitChar = some d.val ∧
        hexValue? d.val.digitChar.toUpper = some d.val := by
      decide
    rintro ⟨hd, rfl | rfl⟩
    · exact (hall ⟨d, hd⟩).1
    · exact (hall ⟨d, hd⟩).2

theorem not_isHexDigit {c : Char} {d : Nat} (h : hexValue? c = none) : ¬ IsHexDigit c d := by
  rw [← hexValue?_eq_some, h]
  exact Option.some_ne_none d ∘ Eq.symm

/-- The number that digits spell, the most significant first. -/
def ofHexDigits (ds : List Nat) : Nat := Nat.ofDigits 16 ds.reverse

theorem ofHexDigits_append (ds ds' : List Nat) :
    ofHexDigits (ds ++ ds') = ofHexDigits ds * 16 ^ ds'.length + ofHexDigits ds' := by
  rw [ofHexDigits, List.reverse_append, Nat.ofDigits_append, List.length_reverse]
  simp only [ofHexDigits]
  ring

theorem ofHexDigits_singleton (d : Nat) : ofHexDigits [d] = d := by
  simp [ofHexDigits]

theorem ofHexDigits_le_append (ds ds' : List Nat) : ofHexDigits ds ≤ ofHexDigits (ds ++ ds') := by
  rw [ofHexDigits_append]
  have hpos : 1 ≤ 16 ^ ds'.length := Nat.one_le_pow _ _ (by decide)
  exact (Nat.le_mul_of_pos_right _ hpos).trans (Nat.le_add_right _ _)

theorem ofHexDigits_replicate_zero (k : Nat) (ds : List Nat) :
    ofHexDigits (List.replicate k 0 ++ ds) = ofHexDigits ds := by
  induction k with
  | zero => rfl
  | succ k ih =>
    rw [List.replicate_succ, List.cons_append, ← List.singleton_append, ofHexDigits_append,
      ofHexDigits_singleton, ih, Nat.zero_mul, Nat.zero_add]

/-- The digits of a number spell it. -/
theorem exists_hexDigits (n : Nat) :
    ∃ ds, List.Forall₂ IsHexDigit (Nat.toDigits 16 n) ds ∧ ofHexDigits ds = n := by
  induction n using Nat.strongRecOn with
  | ind n ih =>
    rw [Nat.toDigits_eq_if (by decide)]
    split
    case isTrue hn => exact ⟨[n], .cons ⟨hn, .inl rfl⟩ .nil, ofHexDigits_singleton n⟩
    case isFalse hn =>
      obtain ⟨ds, hds, hvalue⟩ := ih (n / 16) (Nat.div_lt_self (by omega) (by decide))
      have hlast : IsHexDigit (n % 16).digitChar (n % 16) :=
        ⟨Nat.mod_lt n (by decide), .inl rfl⟩
      refine ⟨ds ++ [n % 16], List.rel_append hds (.cons hlast .nil), ?_⟩
      rw [ofHexDigits_append, hvalue, ofHexDigits_singleton, List.length_singleton, pow_one]
      exact Nat.div_add_mod' n 16

end Text

namespace Program

open Text

/-- The text spells digits, with underscores anywhere among them. -/
inductive Spells : List Char → List Nat → Prop
  | nil : Spells [] []
  | underscore {text ds} : Spells text ds → Spells ('_' :: text) ds
  | digit {c d text ds} : IsHexDigit c d → Spells text ds → Spells (c :: text) (d :: ds)

/-- The text spells the number `n`: behind the mark `0x` or without it, and with a digit at
    least. -/
inductive Numeral : List Char → Nat → Prop
  | plain {text ds} : Spells text ds → ds ≠ [] → Numeral text (ofHexDigits ds)
  | marked {text ds} : Spells text ds → ds ≠ [] → Numeral ('0' :: 'x' :: text) (ofHexDigits ds)

/-- The text is read as the number `n`: behind any number of marks there are digits, or a plus sign,
    with underscores before it or not, and then digits. -/
inductive Reads : List Char → Nat → Prop
  | plain {text ds} : Spells text ds → ds ≠ [] → Reads text (ofHexDigits ds)
  | signed {us text ds} : (∀ u ∈ us, u = '_') → Spells text ds → ds ≠ [] →
      Reads (us ++ '+' :: text) (ofHexDigits ds)
  | marked {text n} : Reads text n → Reads ('0' :: 'x' :: text) n

variable {text : List Char} {ds : List Nat} {c : Char} {n : Nat}

theorem spells_iff :
    Spells text ds ↔ List.Forall₂ IsHexDigit (text.filter (· ≠ '_')) ds := by
  constructor
  · intro h
    induction h with
    | nil => exact .nil
    | underscore _ ih => simpa using ih
    | @digit c d text ds hd _ ih =>
      have hc : c ≠ '_' := by
        rintro rfl
        exact not_isHexDigit rfl hd
      rw [List.filter_cons_of_pos (by simpa using hc)]
      exact .cons hd ih
  · intro h
    induction text generalizing ds with
    | nil =>
      cases h
      exact .nil
    | cons c text ih =>
      by_cases hc : c = '_'
      · subst hc
        exact .underscore (ih (by simpa using h))
      · rw [List.filter_cons_of_pos (by simpa using hc)] at h
        cases h with
        | cons hd h => exact .digit hd (ih h)

theorem Spells.mem (h : Spells text ds) (hc : c ∈ text) : c = '_' ∨ ∃ d, IsHexDigit c d := by
  induction h with
  | nil => cases hc
  | underscore _ ih =>
    rcases List.mem_cons.mp hc with rfl | hc
    · exact .inl rfl
    · exact ih hc
  | digit hd _ ih =>
    rcases List.mem_cons.mp hc with rfl | hc
    · exact .inr ⟨_, hd⟩
    · exact ih hc

/-- Only digits and underscores stand in a numeral. -/
theorem Spells.notMem (h : Spells text ds) (hc : hexValue? c = none) (hne : c ≠ '_') :
    c ∉ text := by
  intro hmem
  rcases h.mem hmem with rfl | ⟨d, hd⟩
  · exact hne rfl
  · exact not_isHexDigit hc hd

/-! ### What is read -/

/-- Digits are appended as long as the number keeps to 128 bits. A number that has left them would
    not come back. -/
theorem appendDigits_eq_ok {p : List Nat} (hp : ofHexDigits p < 2 ^ 128) :
    appendDigits (ofHexDigits p) text = .ok n ↔
      n < 2 ^ 128 ∧ ∃ ds, List.Forall₂ IsHexDigit text ds ∧ ofHexDigits (p ++ ds) = n := by
  induction text generalizing p with
  | nil =>
    simp only [appendDigits, Except.ok.injEq, List.forall₂_nil_left_iff, exists_eq_left,
      List.append_nil]
    constructor
    · rintro rfl
      exact ⟨hp, rfl⟩
    · rintro ⟨-, rfl⟩
      rfl
  | cons c text ih =>
    rw [appendDigits]
    cases hc : hexValue? c with
    | none =>
      simp only [reduceCtorEq, false_iff, not_and]
      rintro - ⟨ds, hds, -⟩
      cases hds with
      | cons hd _ => exact not_isHexDigit hc hd
    | some d =>
      have hd : IsHexDigit c d := hexValue?_eq_some.mp hc
      have hnext : ofHexDigits p * 16 + d = ofHexDigits (p ++ [d]) := by
        rw [ofHexDigits_append, ofHexDigits_singleton, List.length_singleton, pow_one]
      -- the digits behind this one are those of a text that begins with it
      have hrest : (∃ ds, List.Forall₂ IsHexDigit (c :: text) ds ∧ ofHexDigits (p ++ ds) = n) ↔
          ∃ ds, List.Forall₂ IsHexDigit text ds ∧ ofHexDigits (p ++ [d] ++ ds) = n := by
        constructor
        · rintro ⟨ds, hds, hvalue⟩
          cases hds with
          | cons hd' hds =>
            obtain rfl := Option.some.inj (hc.symm.trans (hexValue?_eq_some.mpr hd'))
            exact ⟨_, hds, by simpa using hvalue⟩
        · rintro ⟨ds, hds, hvalue⟩
          exact ⟨d :: ds, .cons hd hds, by simpa using hvalue⟩
      simp only [hnext, Nat.shiftLeft_eq, one_mul]
      split
      case isTrue hlt => rw [ih hlt, hrest]
      case isFalse hlarge =>
        simp only [reduceCtorEq, false_iff, not_and, hrest]
        rintro hn ⟨ds, -, rfl⟩
        exact hlarge ((ofHexDigits_le_append _ ds).trans_lt hn)

/-- Numbers are digits, or a sign and digits. -/
theorem digitsValue_eq_ok : digitsValue text = .ok n ↔ n < 2 ^ 128 ∧
    ∃ ds, ds ≠ [] ∧ ofHexDigits ds = n ∧
      (List.Forall₂ IsHexDigit text ds ∨
        ∃ rest, text = '+' :: rest ∧ List.Forall₂ IsHexDigit rest ds) := by
  have happend (text : List Char) : appendDigits 0 text = .ok n ↔ n < 2 ^ 128 ∧
      ∃ ds, List.Forall₂ IsHexDigit text ds ∧ ofHexDigits ds = n :=
    appendDigits_eq_ok (p := []) (by decide)
  have hplus {d : Nat} : ¬ IsHexDigit '+' d := not_isHexDigit rfl
  have hne {c : Char} {text : List Char} {ds : List Nat}
      (h : List.Forall₂ IsHexDigit (c :: text) ds) : ds ≠ [] := by
    cases h
    exact List.cons_ne_nil _ _
  fun_cases digitsValue text with
  | case1 => simp [List.forall₂_nil_left_iff]
  | case2 =>
    simp only [reduceCtorEq, false_iff, not_and]
    rintro - ⟨ds, hds, -, h | ⟨rest, hrest, h⟩⟩
    · cases h with
      | cons hd _ => exact hplus hd
    · obtain rfl : [] = rest := (List.cons.inj hrest).2
      exact hds (List.forall₂_nil_left_iff.mp h)
  | case3 cs hcs =>
    rw [happend]
    refine and_congr_right fun _ => exists_congr fun ds => ?_
    constructor
    · rintro ⟨h, hvalue⟩
      cases cs with
      | nil => exact absurd rfl hcs
      | cons c cs => exact ⟨hne h, hvalue, .inr ⟨_, rfl, h⟩⟩
    · rintro ⟨-, hvalue, h | ⟨rest, hrest, h⟩⟩
      · cases h with
        | cons hd _ => exact absurd hd hplus
      · obtain rfl := (List.cons.inj hrest).2
        exact ⟨h, hvalue⟩
  | case4 _ hnil _ hsigned =>
    rw [happend]
    refine and_congr_right fun _ => exists_congr fun ds => ?_
    constructor
    · rintro ⟨h, hvalue⟩
      cases text with
      | nil => exact absurd rfl hnil
      | cons c text => exact ⟨hne h, hvalue, .inl h⟩
    · rintro ⟨-, hvalue, h | ⟨rest, hrest, -⟩⟩
      · exact ⟨h, hvalue⟩
      · exact absurd hrest (hsigned rest)

/-- A mark changes nothing about what is read: no digit and no sign begins with one. -/
theorem reads_marked_iff : Reads ('0' :: 'x' :: text) n ↔ Reads text n := by
  constructor
  · intro h
    generalize hmarked : '0' :: 'x' :: text = marked at h
    cases h with
    | plain hspells _ =>
      refine absurd ?_ (hspells.notMem (c := 'x') rfl (by decide))
      rw [← hmarked]
      simp
    | @signed us _ _ hus _ _ =>
      cases us with
      | nil => exact absurd (List.cons.inj hmarked).1 (by decide)
      | cons u us =>
        have hu : u = '_' := hus u List.mem_cons_self
        exact absurd ((List.cons.inj hmarked).1.trans hu) (by decide)
    | marked h =>
      obtain rfl := (List.cons.inj (List.cons.inj hmarked).2).2
      exact h
  · exact .marked

/-- Without a mark in front, digits are read, or a sign and digits. -/
theorem reads_iff_of_unmarked (hunmarked : ∀ rest, text ≠ '0' :: 'x' :: rest) :
    Reads text n ↔ ∃ ds, ds ≠ [] ∧ ofHexDigits ds = n ∧
      (List.Forall₂ IsHexDigit (text.filter (· ≠ '_')) ds ∨
        ∃ rest, text.filter (· ≠ '_') = '+' :: rest ∧ List.Forall₂ IsHexDigit rest ds) := by
  constructor
  · intro h
    cases h with
    | plain hspells hds => exact ⟨_, hds, rfl, .inl (spells_iff.mp hspells)⟩
    | signed hus hspells hds =>
      refine ⟨_, hds, rfl, .inr ⟨_, ?_, spells_iff.mp hspells⟩⟩
      rw [List.filter_append, List.filter_eq_nil_iff.mpr (by simpa using hus), List.nil_append,
        List.filter_cons_of_pos (by decide)]
    | marked _ => exact absurd rfl (hunmarked _)
  · rintro ⟨ds, hds, rfl, h | ⟨rest, hrest, h⟩⟩
    · exact .plain (spells_iff.mpr h) hds
    · obtain ⟨us, rest', rfl, hus, -, rfl⟩ := List.filter_eq_cons_iff.mp hrest
      exact .signed (by simpa using hus) (spells_iff.mpr h) hds

theorem digitsValue_unmarked_eq_ok :
    digitsValue ((unmarked text).filter (· ≠ '_')) = .ok n ↔ n < 2 ^ 128 ∧ Reads text n := by
  fun_induction unmarked text with
  | case1 text ih => rw [ih, reads_marked_iff]
  | case2 text hunmarked => rw [digitsValue_eq_ok, reads_iff_of_unmarked hunmarked]

/-- A word is read exactly from a text that is read as a number of at most `instr` bits. -/
theorem wordOf_eq_ok {instr : Nat} {w : Word} (hinstr : instr ≤ 128) :
    wordOf instr text = .ok w ↔ Reads text w.toNat ∧ w.toNat < 2 ^ instr := by
  have hpow : 2 ^ instr ≤ 2 ^ 128 := Nat.pow_le_pow_right (by decide) hinstr
  have hvalue (n : Nat) : digitsValue ((unmarked text).filter (· ≠ '_')) = .ok n ↔
      n < 2 ^ 128 ∧ Reads text n := digitsValue_unmarked_eq_ok
  rw [wordOf]
  cases h : digitsValue ((unmarked text).filter (· ≠ '_')) with
  | error e =>
    simp only [reduceCtorEq, false_iff, not_and]
    intro hreads
    have hok := (hvalue w.toNat).mpr ⟨w.isLt, hreads⟩
    rw [h] at hok
    cases hok
  | ok n =>
    obtain ⟨hn, hreads⟩ := (hvalue n).mp h
    -- there is one number only that the text is read as
    have hunique : Reads text w.toNat → w.toNat = n := by
      intro hw
      have hok := (hvalue w.toNat).mpr ⟨w.isLt, hw⟩
      exact (Except.ok.inj (h.symm.trans hok)).symm
    simp only [Nat.shiftLeft_eq, one_mul]
    split
    case isTrue hwide =>
      simp only [reduceCtorEq, false_iff, not_and]
      intro hw
      have := hunique hw
      omega
    case isFalse hnarrow =>
      rw [Except.ok.injEq]
      constructor
      · rintro rfl
        rw [BitVec.toNat_ofNat, Nat.mod_eq_of_lt hn]
        refine ⟨hreads, ?_⟩
        rcases hinstr.lt_or_eq with hlt | rfl
        · omega
        · exact hn
      · rintro ⟨hw, -⟩
        rw [← hunique hw, BitVec.ofNat_toNat, BitVec.setWidth_eq]

/-! ### Numerals among what is read -/

theorem Numeral.reads (h : Numeral text n) : Reads text n := by
  cases h with
  | plain hspells hds => exact .plain hspells hds
  | marked hspells hds => exact .marked (.plain hspells hds)

theorem not_reads_nil : ¬ Reads [] n := by
  rw [reads_iff_of_unmarked (by simp)]
  rintro ⟨ds, hds, -, h | ⟨rest, hrest, -⟩⟩
  · exact hds (List.forall₂_nil_left_iff.mp h)
  · cases hrest

/-- The mark is repeated. -/
def Remarked (text : List Char) : Prop := ['0', 'x', '0', 'x'] <+: text

instance (text : List Char) : Decidable (Remarked text) := inferInstanceAs (Decidable (_ <+: _))

/-- The numerals are what is read without a sign and without a second mark. -/
theorem numeral_iff_reads : Numeral text n ↔ Reads text n ∧ '+' ∉ text ∧ ¬ Remarked text := by
  have hplus {text : List Char} {ds : List Nat} (h : Spells text ds) : '+' ∉ text :=
    h.notMem rfl (by decide)
  have hx {text : List Char} {ds : List Nat} (h : Spells text ds) : 'x' ∉ text :=
    h.notMem rfl (by decide)
  constructor
  · intro h
    refine ⟨h.reads, ?_, ?_⟩
    · cases h with
      | plain hspells _ => exact hplus hspells
      | marked hspells _ => simpa using hplus hspells
    · rintro ⟨rest, rfl⟩
      cases h with
      | plain hspells _ => exact hx hspells (by simp)
      | marked hspells _ => exact hx hspells (by simp)
  · rintro ⟨h, hsign, hremarked⟩
    cases h with
    | plain hspells hds => exact .plain hspells hds
    | signed _ _ _ => exact absurd (by simp) hsign
    | marked h =>
      cases h with
      | plain hspells hds => exact .marked hspells hds
      | signed _ _ _ => exact absurd (by simp) hsign
      | marked _ => exact absurd (List.prefix_append _ _) hremarked

end Program

end Sequencer

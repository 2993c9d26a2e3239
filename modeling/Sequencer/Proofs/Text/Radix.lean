import Mathlib
import Sequencer.Text.Radix

/-! Numbers can be told from their text.

    The digits of a number determine it in every base up to 16, padded with zeros or not, and a data
    word is determined by its signed reading. No character of a number is a space, so a text that
    is put together from words with spaces between them determines its words (`joined_inj`). -/

namespace Sequencer.Text

/-! ### Digits -/

theorem digitChar_inj {m n : Nat} (hm : m < 16) (hn : n < 16) :
    m.digitChar = n.digitChar ↔ m = n := by
  have hall : ∀ i : Fin 16, ∀ j : Fin 16, i.val.digitChar = j.val.digitChar → i = j := by decide
  refine ⟨fun h => ?_, congrArg Nat.digitChar⟩
  exact congrArg Fin.val (hall ⟨m, hm⟩ ⟨n, hn⟩ h)

theorem toDigits_injective {b : Nat} (hb : 1 < b) (hle : b ≤ 16) :
    Function.Injective b.toDigits := by
  intro m
  induction m using Nat.strongRecOn with
  | ind m ih =>
    intro n h
    rw [Nat.toDigits_eq_if hb, Nat.toDigits_eq_if (n := n) hb] at h
    split at h <;> split at h
    · exact (digitChar_inj (by omega) (by omega)).mp (List.singleton_inj.mp h)
    · exact absurd (List.append_eq_singleton_iff.mp h.symm) (by simp [Nat.toDigits_ne_nil])
    · exact absurd (List.append_eq_singleton_iff.mp h) (by simp [Nat.toDigits_ne_nil])
    case isFalse.isFalse hm _ =>
      obtain ⟨hinit, hlast⟩ := List.append_inj' h rfl
      have hdiv : m / b = n / b := ih (m / b) (Nat.div_lt_self (by omega) hb) hinit
      have hmod : m % b = n % b :=
        (digitChar_inj ((Nat.mod_lt m (by omega)).trans_le hle)
          ((Nat.mod_lt n (by omega)).trans_le hle)).mp (List.singleton_inj.mp hlast)
      rw [← Nat.div_add_mod m b, hdiv, hmod, Nat.div_add_mod]

theorem notMem_toDigits {b : Nat} {c : Char} (hb : 1 < b) (hc : ∀ d : Nat, d.digitChar ≠ c)
    (n : Nat) : c ∉ b.toDigits n := by
  induction n using Nat.strongRecOn with
  | ind n ih =>
    rw [Nat.toDigits_eq_if hb]
    split
    · simpa using (hc n).symm
    · rw [List.mem_append, not_or, List.mem_singleton]
      exact ⟨ih _ (Nat.div_lt_self (by omega) hb), (hc _).symm⟩

theorem notMem_toString {c : Char} (hc : ∀ d : Nat, d.digitChar ≠ c) (n : Nat) :
    c ∉ (toString n).toList := by
  rw [Nat.toString_eq_ofList_toDigits, String.toList_ofList]
  exact notMem_toDigits (by decide) hc n

@[simp] theorem toString_inj {m n : Nat} : toString m = toString n ↔ m = n := by
  rw [Nat.toString_eq_repr, Nat.toString_eq_repr, Nat.repr_inj]

@[simp] theorem hex_inj {m n : Nat} : hex m = hex n ↔ m = n := by
  rw [hex, hex, String.append_right_inj, hexDigits, hexDigits, String.ofList_inj]
  exact (toDigits_injective (by decide) (by decide)).eq_iff

/-- Padding with zeros does not change the value of the digits. -/
@[simp] theorem binary_inj {width m n : Nat} : binary width m = binary width n ↔ m = n := by
  refine ⟨fun h => ?_, congrArg (binary width)⟩
  have hvalue (k : Nat) :
      Nat.ofDigitChars 2 (padLeft width '0' (String.ofList (Nat.toDigits 2 k))).toList 0 = k := by
    rw [padLeft, String.toList_append, String.toList_ofList, String.toList_ofList,
      Nat.ofDigitChars_append, Nat.ofDigitChars_replicate_zero, Nat.mul_zero,
      Nat.ofDigitChars_toDigits (by decide) (by decide)]
  rw [binary, binary, String.append_right_inj] at h
  rw [← hvalue m, h, hvalue]

theorem notMem_signed {c : Char} (hc : ∀ d : Nat, d.digitChar ≠ c) (hminus : c ≠ '-') (x : UInt32) :
    c ∉ (signed x).toList := by
  unfold signed
  split
  · exact notMem_toString hc _
  · rw [String.toList_append, List.mem_append, not_or]
    exact ⟨by simpa using hminus, notMem_toString hc _⟩

/-- The sign tells the halves of the data words apart. -/
@[simp] theorem signed_inj {x y : UInt32} : signed x = signed y ↔ x = y := by
  refine ⟨fun h => ?_, congrArg signed⟩
  have hminus (n : Nat) : '-' ∉ (toString n).toList :=
    notMem_toString (fun _ => Nat.digitChar_ne '-' rfl) n
  have hne (m n : Nat) : "-" ++ toString m ≠ toString n := by
    intro heq
    refine hminus n ?_
    rw [← heq, String.toList_append]
    exact List.mem_append_left _ (List.mem_singleton.mpr rfl)
  unfold signed at h
  split at h <;> split at h
  · exact UInt32.toNat_inj.mp (toString_inj.mp h)
  · exact absurd h.symm (hne _ _)
  · exact absurd h (hne _ _)
  · have hsub := toString_inj.mp ((String.append_right_inj _).mp h)
    refine UInt32.toNat_inj.mp ?_
    have hx := x.toNat_lt
    have hy := y.toNat_lt
    omega

/-! ### Words -/

/-- The text holds no space. -/
def NoSpace (s : String) : Prop := ' ' ∉ s.toList

instance (s : String) : Decidable (NoSpace s) := inferInstanceAs (Decidable (¬ _))

@[simp] theorem noSpace_append {s t : String} : NoSpace (s ++ t) ↔ NoSpace s ∧ NoSpace t := by
  simp only [NoSpace, String.toList_append, List.mem_append, not_or]

theorem digitChar_ne_space (d : Nat) : d.digitChar ≠ ' ' := Nat.digitChar_ne ' ' rfl

@[simp] theorem noSpace_toString (n : Nat) : NoSpace (toString n) :=
  notMem_toString digitChar_ne_space n

@[simp] theorem noSpace_hex (n : Nat) : NoSpace (hex n) := by
  refine noSpace_append.mpr ⟨by decide, ?_⟩
  rw [NoSpace, hexDigits, String.toList_ofList]
  exact notMem_toDigits (by decide) digitChar_ne_space n

@[simp] theorem noSpace_binary (width n : Nat) : NoSpace (binary width n) := by
  refine noSpace_append.mpr ⟨by decide, noSpace_append.mpr ⟨?_, ?_⟩⟩
  · rw [NoSpace, String.toList_ofList, List.mem_replicate]
    exact fun h => absurd h.2 (by decide)
  · rw [NoSpace, String.toList_ofList]
    exact notMem_toDigits (by decide) digitChar_ne_space n

@[simp] theorem noSpace_signed (x : UInt32) : NoSpace (signed x) :=
  notMem_signed digitChar_ne_space (by decide) x

/-- A text in a text stands there as it is. -/
@[simp] theorem toString_text (s : String) : toString s = s := rfl

/-- The words after the first one follow with a space before each. -/
theorem joined_cons (w : String) (ws : List String) :
    " ".intercalate (w :: ws) = w ++ String.join (ws.map (" " ++ ·)) := by
  induction ws generalizing w with
  | nil => rw [String.intercalate_singleton, List.map_nil, String.join_nil, String.append_empty]
  | cons v ws ih =>
    rw [String.intercalate_cons_cons, ih, List.map_cons, String.join_cons, String.append_assoc,
      String.append_assoc]

/-- A text of words determines the words. -/
theorem joined_inj {ws vs : List String} (hws : ∀ w ∈ ws, NoSpace w) (hvs : ∀ v ∈ vs, NoSpace v)
    (hne : ws ≠ []) (hne' : vs ≠ []) : " ".intercalate ws = " ".intercalate vs ↔ ws = vs := by
  refine ⟨fun h => ?_, congrArg _⟩
  have hsplit := String.toList_split_intercalate hws
  have hsplit' := String.toList_split_intercalate hvs
  rw [if_neg hne] at hsplit
  rw [if_neg hne'] at hsplit'
  rw [← hsplit, ← hsplit']
  exact congrArg (fun t : String => ((t.split ' ').toList.map (fun w => w.copy))) h

end Sequencer.Text

import Sequencer.Isa.Disassembly
import Sequencer.Proofs.Text.Radix

/-! Disassembly is unambiguous.

    The text of an operation is a list of words with spaces between them (`text_eq_joined`), so the
    text determines the words. The first word names the operation, and each further word one of its
    fields. Only a pulse has fields without a word: those that have no effect on it, which `erase`
    clears. -/

namespace Sequencer

/-! ### Words -/

/-- A register in a text. -/
def registerWord (reg : UInt8) : String := "r" ++ toString reg.toNat

/-- A feedback request in a text. -/
def feedbackWord (id : UInt16) : String := "fproc[" ++ toString id.toNat ++ "]"

@[simp] theorem registerWord_inj {a b : UInt8} : registerWord a = registerWord b ↔ a = b := by
  rw [registerWord, registerWord, String.append_right_inj, Text.toString_inj, UInt8.toNat_inj]

@[simp] theorem feedbackWord_inj {a b : UInt16} : feedbackWord a = feedbackWord b ↔ a = b := by
  rw [feedbackWord, feedbackWord, String.append_left_inj, String.append_right_inj,
    Text.toString_inj, UInt16.toNat_inj]

@[simp] theorem noSpace_registerWord (reg : UInt8) : Text.NoSpace (registerWord reg) :=
  Text.noSpace_append.mpr ⟨by decide, Text.noSpace_toString _⟩

@[simp] theorem noSpace_feedbackWord (id : UInt16) : Text.NoSpace (feedbackWord id) :=
  Text.noSpace_append.mpr
    ⟨Text.noSpace_append.mpr ⟨by decide, Text.noSpace_toString _⟩, by decide⟩

theorem mem_registerWord (reg : UInt8) : 'r' ∈ (registerWord reg).toList := by
  rw [registerWord, String.toList_append]
  exact List.mem_append_left _ (List.mem_singleton.mpr rfl)

namespace AluOp

@[simp] theorem name_inj {a b : AluOp} : a.name = b.name ↔ a = b := by
  refine ⟨fun h => ?_, congrArg name⟩
  revert h
  cases a <;> cases b <;> decide

@[simp] theorem noSpace_name (op : AluOp) : Text.NoSpace op.name := by
  cases op <;> decide

end AluOp

namespace Operand

theorem signed_ne_registerWord (x : UInt32) (reg : UInt8) : Text.signed x ≠ registerWord reg := by
  intro h
  refine Text.notMem_signed (c := 'r') (fun _ => Nat.digitChar_ne 'r' rfl) (by decide) x ?_
  rw [h]
  exact mem_registerWord reg

@[simp] theorem text_inj {a b : Operand} : a.text = b.text ↔ a = b := by
  refine ⟨fun h => ?_, congrArg text⟩
  cases a with
  | imm x =>
    cases b with
    | imm y => exact congrArg imm (Text.signed_inj.mp h)
    | reg s => exact absurd h (signed_ne_registerWord x s)
  | reg r =>
    cases b with
    | imm y => exact absurd h.symm (signed_ne_registerWord y r)
    | reg s => exact congrArg reg (registerWord_inj.mp h)

@[simp] theorem noSpace_text (a : Operand) : Text.NoSpace a.text := by
  cases a with
  | imm x => exact Text.noSpace_signed x
  | reg r => exact noSpace_registerWord r

end Operand

/-! ### Labelled values -/

/-- The words `label=value` of the labels that have a value. -/
def assignments : List String → List (Option String) → List String
  | label :: labels, some value :: values => (label ++ "=" ++ value) :: assignments labels values
  | _ :: labels, none :: values => assignments labels values
  | _, _ => []

/-- A label ends at its equals sign. -/
theorem assignment_inj {k l u v : String} (hk : '=' ∉ k.toList) (hl : '=' ∉ l.toList) :
    k ++ "=" ++ u = l ++ "=" ++ v ↔ k = l ∧ u = v := by
  have hlabel {label : String} (value : String) (h : '=' ∉ label.toList) :
      (label ++ "=" ++ value).toList.takeWhile (· != '=') = label.toList := by
    rw [String.append_assoc, String.toList_append, List.takeWhile_append_of_pos]
    · simp
    · intro c hc
      exact bne_iff_ne.mpr fun heq => h (heq ▸ hc)
  constructor
  · intro h
    obtain rfl : k = l := by
      rw [← String.toList_inj, ← hlabel u hk, h, hlabel v hl]
    exact ⟨rfl, (String.append_right_inj _).mp h⟩
  · rintro ⟨rfl, rfl⟩
    rfl

theorem mem_assignments {labels : List String} {values : List (Option String)} {w : String}
    (h : w ∈ assignments labels values) :
    ∃ label ∈ labels, ∃ value, some value ∈ values ∧ w = label ++ "=" ++ value := by
  induction labels, values using assignments.induct with
  | case1 label labels value values ih =>
    rcases List.mem_cons.mp h with rfl | h
    · exact ⟨label, by simp, value, by simp, rfl⟩
    · obtain ⟨l, hl, v, hv, rfl⟩ := ih h
      exact ⟨l, List.mem_cons_of_mem _ hl, v, List.mem_cons_of_mem _ hv, rfl⟩
  | case2 label labels values ih =>
    obtain ⟨l, hl, v, hv, rfl⟩ := ih h
    exact ⟨l, List.mem_cons_of_mem _ hl, v, List.mem_cons_of_mem _ hv, rfl⟩
  | case3 labels values h1 h2 =>
    rw [assignments] at h
    · cases h
    · exact h1
    · exact h2

/-- Different labels keep the values apart, whichever of them are left out. -/
theorem assignments_inj {labels : List String} (hnodup : labels.Nodup)
    (hlabels : ∀ label ∈ labels, '=' ∉ label.toList) {us vs : List (Option String)}
    (hus : us.length = labels.length) (hvs : vs.length = labels.length) :
    assignments labels us = assignments labels vs ↔ us = vs := by
  refine ⟨fun h => ?_, congrArg _⟩
  induction labels generalizing us vs with
  | nil => rw [List.length_eq_zero_iff.mp hus, List.length_eq_zero_iff.mp hvs]
  | cons label labels ih =>
    obtain ⟨hnotMem, hnodup⟩ := List.nodup_cons.mp hnodup
    have htail : ∀ l ∈ labels, '=' ∉ l.toList := fun l hl => hlabels l (List.mem_cons_of_mem _ hl)
    have hhead : '=' ∉ label.toList := hlabels label (by simp)
    -- a word with the first label stands in no list of words with the other ones
    have habsent (value : String) (ws : List (Option String)) :
        label ++ "=" ++ value ∉ assignments labels ws := by
      intro hmem
      obtain ⟨l, hl, v, -, heq⟩ := mem_assignments hmem
      exact hnotMem (((assignment_inj hhead (htail l hl)).mp heq).1 ▸ hl)
    cases us with
    | nil => cases hus
    | cons u us =>
      cases vs with
      | nil => cases hvs
      | cons v vs =>
        have hus' : us.length = labels.length := Nat.succ.inj hus
        have hvs' : vs.length = labels.length := Nat.succ.inj hvs
        cases u with
        | none =>
          cases v with
          | none => rw [ih hnodup htail hus' hvs' h]
          | some v =>
            rw [assignments, assignments] at h
            exact absurd (h ▸ List.mem_cons_self) (habsent v us)
        | some u =>
          cases v with
          | none =>
            rw [assignments, assignments] at h
            exact absurd (h ▸ List.mem_cons_self) (habsent u vs)
          | some v =>
            obtain ⟨hword, hrest⟩ := List.cons.inj h
            rw [((assignment_inj hhead hhead).mp hword).2, ih hnodup htail hus' hvs' hrest]

/-! ### Parameters of a pulse -/

theorem Bundle.toList_inj {α : Type} {a b : Bundle α} : a.toList = b.toList ↔ a = b := by
  refine ⟨fun h => ?_, congrArg toList⟩
  obtain ⟨a1, a2, a3, a4, a5⟩ := a
  obtain ⟨b1, b2, b3, b4, b5⟩ := b
  simpa [toList] using h

theorem Bundle.toList_zipWith {α β γ : Type} (f : α → β → γ) (a : Bundle α) (b : Bundle β) :
    (a.zipWith f b).toList = List.zipWith f a.toList b.toList := rfl

namespace PulseField

/-- Is the parameter written from a register? -/
def selects (f : PulseField) : Bool := f.writeEn && f.regSel

/-- The parameter without what has no effect on it: everything when it is not written, and the
    value when it comes from a register. -/
def erase (f : PulseField) : PulseField :=
  if f.writeEn then { f with value := if f.regSel then 0 else f.value } else {}

/-- What a parameter is written with, as a word. -/
def valueWord (reg : UInt8) (f : PulseField) : Option String :=
  if f.writeEn then some (if f.regSel then registerWord reg else Text.hex f.value.toNat) else none

theorem registerWord_ne_hex (reg : UInt8) (n : Nat) : registerWord reg ≠ Text.hex n := by
  intro h
  have hchars := congrArg String.toList h
  rw [registerWord, Text.hex, String.toList_append, String.toList_append] at hchars
  exact absurd (List.cons.inj hchars).1 (by decide)

theorem selects_erase (f : PulseField) : f.erase.selects = f.selects := by
  obtain ⟨writeEn, regSel, value⟩ := f
  cases writeEn <;> rfl

theorem valueWord_erase {r s : UInt8} (f : PulseField) (h : f.selects = true → r = s) :
    f.erase.valueWord r = f.valueWord s := by
  obtain ⟨writeEn, regSel, value⟩ := f
  cases writeEn with
  | false => rfl
  | true =>
    cases regSel with
    | false => rfl
    | true => rw [h rfl]; rfl

/-- The word of a parameter determines what has an effect on it. -/
theorem erase_eq_of_valueWord_eq {r s : UInt8} {f g : PulseField}
    (h : f.valueWord r = g.valueWord s) : f.erase = g.erase ∧ (f.selects = true → r = s) := by
  obtain ⟨writeEn, regSel, value⟩ := f
  obtain ⟨writeEn', regSel', value'⟩ := g
  cases writeEn with
  | false =>
    cases writeEn' with
    | false => exact ⟨rfl, fun hselects => absurd hselects (by simp [selects])⟩
    | true => cases h
  | true =>
    cases writeEn' with
    | false => cases h
    | true =>
      have hword := Option.some.inj h
      cases regSel with
      | false =>
        cases regSel' with
        | false =>
          obtain rfl : value = value' := UInt32.toNat_inj.mp (Text.hex_inj.mp hword)
          exact ⟨rfl, fun hselects => absurd hselects (by simp [selects])⟩
        | true => exact absurd hword.symm (registerWord_ne_hex s _)
      | true =>
        cases regSel' with
        | false => exact absurd hword (registerWord_ne_hex r _)
        | true => exact ⟨rfl, fun _ => registerWord_inj.mp hword⟩

theorem erase_eq_of_valueWords_eq {r s : UInt8} {fs gs : List PulseField}
    (h : fs.map (valueWord r) = gs.map (valueWord s)) :
    fs.map erase = gs.map erase ∧ (fs.any selects = true → r = s) := by
  induction fs generalizing gs with
  | nil =>
    rw [List.map_eq_nil_iff.mp h.symm]
    exact ⟨rfl, fun hany => absurd hany Bool.false_ne_true⟩
  | cons f fs ih =>
    cases gs with
    | nil => cases h
    | cons g gs =>
      obtain ⟨hword, hrest⟩ := List.cons.inj h
      obtain ⟨herase, hreg⟩ := erase_eq_of_valueWord_eq hword
      obtain ⟨herases, hregs⟩ := ih hrest
      rw [List.map_cons, List.map_cons, herase, herases, List.any_cons, Bool.or_eq_true]
      exact ⟨rfl, fun hany => hany.elim hreg hregs⟩

/-- Erasing keeps whether a parameter is written from a register. -/
theorem any_selects_erase (fs : List PulseField) :
    (fs.map erase).any selects = fs.any selects := by
  rw [List.any_map]
  exact congrArg fs.any (funext selects_erase)

theorem noSpace_valueWord {reg : UInt8} {f : PulseField} {w : String}
    (h : f.valueWord reg = some w) : Text.NoSpace w := by
  unfold valueWord at h
  split at h
  · obtain rfl := Option.some.inj h
    split
    · exact noSpace_registerWord reg
    · exact Text.noSpace_hex _
  · cases h

end PulseField

namespace Bundle

theorem nodup_labels : labels.toList.Nodup := by decide

theorem label_ends : ∀ label ∈ labels.toList, '=' ∉ label.toList := by decide

theorem noSpace_label : ∀ label ∈ labels.toList, Text.NoSpace label := by decide

/-- The words of the parameters that are written. -/
def words (reg : UInt8) (fields : Bundle PulseField) : List String :=
  assignments labels.toList (fields.toList.map (PulseField.valueWord reg))

theorem noSpace_words {reg : UInt8} {fields : Bundle PulseField} {w : String}
    (h : w ∈ fields.words reg) : Text.NoSpace w := by
  obtain ⟨label, hlabel, value, hvalue, rfl⟩ := mem_assignments h
  obtain ⟨f, -, hf⟩ := List.mem_map.mp hvalue
  exact Text.noSpace_append.mpr ⟨Text.noSpace_append.mpr ⟨noSpace_label label hlabel, by decide⟩,
    PulseField.noSpace_valueWord hf⟩

/-- The register that parameters are written from, or zero when there is none. -/
def register (reg : UInt8) (fields : Bundle PulseField) : UInt8 :=
  if fields.toList.any PulseField.selects then reg else 0

theorem words_erase (reg : UInt8) (fields : Bundle PulseField) :
    (fields.map PulseField.erase).words (fields.register reg) = fields.words reg := by
  rw [words, words, toList_map, List.map_map]
  refine congrArg _ (List.map_congr_left fun f hf => ?_)
  refine PulseField.valueWord_erase f fun hselects => ?_
  exact if_pos (List.any_eq_true.mpr ⟨f, hf, hselects⟩)

/-- The words of the parameters determine what has an effect on them. -/
theorem erase_eq_of_words_eq {r s : UInt8} {fs gs : Bundle PulseField}
    (h : fs.words r = gs.words s) :
    fs.map PulseField.erase = gs.map PulseField.erase ∧ fs.register r = gs.register s := by
  have hvalues := (assignments_inj nodup_labels label_ends rfl rfl).mp h
  obtain ⟨herase, hreg⟩ := PulseField.erase_eq_of_valueWords_eq hvalues
  refine ⟨toList_inj.mp (by rw [toList_map, toList_map, herase]), ?_⟩
  rw [register, register, ← PulseField.any_selects_erase gs.toList, ← herase,
    PulseField.any_selects_erase]
  split
  case isTrue hany => exact hreg hany
  case isFalse => rfl

end Bundle

/-! ### Operations -/

/-- The parameters of a pulse stand in the text as their words, with a space before each. -/
theorem PulseField.join_text (reg : UInt8) : ∀ (labels : List String) (fs : List PulseField),
    String.join (List.zipWith (PulseField.text reg) labels fs) =
      String.join ((assignments labels (fs.map (valueWord reg))).map (" " ++ ·))
  | [], _ => rfl
  | _ :: _, [] => rfl
  | label :: labels, ⟨false, regSel, value⟩ :: fs => by
    rw [List.zipWith_cons_cons, String.join_cons, join_text reg labels fs]
    exact String.empty_append
  | label :: labels, ⟨true, regSel, value⟩ :: fs => by
    rw [List.zipWith_cons_cons, String.join_cons, join_text reg labels fs, List.map_cons, valueWord,
      if_pos rfl, assignments, List.map_cons, String.join_cons]
    refine congrArg (· ++ _) ?_
    cases regSel <;> simp [text, registerWord, ← String.toList_inj]

namespace Operation

/-- The words of the text: the name of the operation, then its fields and the words between
    them. -/
def words : Operation → List String
  | regAlu op in0 in1 write =>
    ["reg_alu", registerWord write, "=", in0.text, op.name, registerWord in1]
  | jump addr => ["jump", Text.hex addr.toNat]
  | jumpCond op in0 in1 addr =>
    ["jump_cond", Text.hex addr.toNat, "if", in0.text, op.name, registerWord in1]
  | aluFproc op in0 write id =>
    ["alu_fproc", registerWord write, "=", in0.text, op.name, feedbackWord id]
  | jumpFproc op in0 addr id =>
    ["jump_fproc", Text.hex addr.toNat, "if", in0.text, op.name, feedbackWord id]
  | incQclk op in0 => ["inc_qclk", "qclk", op.name, in0.text]
  | sync id => ["sync", toString id.toNat]
  | pulseWrite true cmdTime reg fields =>
    "pulse_trig" :: ("@" ++ toString cmdTime.toNat) :: fields.words reg
  | pulseWrite false _ reg fields => "pulse" :: fields.words reg
  | done => ["done"]
  | pulseReset => ["pulse_reset"]
  | unknown bits => ["unknown", Text.binary 5 bits.toNat]

theorem text_eq_joined (a : Operation) : a.text = " ".intercalate a.words := by
  unfold text
  cases a with
  | pulseWrite trigger cmdTime reg fields =>
    dsimp only
    rw [Bundle.toList_zipWith, PulseField.join_text, ← Bundle.words]
    cases trigger with
    | false =>
      rw [words, Text.joined_cons]
      rfl
    | true =>
      rw [words, Text.joined_cons, List.map_cons, String.join_cons, ← String.append_assoc]
      refine congrArg (· ++ _) ?_
      simp [← String.toList_inj]
  | _ =>
    simp [words, registerWord, feedbackWord, String.intercalate_cons_cons, ← String.toList_inj]

theorem words_ne_nil (a : Operation) : a.words ≠ [] := by
  cases a with
  | pulseWrite trigger => cases trigger <;> exact List.cons_ne_nil _ _
  | _ => exact List.cons_ne_nil _ _

theorem noSpace_words (a : Operation) : ∀ w ∈ a.words, Text.NoSpace w := by
  cases a with
  | pulseWrite trigger cmdTime reg fields =>
    have hfields : ∀ w ∈ fields.words reg, Text.NoSpace w := fun w hw => Bundle.noSpace_words hw
    have htime : Text.NoSpace ("@" ++ toString cmdTime.toNat) :=
      Text.noSpace_append.mpr ⟨by decide, Text.noSpace_toString _⟩
    cases trigger with
    | false => exact List.forall_mem_cons.mpr ⟨by decide, hfields⟩
    | true =>
      exact List.forall_mem_cons.mpr ⟨by decide, List.forall_mem_cons.mpr ⟨htime, hfields⟩⟩
  | _ =>
    simp only [words, List.forall_mem_cons, Operand.noSpace_text, AluOp.noSpace_name,
      noSpace_registerWord, noSpace_feedbackWord, Text.noSpace_hex, Text.noSpace_binary,
      Text.noSpace_toString, true_and]
    decide

/-- The operation without what has no effect: of a pulse, the command time without a trigger, the
    register when no parameter is written from it, and what its parameters do not use. -/
def erase : Operation → Operation
  | pulseWrite trigger cmdTime reg fields =>
    pulseWrite trigger (if trigger then cmdTime else 0) (fields.register reg)
      (fields.map PulseField.erase)
  | a => a

theorem words_erase (a : Operation) : a.erase.words = a.words := by
  cases a with
  | pulseWrite trigger cmdTime reg fields =>
    cases trigger with
    | false => exact congrArg ("pulse" :: ·) (Bundle.words_erase reg fields)
    | true =>
      exact congrArg ("pulse_trig" :: ("@" ++ toString cmdTime.toNat) :: ·)
        (Bundle.words_erase reg fields)
  | _ => rfl

theorem pulse_erase_eq_of_words_eq {t t' : Bool} {n n' : UInt32} {r r' : UInt8}
    {fs fs' : Bundle PulseField}
    (h : (pulseWrite t n r fs).words = (pulseWrite t' n' r' fs').words) :
    (pulseWrite t n r fs).erase = (pulseWrite t' n' r' fs').erase := by
  cases t with
  | false =>
    cases t' with
    | false =>
      obtain ⟨hfields, hreg⟩ := Bundle.erase_eq_of_words_eq (List.cons.inj h).2
      simp only [erase, hfields, hreg, Bool.false_eq_true, if_false]
    | true => simp [words] at h
  | true =>
    cases t' with
    | false => simp [words] at h
    | true =>
      obtain ⟨htime, hwords⟩ := List.cons.inj (List.cons.inj h).2
      rw [String.append_right_inj, Text.toString_inj, UInt32.toNat_inj] at htime
      obtain ⟨hfields, hreg⟩ := Bundle.erase_eq_of_words_eq hwords
      simp only [erase, hfields, hreg, htime]

/-- The words determine what has an effect. -/
theorem erase_eq_of_words_eq {a b : Operation} (h : a.words = b.words) : a.erase = b.erase := by
  cases a with
  | pulseWrite trigger =>
    cases b with
    | pulseWrite => exact pulse_erase_eq_of_words_eq h
    | _ => cases trigger <;> simp [words] at h
  | _ =>
    cases b with
    | pulseWrite trigger => cases trigger <;> simp [words] at h
    | _ =>
      -- the first word tells the operations apart, and each further word determines its field
      simp_all [words, UInt16.toNat_inj, UInt8.toNat_inj]

theorem text_eq_iff_words_eq {a b : Operation} : a.text = b.text ↔ a.words = b.words := by
  rw [text_eq_joined, text_eq_joined]
  exact Text.joined_inj a.noSpace_words b.noSpace_words a.words_ne_nil b.words_ne_nil

theorem text_eq_iff {a b : Operation} : a.text = b.text ↔ a.erase = b.erase := by
  rw [text_eq_iff_words_eq]
  refine ⟨erase_eq_of_words_eq, fun h => ?_⟩
  rw [← words_erase a, h, words_erase]

/-- Only pulses have parts without effect. -/
theorem erase_eq_iff_of_ne_pulse {a b : Operation} (ha : ∀ t n r fs, a ≠ pulseWrite t n r fs) :
    a.erase = b.erase ↔ a = b := by
  refine ⟨fun h => ?_, congrArg erase⟩
  cases a with
  | pulseWrite t n r fs => exact absurd rfl (ha t n r fs)
  | _ =>
    cases b with
    | pulseWrite => cases h
    | _ => exact h

/-- Disassembly is unambiguous: two operations have the same text if and only if they are the same
    but for parts of a pulse that have no effect. In particular another operation than a pulse
    shares its text with no other operation. -/
theorem disassembly_unambiguous (a b : Operation) :
    (a.text = b.text ↔ a.erase = b.erase) ∧
      ((∀ t n r fs, a ≠ pulseWrite t n r fs) → a ≠ b → a.text ≠ b.text) := by
  refine ⟨text_eq_iff, fun ha hne htext => hne ?_⟩
  exact (erase_eq_iff_of_ne_pulse ha).mp (text_eq_iff.mp htext)

/-- A class number of six binary digits is told from one that is padded to five. An untriggered
    pulse that writes nothing has one text, whatever the rest of it says. -/
theorem disassembly_unambiguous_padded :
    (unknown 0).text ≠ (unknown 32).text ∧
      (pulseWrite false 7 3 (.fill ⟨false, true, 9⟩)).text =
        (pulseWrite false 0 0 (.fill {})).text :=
  ⟨(disassembly_unambiguous (unknown 0) (unknown 32)).2 (fun _ _ _ _ => by simp) (by decide),
    (disassembly_unambiguous _ _).1.mpr rfl⟩

end Operation

end Sequencer

import Mathlib
import Sequencer.Proofs.Decoding
import Sequencer.Proofs.RoundTrip

/-! Encoding undoes decoding, up to the bits that the class does not read.

    `fieldsRead` lists the fields to which the class of a word gives meaning. The values of the
    decoded operation are the ones that the word has in these fields (`Spells`), so encoding it
    gives the word with every other bit cleared (`encode_decode`). Hence a word and its reencoding
    decode alike, and two words decode alike exactly if they agree on the fields that are read. -/

namespace Sequencer

/-! ### The fields of a class -/

/-- Does the class name an ALU operation? -/
def OpClass.usesAlu : OpClass → Bool
  | regAluI | regAlu | jumpCondI | jumpCond | aluFprocI | aluFproc | jumpFprocI | jumpFproc
  | incQclkI | incQclk => true
  | jumpI | sync | pulseWrite | pulseWriteTrig | done | pulseReset => false

def PulseSlot.fields (s : PulseSlot) : List Field := [s.writeEn, s.regSel, s.value]

namespace Layout

/-- The field of ALU input 0. -/
def in0Field (l : Layout) (c : OpClass) : Field := if c.immediateIn0 then l.immediate else l.in0Reg

/-- The fields below the opcode that a class gives meaning to, from the top downwards. A pulse has
    its command time in the immediate field, whether it is triggered or not. -/
def operandFields (l : Layout) (c : OpClass) : List Field :=
  match c with
  | .regAluI | .regAlu => [l.in0Field c, l.in1Reg, l.writeReg]
  | .jumpI => [l.jumpAddr]
  | .jumpCondI | .jumpCond => [l.in0Field c, l.in1Reg, l.jumpAddr]
  | .aluFprocI | .aluFproc => [l.in0Field c, l.writeReg, l.requestId]
  | .jumpFprocI | .jumpFproc => [l.in0Field c, l.jumpAddr, l.requestId]
  | .incQclkI | .incQclk => [l.in0Field c]
  | .sync => [l.requestId]
  | .pulseWrite | .pulseWriteTrig =>
    [l.immediate, l.pulseReg] ++ (l.pulse.map PulseSlot.fields).toList.flatten
  | .done | .pulseReset => []

/-- Every field that a class gives meaning to. -/
def classFields (l : Layout) (c : OpClass) : List Field :=
  l.opClass :: (if c.usesAlu then [l.aluOp] else []) ++ l.operandFields c

/-- The fields to which the class of a word gives meaning: of an unassigned class only its bits. -/
def fieldsRead (l : Layout) (w : Word) : List Field :=
  match OpClass.ofBits? (l.opClass.value w).toNat.toUInt8 with
  | some c => l.classFields c
  | none => [l.opClass]

/-- Decode a word and encode the operation again. -/
def reencode (l : Layout) (w : Word) : Attempt EncodeError Word := do
  l.encode (← l.decode w)

theorem opClass_mem_fieldsRead (l : Layout) (w : Word) : l.opClass ∈ l.fieldsRead w := by
  unfold fieldsRead classFields
  split <;> simp

/-- The class field decides which fields are read. -/
theorem fieldsRead_congr {l : Layout} {v w : Word} (h : l.opClass.value v = l.opClass.value w) :
    l.fieldsRead v = l.fieldsRead w := by
  rw [fieldsRead, h, fieldsRead]

end Layout

theorem Field.Stacked.top_le {top : Nat} {fs : List Field} (h : Stacked top fs) {f : Field}
    (hf : f ∈ fs) : f.offset + f.width ≤ top := by
  induction fs generalizing top with
  | nil => cases hf
  | cons g gs ih =>
    obtain ⟨-, hbelow, hrest⟩ := h
    rcases List.mem_cons.mp hf with rfl | hf
    · exact hbelow
    · have := ih hrest hf
      omega

theorem Field.Stacked.inside {top : Nat} {fs : List Field} (h : Stacked top fs) (htop : top ≤ 128)
    {f : Field} (hf : f ∈ fs) : f.Inside := by
  induction fs generalizing top with
  | nil => cases hf
  | cons g gs ih =>
    obtain ⟨hwidth, hbelow, hrest⟩ := h
    rcases List.mem_cons.mp hf with rfl | hf
    · exact ⟨hwidth, hbelow.trans htop⟩
    · exact ih hrest (by omega) hf

/-- A field shares no bit with the one above it or with those below. -/
theorem Field.Stacked.not_covers {top : Nat} {f g : Field} {fs : List Field}
    (h : Stacked top (f :: g :: fs)) {i : Nat} (hi : g.Covers i) : ∀ x ∈ f :: fs, ¬ x.Covers i := by
  obtain ⟨-, -, -, hbelow, hrest⟩ := h
  obtain ⟨hle, hlt⟩ := hi
  rw [List.forall_mem_cons]
  refine ⟨fun hf => ?_, fun x hx hxi => ?_⟩
  · have := hf.1
    omega
  · have := hrest.top_le hx
    have := hxi.2
    omega

/-- A covered bit is a bit of the value. -/
theorem Field.getLsbD_of_covers {f : Field} {i : Nat} (hi : f.Covers i) (w : Word) :
    w.getLsbD i = (f.value w).getLsbD (i - f.offset) := by
  obtain ⟨hle, hlt⟩ := hi
  rw [getLsbD_value, Nat.add_sub_cancel' hle]
  simp only [show i - f.offset < f.width by omega, decide_true, Bool.and_true]

/-! ### Values read from a field -/

theorem OpClass.bits_of_ofBits? {b : UInt8} {c : OpClass} (h : ofBits? b = some c) :
    c.bits = b := by
  unfold ofBits? at h
  split at h <;> cases h <;> apply UInt8.toNat_inj.mp <;> simp [*, bits]

theorem AluOp.bits_ofBits {b : UInt8} (h : b.toNat < 8) : (ofBits b).bits = b := by
  apply UInt8.toNat_inj.mp
  unfold ofBits
  interval_cases b.toNat <;> rfl

namespace Layout

variable {l : Layout} {f : Field} {w : Word}

/-- A narrow word survives being cut to a smaller one. -/
theorem ofNat_mod {v : Word} {width bits : Nat} (h : v.toNat < 2 ^ width) (hle : width ≤ bits) :
    BitVec.ofNat 128 (v.toNat % 2 ^ bits) = v := by
  rw [mod_of_lt_pow h hle, BitVec.ofNat_toNat, BitVec.setWidth_eq]

theorem registerOf_of_inside (h : f.Inside) (w : Word) :
    registerOf f w = .ok (f.value w).toNat.toUInt8 := by
  rw [registerOf, Field.extract_of_inside h]
  rfl

theorem ofNat_registerOf (h : f.Inside) (hw : f.width ≤ 8) {reg : UInt8}
    (hr : registerOf f w = .ok reg) : BitVec.ofNat 128 reg.toNat = f.value w := by
  rw [registerOf_of_inside h] at hr
  obtain rfl := Except.ok.inj hr
  rw [Nat.toUInt8, UInt8.toNat_ofNat']
  exact ofNat_mod (f.value_toNat_lt w) hw

theorem ofNat_addressOf (h : f.Inside) (hw : f.width ≤ 16) {addr : UInt16}
    (ha : addressOf f w = .ok addr) : BitVec.ofNat 128 addr.toNat = f.value w := by
  rw [addressOf, Field.extract_of_inside h] at ha
  obtain rfl := Except.ok.inj ha
  rw [Nat.toUInt16, UInt16.toNat_ofNat']
  exact ofNat_mod (f.value_toNat_lt w) hw

theorem ofNat_dataOf (h : f.Inside) (hw : f.width ≤ 32) {x : UInt32}
    (hx : dataOf f w = .ok x) : BitVec.ofNat 128 x.toNat = f.value w := by
  rw [dataOf, Field.extract_of_inside h] at hx
  obtain rfl := Except.ok.inj hx
  rw [Nat.toUInt32, UInt32.toNat_ofNat']
  exact ofNat_mod (f.value_toNat_lt w) hw

/-- A field of one bit is a flag. -/
theorem ofNat_flag (hw : f.width = 1) :
    BitVec.ofNat 128 (f.value w == 1).toUInt32.toNat = f.value w := by
  have hlt := f.value_toNat_lt w
  rw [hw] at hlt
  have hcases : f.value w = 0 ∨ f.value w = 1 := by
    simp only [← BitVec.toNat_inj]
    simp
    omega
  rcases hcases with h0 | h1
  · rw [h0]; rfl
  · rw [h1]; rfl

/-! ### The values of a decoded operation -/

theorem ofNat_classBits (h : l.Placed) {c : OpClass}
    (hc : OpClass.ofBits? (l.opClass.value w).toNat.toUInt8 = some c) :
    BitVec.ofNat 128 c.bits.toNat = l.opClass.value w := by
  rw [OpClass.bits_of_ofBits? hc]
  exact ofNat_registerOf h.inside_opClass (by rw [h.opClass.width_eq]; omega)
    (registerOf_of_inside h.inside_opClass w)

theorem ofNat_aluOpOf (h : l.Placed) {op : AluOp} (ho : l.aluOpOf w = .ok op) :
    BitVec.ofNat 128 op.bits.toNat = l.aluOp.value w := by
  have hlt := l.aluOp.value_toNat_lt w
  rw [h.aluOp.width_eq] at hlt
  rw [aluOpOf, Field.extract_of_inside h.inside_aluOp] at ho
  obtain rfl := Except.ok.inj ho
  rw [AluOp.bits_ofBits]
  · exact ofNat_registerOf h.inside_aluOp (by rw [h.aluOp.width_eq]; omega)
      (registerOf_of_inside h.inside_aluOp w)
  · rw [Nat.toUInt8, UInt8.toNat_ofNat', mod_of_lt_pow hlt (by omega)]
    exact hlt

/-- Input 0 is placed where its class has it, with the value that was there. -/
theorem placeIn0_of_in0Of (h : l.Placed) {c : OpClass} {in0 : Operand}
    (h0 : l.in0Of c w = .ok in0) :
    (l.placeIn0 in0).field = l.in0Field c ∧
      (l.placeIn0 in0).value = (l.placeIn0 in0).field.value w ∧
      ∀ {imm reg : OpClass}, c = (if c.immediateIn0 then imm else reg) →
        classFor imm reg in0 = c := by
  unfold in0Of at h0
  unfold in0Field
  split at h0
  case isTrue hc =>
    obtain ⟨x, hx, h0⟩ := Checked.bind_eq_ok.mp h0
    obtain rfl := Except.ok.inj h0
    simp only [hc, if_true]
    exact ⟨rfl, ofNat_dataOf h.inside_immediate h.immediate.width_eq.le hx, fun heq => heq.symm⟩
  case isFalse hc =>
    obtain ⟨r, hr, h0⟩ := Checked.bind_eq_ok.mp h0
    obtain rfl := Except.ok.inj h0
    simp only [hc]
    refine ⟨rfl, ofNat_registerOf h.inside_in0Reg ?_ hr, fun heq => heq.symm⟩
    rw [h.in0Reg.width_eq]
    exact h.limited.regAddr

theorem value_placePulseField {s : PulseSlot} {top width : Nat} (hs : s.Below top width)
    (htop : top ≤ 128) (hw : width ≤ 32) {f : PulseField} (hf : pulseFieldOf s w = .ok f)
    (name : String) : ∀ p ∈ placePulseField s f name, p.value = p.field.value w := by
  have hen := hs.writeEn.inside htop (by omega)
  have hsel := hs.regSel.inside (hs.writeEn.offset_le.trans htop) (by omega)
  have hval := hs.value.inside (hs.regSel.offset_le.trans (hs.writeEn.offset_le.trans htop))
    (by omega)
  rw [pulseFieldOf, Field.extract_of_inside hen, Field.extract_of_inside hsel, Checked.ok_bind,
    Checked.ok_bind] at hf
  obtain ⟨x, hx, hf⟩ := Checked.bind_eq_ok.mp hf
  obtain rfl := Except.ok.inj hf
  simp only [placePulseField, List.forall_mem_cons]
  refine ⟨ofNat_flag hs.writeEn.width_eq, ofNat_flag hs.regSel.width_eq, ?_,
    List.forall_mem_nil _⟩
  exact ofNat_dataOf hval (hs.value.width_eq.le.trans hw) hx

/-- The parameters of a pulse are placed where the word has them. -/
theorem value_placePulse (h : l.Placed) {fields : Bundle PulseField}
    (hf : l.pulseFieldsOf w = .ok fields) :
    ∀ p ∈ ((l.pulse.zipWith placePulseField fields).zipWith (· ·) Bundle.titles).toList.flatten,
      p.value = p.field.value w := by
  have h0 := h.in1Reg_offset_le
  have h1 := h.pulse.envWord.lsb_le.trans h0
  have h2 := h.pulse.phase.lsb_le.trans h1
  have h3 := h.pulse.freq.lsb_le.trans h2
  have h4 := h.pulse.amp.lsb_le.trans h3
  simp only [pulseFieldsOf, Checked.bind_eq_ok, Checked.pure_eq_ok, Except.ok.injEq] at hf
  obtain ⟨env, henv, phase, hphase, freq, hfreq, amp, hamp, cfg, hcfg, rfl⟩ := hf
  simp only [Bundle.zipWith, Bundle.toList, List.flatten_cons, List.flatten_nil, List.append_nil,
    List.forall_mem_append]
  exact ⟨value_placePulseField h.pulse.envWord h0 h.limited.envWord henv _,
    value_placePulseField h.pulse.phase h1 h.limited.phase hphase _,
    value_placePulseField h.pulse.freq h2 h.limited.freq hfreq _,
    value_placePulseField h.pulse.amp h3 h.limited.amp hamp _,
    value_placePulseField h.pulse.cfg h4 h.limited.cfg hcfg _⟩

/-- An operation that was read as class `c` is placed as that class, with the values that its
    operand fields had. -/
theorem placements_operationOf (h : l.Placed) {c : OpClass} {op : Operation}
    (hop : l.operationOf c w = .ok op) :
    ∃ (f : AluOp) (rest : List Placement), l.placements op = l.placeClass c f ++ rest ∧
      (if c.usesAlu then l.aluOpOf w = .ok f else f = .id0) ∧
      rest.map Placement.field = l.operandFields c ∧ ∀ p ∈ rest, p.value = p.field.value w := by
  have hregister {f : Field} {reg : UInt8} (hin : f.Inside) (hf : f.width = l.widths.regAddr)
      (hr : registerOf f w = .ok reg) : BitVec.ofNat 128 reg.toNat = f.value w :=
    ofNat_registerOf hin (hf ▸ h.limited.regAddr) hr
  have haddress {addr : UInt16} (ha : addressOf l.jumpAddr w = .ok addr) :
      BitVec.ofNat 128 addr.toNat = l.jumpAddr.value w :=
    ofNat_addressOf h.inside_jumpAddr (h.jumpAddr.width_eq ▸ h.limited.instrAddr) ha
  have hrequest {id : UInt16} (hi : addressOf l.requestId w = .ok id) :
      BitVec.ofNat 128 id.toNat = l.requestId.value w :=
    ofNat_addressOf h.inside_requestId (h.requestId.width_eq ▸ h.limited.requestId) hi
  have hin1 {reg : UInt8} (hr : registerOf l.in1Reg w = .ok reg) :
      BitVec.ofNat 128 reg.toNat = l.in1Reg.value w :=
    hregister h.inside_in1Reg h.in1Reg.width_eq hr
  have hwrite {reg : UInt8} (hr : registerOf l.writeReg w = .ok reg) :
      BitVec.ofNat 128 reg.toNat = l.writeReg.value w :=
    hregister h.inside_writeReg h.writeReg.width_eq hr
  cases c with
  | regAluI | regAlu =>
    simp only [operationOf, Checked.bind_eq_ok, Checked.pure_eq_ok, Except.ok.injEq] at hop
    obtain ⟨f, hf, in0, h0, in1, h1, write, hw, rfl⟩ := hop
    obtain ⟨hfield, hvalue, hclass⟩ := placeIn0_of_in0Of h h0
    refine ⟨f, _, by rw [placements, hclass rfl], hf, ?_, ?_⟩
    · simp [operandFields, hfield, placeRegister]
    · simp [hvalue, placeRegister, hin1 h1, hwrite hw]
  | jumpI =>
    simp only [operationOf, Checked.bind_eq_ok, Checked.pure_eq_ok, Except.ok.injEq] at hop
    obtain ⟨addr, ha, rfl⟩ := hop
    exact ⟨.id0, _, rfl, rfl, rfl, by simp [placeAddress, haddress ha]⟩
  | jumpCondI | jumpCond =>
    simp only [operationOf, Checked.bind_eq_ok, Checked.pure_eq_ok, Except.ok.injEq] at hop
    obtain ⟨f, hf, in0, h0, in1, h1, addr, ha, rfl⟩ := hop
    obtain ⟨hfield, hvalue, hclass⟩ := placeIn0_of_in0Of h h0
    refine ⟨f, _, by rw [placements, hclass rfl], hf, ?_, ?_⟩
    · simp [operandFields, hfield, placeRegister, placeAddress]
    · simp [hvalue, placeRegister, placeAddress, hin1 h1, haddress ha]
  | aluFprocI | aluFproc =>
    simp only [operationOf, Checked.bind_eq_ok, Checked.pure_eq_ok, Except.ok.injEq] at hop
    obtain ⟨f, hf, in0, h0, write, hw, id, hi, rfl⟩ := hop
    obtain ⟨hfield, hvalue, hclass⟩ := placeIn0_of_in0Of h h0
    refine ⟨f, _, by rw [placements, hclass rfl], hf, ?_, ?_⟩
    · simp [operandFields, hfield, placeRegister, placeRequestId]
    · simp [hvalue, placeRegister, placeRequestId, hwrite hw, hrequest hi]
  | jumpFprocI | jumpFproc =>
    simp only [operationOf, Checked.bind_eq_ok, Checked.pure_eq_ok, Except.ok.injEq] at hop
    obtain ⟨f, hf, in0, h0, addr, ha, id, hi, rfl⟩ := hop
    obtain ⟨hfield, hvalue, hclass⟩ := placeIn0_of_in0Of h h0
    refine ⟨f, _, by rw [placements, hclass rfl], hf, ?_, ?_⟩
    · simp [operandFields, hfield, placeAddress, placeRequestId]
    · simp [hvalue, placeAddress, placeRequestId, haddress ha, hrequest hi]
  | incQclkI | incQclk =>
    simp only [operationOf, Checked.bind_eq_ok, Checked.pure_eq_ok, Except.ok.injEq] at hop
    obtain ⟨f, hf, in0, h0, rfl⟩ := hop
    obtain ⟨hfield, hvalue, hclass⟩ := placeIn0_of_in0Of h h0
    refine ⟨f, _, by rw [placements, hclass rfl], hf, ?_, ?_⟩
    · simp [operandFields, hfield]
    · simp [hvalue]
  | sync =>
    simp only [operationOf, Checked.bind_eq_ok, Checked.pure_eq_ok, Except.ok.injEq] at hop
    obtain ⟨id, hi, rfl⟩ := hop
    exact ⟨.id0, _, rfl, rfl, rfl, by simp [placeRequestId, hrequest hi]⟩
  | pulseWrite | pulseWriteTrig =>
    simp only [operationOf, Checked.bind_eq_ok, Checked.pure_eq_ok, Except.ok.injEq] at hop
    obtain ⟨time, ht, reg, hr, fields, hf, rfl⟩ := hop
    refine ⟨.id0, _, List.append_assoc .., rfl, rfl, ?_⟩
    rw [h.pulseReg] at hr
    rw [List.cons_append, List.cons_append, List.nil_append, List.forall_mem_cons,
      List.forall_mem_cons]
    refine ⟨ofNat_dataOf h.inside_immediate h.immediate.width_eq.le ht, ?_, value_placePulse h hf⟩
    simp only [placeRegister, h.pulseReg]
    exact hin1 hr
  | done | pulseReset =>
    obtain rfl := Except.ok.inj hop
    exact ⟨.id0, [], rfl, rfl, rfl, List.forall_mem_nil _⟩

/-! ### Placements and fields that are read -/

/-- How the values of the operation that a word decodes to relate to the fields that are read. -/
structure Spells (l : Layout) (w : Word) (op : Operation) : Prop where
  /-- A value is the one of the word, or fills a field that is not read with zeros. -/
  value : ∀ p ∈ l.placements op,
    (p.field ∈ l.fieldsRead w ∧ p.value = p.field.value w) ∨
      (p.value = 0 ∧ ∀ f ∈ l.fieldsRead w, ∀ i, p.field.Covers i → ¬ f.Covers i)
  field : ∀ f ∈ l.fieldsRead w, ∃ p ∈ l.placements op, p.field = f
  unknown : ∀ bits, op = .unknown bits → OpClass.ofBits? bits = none

theorem spells_operationOf (h : l.Placed) {c : OpClass} {op : Operation}
    (hc : OpClass.ofBits? (l.opClass.value w).toNat.toUInt8 = some c)
    (hop : l.operationOf c w = .ok op) : l.Spells w op := by
  obtain ⟨f, rest, hplacements, hf, hfields, hvalues⟩ := placements_operationOf h hop
  have hread : l.fieldsRead w = l.classFields c := by rw [fieldsRead, hc]
  have hrest {g : Field} : g ∈ l.operandFields c ↔ ∃ p ∈ rest, p.field = g := by
    rw [← hfields, List.mem_map]
  refine ⟨fun p hp => ?_, fun g hg => ?_, ?_⟩
  · rw [hplacements, placeClass, List.mem_append, List.mem_pair] at hp
    rcases hp with (rfl | rfl) | hp
    · exact .inl ⟨opClass_mem_fieldsRead l w, ofNat_classBits h hc⟩
    · cases hu : c.usesAlu with
      | true =>
        rw [hu, if_pos rfl] at hf
        exact .inl ⟨by simp [hread, classFields, hu], ofNat_aluOpOf h hf⟩
      | false =>
        rw [hu, if_neg Bool.false_ne_true] at hf
        subst hf
        have hstacked := stacked_placements h op
        rw [hplacements, List.map_append, hfields] at hstacked
        refine .inr ⟨rfl, fun g hg i hi => hstacked.not_covers hi g ?_⟩
        simpa [hread, classFields, hu] using hg
    · refine .inl ⟨?_, hvalues p hp⟩
      rw [hread, classFields, List.mem_append]
      exact .inr (hrest.mpr ⟨p, hp, rfl⟩)
  · rw [hread, classFields, List.mem_append, List.mem_cons] at hg
    rw [hplacements]
    rcases hg with (rfl | hg) | hg
    · exact ⟨_, List.mem_cons_self, rfl⟩
    · split at hg
      · obtain rfl := List.mem_singleton.mp hg
        exact ⟨_, List.mem_cons_of_mem _ List.mem_cons_self, rfl⟩
      · cases hg
    · obtain ⟨p, hp, rfl⟩ := hrest.mp hg
      exact ⟨p, List.mem_append_right _ hp, rfl⟩
  · rintro bits rfl
    -- The bits of an unassigned class are placed alone.
    have hlength := congrArg List.length hplacements
    simp [placements, placeClass] at hlength

theorem spells_unknown (h : l.Placed)
    (hc : OpClass.ofBits? (l.opClass.value w).toNat.toUInt8 = none) :
    l.Spells w (.unknown (l.opClass.value w).toNat.toUInt8) := by
  have hread : l.fieldsRead w = [l.opClass] := by rw [fieldsRead, hc]
  refine ⟨fun p hp => ?_, fun g hg => ?_, ?_⟩
  · obtain rfl := List.mem_singleton.mp hp
    refine .inl ⟨opClass_mem_fieldsRead l w, ?_⟩
    exact ofNat_registerOf h.inside_opClass (by rw [h.opClass.width_eq]; omega)
      (registerOf_of_inside h.inside_opClass w)
  · rw [hread] at hg
    obtain rfl := List.mem_singleton.mp hg
    exact ⟨_, List.mem_singleton_self _, rfl⟩
  · rintro bits heq
    cases heq
    exact hc

/-- Every word decodes to an operation that spells it. -/
theorem exists_spells (h : l.Placed) (w : Word) : ∃ op, l.decode w = .ok op ∧ l.Spells w op := by
  have hbits : l.classBits w = .ok (l.opClass.value w).toNat.toUInt8 := by
    rw [classBits, Field.extract_of_inside h.inside_opClass]
    rfl
  cases hc : OpClass.ofBits? (l.opClass.value w).toNat.toUInt8 with
  | none =>
    refine ⟨_, ?_, spells_unknown h hc⟩
    simp only [decode, hbits, Checked.ok_bind, hc, Checked.pure_eq_ok]
  | some c =>
    obtain ⟨op, hop, -⟩ := operationOf_ok h c w
    refine ⟨op, ?_, spells_operationOf h hc hop⟩
    simp only [decode, hbits, Checked.ok_bind, hc, hop]

/-! ### The reencoded word -/

variable {op : Operation}

theorem encode_of_unassigned
    (h : ∀ bits, op = .unknown bits → OpClass.ofBits? bits = none) :
    l.encode op = assemble 0 (l.placements op) := by
  cases op with
  | unknown bits => simp [encode, h bits rfl]
  | _ => rfl

/-- Values that fit can be placed, and change no bit outside of their fields. -/
theorem exists_assemble : ∀ {ps : List Placement} (raw : Word),
    (∀ p ∈ ps, p.field.Inside ∧ p.value.toNat < 2 ^ p.field.width) →
    ∃ w, assemble raw ps = pure w ∧
      ∀ i, (∀ p ∈ ps, ¬ p.field.Covers i) → w.getLsbD i = raw.getLsbD i
  | [], raw, _ => ⟨raw, rfl, fun _ _ => rfl⟩
  | p :: ps, raw, h => by
    rw [List.forall_mem_cons] at h
    obtain ⟨⟨hin, hfit⟩, hps⟩ := h
    obtain ⟨w, hw, hframe⟩ := exists_assemble (p.field.put raw p.value) hps
    refine ⟨w, ?_, fun i hi => ?_⟩
    · rw [assemble, Field.insert_of_inside hin, if_pos hfit]
      exact hw
    · rw [List.forall_mem_cons] at hi
      rw [hframe i hi.2, Field.getLsbD_put hin hfit, if_neg hi.1]

/-- What encoding the operation that `w` decodes to gives: the word `w'`. -/
structure Reencodes (l : Layout) (w : Word) (op : Operation) (w' : Word) : Prop where
  decode : l.decode w = .ok op
  encode : l.encode op = pure w'
  decode_again : l.decode w' = .ok op
  /-- The bits of the fields that are read, and no others. -/
  bit : ∀ i, w'.getLsbD i = true ↔ w.getLsbD i = true ∧ ∃ f ∈ l.fieldsRead w, f.Covers i
  inside : ∀ f ∈ l.fieldsRead w, f.Inside

theorem Spells.fits (h : l.Spells w op) {p : Placement} (hp : p ∈ l.placements op) :
    p.value.toNat < 2 ^ p.field.width := by
  rcases h.value p hp with ⟨-, hvalue⟩ | ⟨hvalue, -⟩
  · rw [hvalue]
    exact p.field.value_toNat_lt w
  · rw [hvalue]
    exact Nat.two_pow_pos _

/-- A word that holds the values in their fields and nothing else has the bits that are read. -/
theorem Spells.bit_iff (h : l.Spells w op) {w' : Word} {i : Nat}
    (hinside : ∀ p ∈ l.placements op, p.field.Inside)
    (hvalues : ∀ p ∈ l.placements op, p.field.extract w' = .ok p.value)
    (hclear : (∀ p ∈ l.placements op, ¬ p.field.Covers i) → w'.getLsbD i = false) :
    w'.getLsbD i = true ↔ w.getLsbD i = true ∧ ∃ f ∈ l.fieldsRead w, f.Covers i := by
  by_cases hcovered : ∃ p ∈ l.placements op, p.field.Covers i
  · obtain ⟨p, hp, hi⟩ := hcovered
    have hin := hinside p hp
    have hvalue : p.field.value w' = p.value := by
      have hextract := hvalues p hp
      rw [Field.extract_of_inside hin] at hextract
      exact Except.ok.inj hextract
    rw [Field.getLsbD_of_covers hi w', hvalue]
    rcases h.value p hp with ⟨hread, hsame⟩ | ⟨hzero, hnone⟩
    · rw [hsame, ← Field.getLsbD_of_covers hi w]
      exact (and_iff_left ⟨p.field, hread, hi⟩).symm
    · have hbit : p.value.getLsbD (i - p.field.offset) = false := hzero ▸ BitVec.getLsbD_zero
      rw [hbit]
      exact iff_of_false Bool.false_ne_true fun ⟨_, f, hf, hfi⟩ => hnone f hf i hi hfi
  · push Not at hcovered
    rw [hclear hcovered]
    refine iff_of_false Bool.false_ne_true fun ⟨_, f, hf, hfi⟩ => ?_
    obtain ⟨p, hp, rfl⟩ := h.field f hf
    exact hcovered p hp hfi

theorem exists_reencodes (h : l.Placed) (w : Word) : ∃ op w', l.Reencodes w op w' := by
  obtain ⟨op, hdecode, hspells⟩ := exists_spells h w
  have hstacked := stacked_placements h op
  have hinside : ∀ p ∈ l.placements op, p.field.Inside := fun p hp =>
    hstacked.inside h.limited.instr (List.mem_map_of_mem hp)
  have hfits : ∀ p ∈ l.placements op, p.field.Inside ∧ p.value.toNat < 2 ^ p.field.width :=
    fun p hp => ⟨hinside p hp, hspells.fits hp⟩
  obtain ⟨w', hw', hframe⟩ := exists_assemble 0 hfits
  have hvalues := (assemble_spec h.limited.instr hstacked hw').2
  refine ⟨op, w', hdecode, (encode_of_unassigned hspells.unknown).trans hw',
    decode_of_extract hspells.unknown hvalues, fun i => ?_, fun f hf => ?_⟩
  · exact hspells.bit_iff hinside hvalues fun hnone => (hframe i hnone).trans BitVec.getLsbD_zero
  · obtain ⟨p, hp, rfl⟩ := hspells.field f hf
    exact hinside p hp

namespace Reencodes

variable {op' : Operation} {v v' w' : Word}

/-- The fields that are read keep their values. -/
theorem value_eq (h : l.Reencodes w op w') {f : Field} (hf : f ∈ l.fieldsRead w) :
    f.value w' = f.value w := by
  refine Field.value_congr fun i hi => ?_
  exact Bool.eq_iff_iff.mpr ((h.bit i).trans (and_iff_left ⟨f, hf, hi⟩))

/-- Words that agree on the fields that are read have the same reencoding. -/
theorem eq_of_agree (hv : l.Reencodes v op' v') (hw : l.Reencodes w op w')
    (hagree : ∀ f ∈ l.fieldsRead w, f.value v = f.value w) : v' = w' := by
  have hread : l.fieldsRead v = l.fieldsRead w :=
    fieldsRead_congr (hagree _ (opClass_mem_fieldsRead l w))
  apply BitVec.eq_of_getLsbD_eq
  intro i _
  rw [Bool.eq_iff_iff, hv.bit, hw.bit, hread]
  refine and_congr_left fun ⟨f, hf, hi⟩ => ?_
  rw [Field.getLsbD_of_covers hi v, Field.getLsbD_of_covers hi w, hagree f hf]

/-- Words with the same reencoding agree on the fields that are read. -/
theorem agree_of_eq (hv : l.Reencodes v op' v') (hw : l.Reencodes w op w') (heq : v' = w') :
    ∀ f ∈ l.fieldsRead w, f.value v = f.value w := by
  subst heq
  have hclass : l.opClass.value v = l.opClass.value w := by
    rw [← hv.value_eq (opClass_mem_fieldsRead l v), hw.value_eq (opClass_mem_fieldsRead l w)]
  intro f hf
  rw [← hw.value_eq hf, hv.value_eq (fieldsRead_congr hclass ▸ hf)]

end Reencodes

/-- Words that agree on the fields that are read decode alike. -/
theorem decode_congr (h : l.Placed) {v w : Word}
    (hagree : ∀ f ∈ l.fieldsRead w, f.value v = f.value w) : l.decode v = l.decode w := by
  obtain ⟨op', v', hv⟩ := exists_reencodes h v
  obtain ⟨op, w', hw⟩ := exists_reencodes h w
  rw [hv.decode, ← hv.decode_again, hv.eq_of_agree hw hagree, hw.decode_again, hw.decode]

/-- No field is read above the width of an instruction word. -/
theorem top_le_of_fieldsRead (h : l.Placed) {w : Word} {f : Field} (hf : f ∈ l.fieldsRead w) :
    f.offset + f.width ≤ l.widths.instr := by
  obtain ⟨op, -, hspells⟩ := exists_spells h w
  obtain ⟨p, hp, rfl⟩ := hspells.field f hf
  exact (stacked_placements h op).top_le (List.mem_map_of_mem hp)

theorem decode_low (h : l.Placed) (w : Word) : l.decode (w.low l.widths.instr) = l.decode w := by
  refine decode_congr h fun f hf => Field.value_congr fun i hi => ?_
  have htop := top_le_of_fieldsRead h hf
  exact Word.getLsbD_low w (lt_of_lt_of_le hi.2 htop)

/-- Encoding undoes decoding up to the bits that the class does not read. Every word decodes to an
    operation that can be encoded, and the encoding has the bits of the fields that are read and no
    others. It decodes to the same operation and is its own reencoding. Two words decode alike
    exactly if they agree on the fields that are read, the class among them. -/
theorem encode_decode {widths : Widths} {l : Layout} (hl : ofWidths widths = pure l) (w : Word) :
    ∃ op w', l.decode w = .ok op ∧ l.encode op = pure w' ∧
      (∀ i, w'.getLsbD i = true ↔ w.getLsbD i = true ∧ ∃ f ∈ l.fieldsRead w, f.Covers i) ∧
      l.decode w' = l.decode w ∧ l.reencode w = pure w' ∧ l.reencode w' = pure w' ∧
      ∀ v, l.decode v = l.decode w ↔ ∀ f ∈ l.fieldsRead w, f.extract v = f.extract w := by
  obtain ⟨-, hplaced⟩ := placed_of_ofWidths hl
  obtain ⟨op, w', h⟩ := exists_reencodes hplaced w
  have hreencode {u : Word} (hu : l.decode u = .ok op) : l.reencode u = pure w' :=
    Attempt.bind_eq_pure.mpr ⟨op, Attempt.liftM_eq_pure.mpr hu, h.encode⟩
  refine ⟨op, w', h.decode, h.encode, h.bit, h.decode_again.trans h.decode.symm,
    hreencode h.decode, hreencode h.decode_again, fun v => ?_⟩
  obtain ⟨op', v', hv⟩ := exists_reencodes hplaced v
  have hagree : (∀ f ∈ l.fieldsRead w, f.extract v = f.extract w) ↔
      ∀ f ∈ l.fieldsRead w, f.value v = f.value w := by
    refine forall₂_congr fun f hf => ?_
    rw [Field.extract_of_inside (h.inside f hf), Field.extract_of_inside (h.inside f hf),
      Except.ok.injEq]
  rw [hagree]
  constructor
  · intro hdecode
    rw [hv.decode, h.decode, Except.ok.injEq] at hdecode
    subst hdecode
    exact hv.agree_of_eq h (Attempt.pure_inj.mp (hv.encode.symm.trans h.encode))
  · intro hagree
    rw [hv.decode, ← hv.decode_again, hv.eq_of_agree h hagree, h.decode_again, h.decode]

/-- In a layout of 77 bits, a timebase increment with every bit set that its class does not read, up
    to the top of the word, keeps its class, its ALU operation and its immediate. -/
theorem encode_decode_junk :
    ∃ l, ofWidths ⟨77, 3, 5, 0, ⟨7, 9, 2, 0, 1⟩⟩ = pure l ∧
      l.decode 0xffffffffffffecffffffffffffffffff = .ok (.incQclk .zero (.imm 0xffffffff)) ∧
      l.reencode 0xffffffffffffecffffffffffffffffff = pure 0xcffffffffe000000000 ∧
      l.decode 0xcffffffffe000000000 = .ok (.incQclk .zero (.imm 0xffffffff)) ∧
      ∀ v, l.decode v = .ok (.incQclk .zero (.imm 0xffffffff)) ↔
        ∀ f ∈ [l.opClass, l.aluOp, l.immediate],
          f.extract v = f.extract 0xffffffffffffecffffffffffffffffff := by
  have hl : ∃ l, ofWidths ⟨77, 3, 5, 0, ⟨7, 9, 2, 0, 1⟩⟩ = pure l ∧
      l.decode 0xffffffffffffecffffffffffffffffff = .ok (.incQclk .zero (.imm 0xffffffff)) ∧
      l.reencode 0xffffffffffffecffffffffffffffffff = pure 0xcffffffffe000000000 ∧
      l.fieldsRead 0xffffffffffffecffffffffffffffffff = [l.opClass, l.aluOp, l.immediate] :=
    ⟨_, rfl, rfl, rfl, rfl⟩
  obtain ⟨l, hl, hdecode, hreencode, hread⟩ := hl
  obtain ⟨op, w', -, -, -, hagain, hreencode', -, hiff⟩ :=
    encode_decode hl 0xffffffffffffecffffffffffffffffff
  obtain rfl := Attempt.pure_inj.mp (hreencode'.symm.trans hreencode)
  rw [hread, hdecode] at hiff
  exact ⟨l, hl, hdecode, hreencode, hagain.trans hdecode, hiff⟩

end Layout

end Sequencer

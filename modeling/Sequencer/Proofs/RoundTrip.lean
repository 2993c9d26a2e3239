import Mathlib
import Sequencer.Isa.Encoding
import Sequencer.Proofs.Layout

/-! Decoding undoes encoding.

    The values of an operation go to fields that are listed from the top of the word downwards
    (`stacked_placements`). So a later value never touches a bit of an earlier field, and in the
    finished word every field holds its value (`assemble_spec`). The class field among them selects
    the reading, and the reading finds the values again (`decode_of_extract`). -/

namespace Sequencer

/-- Fields listed from bit `top` downwards, each below the one before it. -/
def Field.Stacked : Nat → List Field → Prop
  | _, [] => True
  | top, f :: fs => f.width < 128 ∧ f.offset + f.width ≤ top ∧ Stacked f.offset fs

namespace Layout

/-! ### Assembling a word -/

/-- Placing values into stacked fields changes no bit above them, and every field holds its value in
    the end. -/
theorem assemble_spec : ∀ {ps : List Placement} {top : Nat} {raw w : Word}, top ≤ 128 →
    Field.Stacked top (ps.map Placement.field) → assemble raw ps = pure w →
    (∀ i, top ≤ i → w.getLsbD i = raw.getLsbD i) ∧ ∀ p ∈ ps, p.field.extract w = .ok p.value
  | [], _, raw, w, _, _, h => by
    obtain rfl : raw = w := Attempt.pure_inj.mp h
    exact ⟨fun _ _ => rfl, by simp⟩
  | p :: ps, top, raw, w, htop, ⟨hwidth, hbelow, hrest⟩, h => by
    have hin : p.field.Inside := ⟨hwidth, le_trans hbelow htop⟩
    rw [assemble, Field.insert_of_inside hin] at h
    obtain ⟨r, hr, hps⟩ := Attempt.bind_eq_pure.mp h
    rw [Attempt.liftM_eq_pure, Except.ok.injEq] at hr
    by_cases hfit : p.value.toNat < 2 ^ p.field.width
    · rw [if_pos hfit] at hr
      subst hr
      obtain ⟨hframe, hvalues⟩ := assemble_spec (by omega) hrest hps
      constructor
      · intro i hi
        have hout : ¬ p.field.Covers i := fun hc => by have := hc.2; omega
        rw [hframe i (by omega), Field.getLsbD_put hin hfit, if_neg hout]
      · rw [List.forall_mem_cons]
        refine ⟨?_, hvalues⟩
        rw [Field.extract_of_inside hin, Field.value_congr fun i hi => hframe i hi.1,
          Field.value_put_self hin hfit]
    · rw [if_neg hfit] at hr
      subst hr
      exact absurd hps (Attempt.throw_ne_pure _ _)

/-- The values of an operation are placed from the top of the word downwards. -/
theorem stacked_placements {l : Layout} (h : l.Placed) (op : Operation) :
    Field.Stacked l.widths.instr ((l.placements op).map Placement.field) := by
  obtain ⟨⟨hinstr, hreg, haddr, hid, henv, hphase, hfreq, hamp, hcfg⟩, ⟨c1, c2⟩, ⟨o1, o2⟩, ⟨i1, i2⟩,
    ⟨x1, x2⟩, ⟨y1, y2⟩, ⟨w1, w2⟩, ⟨j1, j2⟩, hmax, ⟨q1, q2⟩, hpulseReg, hpulse⟩ := h
  have hregMax : l.widths.regAddr ≤ l.widths.belowIn1 := le_max_left _ _
  have haddrMax : l.widths.instrAddr ≤ l.widths.belowIn1 := le_max_right _ _
  cases op with
  | regAlu op in0 in1 write =>
    cases in0 <;> simp [placements, placeClass, placeIn0, placeRegister, Field.Stacked] <;> omega
  | jump addr => simp [placements, placeClass, placeAddress, Field.Stacked]; omega
  | jumpCond op in0 in1 addr =>
    cases in0 <;>
      simp [placements, placeClass, placeIn0, placeRegister, placeAddress, Field.Stacked] <;> omega
  | aluFproc op in0 write id =>
    cases in0 <;>
      simp [placements, placeClass, placeIn0, placeRegister, placeRequestId, Field.Stacked] <;>
      omega
  | jumpFproc op in0 addr id =>
    cases in0 <;>
      simp [placements, placeClass, placeIn0, placeRegister, placeAddress, placeRequestId,
        Field.Stacked] <;> omega
  | incQclk op in0 =>
    cases in0 <;> simp [placements, placeClass, placeIn0, placeRegister, Field.Stacked] <;> omega
  | sync id => simp [placements, placeClass, placeRequestId, Field.Stacked]; omega
  | pulseWrite trigger cmdTime reg fields =>
    obtain ⟨⟨⟨a1, a2⟩, ⟨a3, a4⟩, ⟨a5, a6⟩⟩, ⟨⟨b1, b2⟩, ⟨b3, b4⟩, ⟨b5, b6⟩⟩,
      ⟨⟨d1, d2⟩, ⟨d3, d4⟩, ⟨d5, d6⟩⟩, ⟨⟨e1, e2⟩, ⟨e3, e4⟩, ⟨e5, e6⟩⟩,
      ⟨⟨f1, f2⟩, ⟨f3, f4⟩, ⟨f5, f6⟩⟩⟩ := hpulse
    simp only [PulseSlot.lsb] at b2 d2 e2 f2
    simp [placements, placeClass, placeRegister, placePulseField, Bundle.zipWith, Bundle.toList,
      Field.Stacked, hpulseReg]
    omega
  | done => simp [placements, placeClass, Field.Stacked]; omega
  | pulseReset => simp [placements, placeClass, Field.Stacked]; omega
  | unknown bits => simp [placements, Field.Stacked]; omega

theorem encode_eq_assemble {l : Layout} {op : Operation} {w : Word} (h : l.encode op = pure w) :
    assemble 0 (l.placements op) = pure w ∧
      ∀ bits, op = .unknown bits → OpClass.ofBits? bits = none := by
  cases op with
  | unknown bits =>
    simp only [encode] at h
    split at h
    case isTrue => exact absurd h (Attempt.throw_ne_pure _ _)
    case isFalse hnone =>
      refine ⟨h, fun b hb => ?_⟩
      cases hb
      exact Option.not_isSome_iff_eq_none.mp hnone
  | _ => exact ⟨h, nofun⟩

/-! ### Reading the word back -/

theorem toUInt8_ofNat (x : UInt8) : (BitVec.ofNat 128 x.toNat).toNat.toUInt8 = x := by
  have := x.toNat_lt
  rw [BitVec.toNat_ofNat, Nat.mod_eq_of_lt (by omega)]
  simp

theorem toUInt16_ofNat (x : UInt16) : (BitVec.ofNat 128 x.toNat).toNat.toUInt16 = x := by
  have := x.toNat_lt
  rw [BitVec.toNat_ofNat, Nat.mod_eq_of_lt (by omega)]
  simp

theorem toUInt32_ofNat (x : UInt32) : (BitVec.ofNat 128 x.toNat).toNat.toUInt32 = x := by
  have := x.toNat_lt
  rw [BitVec.toNat_ofNat, Nat.mod_eq_of_lt (by omega)]
  simp

theorem ofNat_toUInt32_beq_one (b : Bool) :
    (BitVec.ofNat 128 b.toUInt32.toNat == (1 : Word)) = b := by
  cases b <;> rfl

/-- A word whose class field holds a class is read as that class. -/
theorem decode_of_class {l : Layout} {w : Word} {c : OpClass}
    (h : l.opClass.extract w = .ok (.ofNat 128 c.bits.toNat)) : l.decode w = l.operationOf c w := by
  simp only [decode, classBits, h, Checked.ok_bind, Checked.pure_eq_ok, toUInt8_ofNat,
    OpClass.ofBits?_bits]

theorem aluOpOf_eq {l : Layout} {w : Word} {op : AluOp}
    (h : l.aluOp.extract w = .ok (.ofNat 128 op.bits.toNat)) : l.aluOpOf w = .ok op := by
  simp only [aluOpOf, h, Checked.ok_bind, Checked.pure_eq_ok, toUInt8_ofNat, AluOp.ofBits_bits]

theorem registerOf_eq {f : Field} {w : Word} {reg : UInt8}
    (h : f.extract w = .ok (.ofNat 128 reg.toNat)) : registerOf f w = .ok reg := by
  simp only [registerOf, h, Checked.ok_bind, Checked.pure_eq_ok, toUInt8_ofNat]

theorem addressOf_eq {f : Field} {w : Word} {addr : UInt16}
    (h : f.extract w = .ok (.ofNat 128 addr.toNat)) : addressOf f w = .ok addr := by
  simp only [addressOf, h, Checked.ok_bind, Checked.pure_eq_ok, toUInt16_ofNat]

theorem dataOf_eq {f : Field} {w : Word} {x : UInt32}
    (h : f.extract w = .ok (.ofNat 128 x.toNat)) : dataOf f w = .ok x := by
  simp only [dataOf, h, Checked.ok_bind, Checked.pure_eq_ok, toUInt32_ofNat]

/-- The class that an input 0 selects reads that input from the place it was put to. -/
theorem in0Of_classFor {l : Layout} {w : Word} {imm reg : OpClass} {in0 : Operand}
    (himm : imm.immediateIn0 = true) (hreg : reg.immediateIn0 = false)
    (h : (l.placeIn0 in0).field.extract w = .ok (l.placeIn0 in0).value) :
    l.in0Of (classFor imm reg in0) w = .ok in0 := by
  cases in0 with
  | imm value =>
    have hdata : dataOf l.immediate w = .ok value := dataOf_eq h
    simp only [in0Of, classFor, himm, if_true, hdata, Checked.ok_bind, Checked.pure_eq_ok]
  | reg r =>
    have hdata : registerOf l.in0Reg w = .ok r := registerOf_eq h
    simp only [in0Of, classFor, hreg, Bool.false_eq_true, if_false, hdata, Checked.ok_bind,
      Checked.pure_eq_ok]

theorem pulseFieldOf_eq {s : PulseSlot} {f : PulseField} {name : String} {w : Word}
    (h : ∀ p ∈ placePulseField s f name, p.field.extract w = .ok p.value) :
    pulseFieldOf s w = .ok f := by
  simp only [placePulseField, List.forall_mem_cons] at h
  obtain ⟨hen, hsel, hval, -⟩ := h
  simp only [pulseFieldOf, hen, hsel, dataOf_eq hval, Checked.ok_bind, Checked.pure_eq_ok,
    ofNat_toUInt32_beq_one]

theorem pulseFieldsOf_eq {l : Layout} {fields : Bundle PulseField} {w : Word}
    (h : ∀ p ∈
        ((l.pulse.zipWith placePulseField fields).zipWith (· ·) Bundle.titles).toList.flatten,
      p.field.extract w = .ok p.value) : l.pulseFieldsOf w = .ok fields := by
  simp only [Bundle.zipWith, Bundle.toList, List.flatten_cons, List.forall_mem_append] at h
  obtain ⟨h1, h2, h3, h4, h5, -⟩ := h
  simp only [pulseFieldsOf, pulseFieldOf_eq h1, pulseFieldOf_eq h2, pulseFieldOf_eq h3,
    pulseFieldOf_eq h4, pulseFieldOf_eq h5, Checked.ok_bind, Checked.pure_eq_ok]

/-- A word that holds every value of an operation in its field is read as that operation. -/
theorem decode_of_extract {l : Layout} {op : Operation} {w : Word}
    (hunknown : ∀ bits, op = .unknown bits → OpClass.ofBits? bits = none)
    (h : ∀ p ∈ l.placements op, p.field.extract w = .ok p.value) : l.decode w = .ok op := by
  cases op with
  | regAlu op in0 in1 write =>
    simp only [placements, placeClass, placeRegister, List.cons_append, List.nil_append,
      List.forall_mem_cons] at h
    obtain ⟨hc, ho, h0, h1, hw, -⟩ := h
    have hin0 : l.in0Of (classFor .regAluI .regAlu in0) w = .ok in0 := in0Of_classFor rfl rfl h0
    rw [decode_of_class hc]
    cases in0 <;>
      simp only [classFor] at hin0 <;>
      simp only [classFor, operationOf, hin0, aluOpOf_eq ho, registerOf_eq h1, registerOf_eq hw,
        Checked.ok_bind, Checked.pure_eq_ok]
  | jump addr =>
    simp only [placements, placeClass, placeAddress, List.cons_append, List.nil_append,
      List.forall_mem_cons] at h
    obtain ⟨hc, -, ha, -⟩ := h
    rw [decode_of_class hc]
    simp only [operationOf, addressOf_eq ha, Checked.ok_bind, Checked.pure_eq_ok]
  | jumpCond op in0 in1 addr =>
    simp only [placements, placeClass, placeRegister, placeAddress, List.cons_append,
      List.nil_append, List.forall_mem_cons] at h
    obtain ⟨hc, ho, h0, h1, ha, -⟩ := h
    have hin0 : l.in0Of (classFor .jumpCondI .jumpCond in0) w = .ok in0 := in0Of_classFor rfl rfl h0
    rw [decode_of_class hc]
    cases in0 <;>
      simp only [classFor] at hin0 <;>
      simp only [classFor, operationOf, hin0, aluOpOf_eq ho, registerOf_eq h1, addressOf_eq ha,
        Checked.ok_bind, Checked.pure_eq_ok]
  | aluFproc op in0 write id =>
    simp only [placements, placeClass, placeRegister, placeRequestId, List.cons_append,
      List.nil_append, List.forall_mem_cons] at h
    obtain ⟨hc, ho, h0, hw, hid, -⟩ := h
    have hin0 : l.in0Of (classFor .aluFprocI .aluFproc in0) w = .ok in0 := in0Of_classFor rfl rfl h0
    rw [decode_of_class hc]
    cases in0 <;>
      simp only [classFor] at hin0 <;>
      simp only [classFor, operationOf, hin0, aluOpOf_eq ho, registerOf_eq hw, addressOf_eq hid,
        Checked.ok_bind, Checked.pure_eq_ok]
  | jumpFproc op in0 addr id =>
    simp only [placements, placeClass, placeAddress, placeRequestId, List.cons_append,
      List.nil_append, List.forall_mem_cons] at h
    obtain ⟨hc, ho, h0, ha, hid, -⟩ := h
    have hin0 : l.in0Of (classFor .jumpFprocI .jumpFproc in0) w = .ok in0 :=
      in0Of_classFor rfl rfl h0
    rw [decode_of_class hc]
    cases in0 <;>
      simp only [classFor] at hin0 <;>
      simp only [classFor, operationOf, hin0, aluOpOf_eq ho, addressOf_eq ha, addressOf_eq hid,
        Checked.ok_bind, Checked.pure_eq_ok]
  | incQclk op in0 =>
    simp only [placements, placeClass, List.cons_append, List.nil_append, List.forall_mem_cons] at h
    obtain ⟨hc, ho, h0, -⟩ := h
    have hin0 : l.in0Of (classFor .incQclkI .incQclk in0) w = .ok in0 := in0Of_classFor rfl rfl h0
    rw [decode_of_class hc]
    cases in0 <;>
      simp only [classFor] at hin0 <;>
      simp only [classFor, operationOf, hin0, aluOpOf_eq ho, Checked.ok_bind, Checked.pure_eq_ok]
  | sync id =>
    simp only [placements, placeClass, placeRequestId, List.cons_append, List.nil_append,
      List.forall_mem_cons] at h
    obtain ⟨hc, -, hid, -⟩ := h
    rw [decode_of_class hc]
    simp only [operationOf, addressOf_eq hid, Checked.ok_bind, Checked.pure_eq_ok]
  | pulseWrite trigger cmdTime reg fields =>
    simp only [placements, placeClass, placeRegister, List.cons_append, List.nil_append,
      List.forall_mem_cons] at h
    obtain ⟨hc, -, ht, hr, hfields⟩ := h
    rw [decode_of_class hc]
    cases trigger <;>
      simp only [Bool.false_eq_true, if_false, if_true, operationOf, dataOf_eq ht, registerOf_eq hr,
        pulseFieldsOf_eq hfields, Checked.ok_bind, Checked.pure_eq_ok] <;> rfl
  | done =>
    simp only [placements, placeClass, List.forall_mem_cons] at h
    rw [decode_of_class h.1]
    rfl
  | pulseReset =>
    simp only [placements, placeClass, List.forall_mem_cons] at h
    rw [decode_of_class h.1]
    rfl
  | unknown bits =>
    simp only [placements, List.forall_mem_singleton] at h
    simp only [decode, classBits, h, Checked.ok_bind, Checked.pure_eq_ok, toUInt8_ofNat,
      hunknown bits rfl]

/-- An encoded word fits its width, so that program memory stores it as it is, and is read as the
    operation it was made from. -/
theorem decode_encode {widths : Widths} {l : Layout} {op : Operation} {w : Word}
    (hl : ofWidths widths = pure l) (h : l.encode op = pure w) :
    w.toNat < 2 ^ widths.instr ∧ w.low widths.instr = w ∧ l.decode w = .ok op := by
  obtain ⟨rfl, hplaced⟩ := placed_of_ofWidths hl
  obtain ⟨hassemble, hunknown⟩ := encode_eq_assemble h
  obtain ⟨hframe, hvalues⟩ :=
    assemble_spec hplaced.limited.instr (stacked_placements hplaced op) hassemble
  have hlt : w.toNat < 2 ^ l.widths.instr :=
    Word.toNat_lt_of_getLsbD fun i hi => (hframe i hi).trans BitVec.getLsbD_zero
  exact ⟨hlt, Word.low_of_toNat_lt hlt, decode_of_extract hunknown hvalues⟩

/-- A triggered pulse in a layout of 77 bits without ids and without amplitude bits. -/
theorem decode_encode_narrow :
    ∃ (l : Layout) (w : Word),
      ofWidths ⟨77, 3, 5, 0, ⟨7, 9, 2, 0, 1⟩⟩ = pure l ∧
      l.encode (.pulseWrite true 90 5 ⟨⟨true, false, 101⟩, ⟨true, true, 300⟩, ⟨false, false, 3⟩,
        ⟨true, false, 0⟩, ⟨false, true, 1⟩⟩) = pure w ∧
      w.toNat < 2 ^ 77 ∧ w.low 77 = w ∧
      l.decode w = .ok (.pulseWrite true 90 5 ⟨⟨true, false, 101⟩, ⟨true, true, 300⟩,
        ⟨false, false, 3⟩, ⟨true, false, 0⟩, ⟨false, true, 1⟩⟩) := by
  have hl : ofWidths ⟨77, 3, 5, 0, ⟨7, 9, 2, 0, 1⟩⟩ =
      pure ⟨⟨77, 3, 5, 0, ⟨7, 9, 2, 0, 1⟩⟩, ⟨72, 5⟩, ⟨69, 3⟩, ⟨37, 32⟩, ⟨66, 3⟩, ⟨34, 3⟩, ⟨31, 3⟩,
        ⟨29, 5⟩, ⟨29, 0⟩, ⟨34, 3⟩, ⟨⟨⟨33, 1⟩, ⟨32, 1⟩, ⟨25, 7⟩⟩, ⟨⟨24, 1⟩, ⟨23, 1⟩, ⟨14, 9⟩⟩,
        ⟨⟨13, 1⟩, ⟨12, 1⟩, ⟨10, 2⟩⟩, ⟨⟨9, 1⟩, ⟨8, 1⟩, ⟨8, 0⟩⟩, ⟨⟨7, 1⟩, ⟨6, 1⟩, ⟨5, 1⟩⟩⟩⟩ := rfl
  exact ⟨_, 0x120000000b56cbcb0e60, hl, rfl, decode_encode hl rfl⟩

end Layout

end Sequencer

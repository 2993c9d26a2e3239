import Mathlib
import Sequencer.Proofs.Decoding
import Sequencer.Proofs.Reencoding

/-! Which operations can be encoded.

    `Operation.requirements` lists what an operation has to meet, in the order in which its values
    are placed. Encoding also places the class, immediates and flags; these always fit, so the first
    placement that does not fit is the first requirement that is not met (`requires_encode`). An
    operation is encoded exactly if it fits, and no error is ever about an immediate. -/

namespace Sequencer

namespace Operation

/-- The value fits in `width` bits. -/
def fitting (value width : Nat) (error : EncodeError) : Requirement EncodeError :=
  ⟨value < 2 ^ width, error⟩

def registerFits (w : Widths) (reg : UInt8) : Requirement EncodeError :=
  fitting reg.toNat w.regAddr (.register reg)

def addressFits (w : Widths) (addr : UInt16) : Requirement EncodeError :=
  fitting addr.toNat w.instrAddr (.address addr)

def requestIdFits (w : Widths) (id : UInt16) : Requirement EncodeError :=
  fitting id.toNat w.requestId (.requestId id)

/-- The value of a pulse parameter fits, whether or not it is written. -/
def valueFits (width : Nat) (f : PulseField) (name : String) : Requirement EncodeError :=
  fitting f.value.toNat width (.pulseField name f.value width)

/-- An input 0 from a register has to fit; an immediate always does. -/
def in0Fits (w : Widths) : Operand → List (Requirement EncodeError)
  | .imm _ => []
  | .reg reg => [registerFits w reg]

/-- What an operation has to meet, in the order in which it is checked. -/
def requirements (w : Widths) : Operation → List (Requirement EncodeError)
  | .regAlu _ in0 in1 write => in0Fits w in0 ++ [registerFits w in1, registerFits w write]
  | .jump addr => [addressFits w addr]
  | .jumpCond _ in0 in1 addr => in0Fits w in0 ++ [registerFits w in1, addressFits w addr]
  | .aluFproc _ in0 write id => in0Fits w in0 ++ [registerFits w write, requestIdFits w id]
  | .jumpFproc _ in0 addr id => in0Fits w in0 ++ [addressFits w addr, requestIdFits w id]
  | .incQclk _ in0 => in0Fits w in0
  | .sync id => [requestIdFits w id]
  | .pulseWrite _ _ reg fields =>
    [registerFits w reg,
     valueFits w.pulse.envWord fields.envWord "Envelope word",
     valueFits w.pulse.phase fields.phase "Phase",
     valueFits w.pulse.freq fields.freq "Frequency",
     valueFits w.pulse.amp fields.amp "Amplitude",
     valueFits w.pulse.cfg fields.cfg "Config"]
  | .done | .pulseReset => []
  | .unknown bits =>
    [⟨(OpClass.ofBits? bits).isNone, .classAssigned bits⟩,
     fitting bits.toNat 5 (.classBitsOutOfRange bits)]

theorem in0Fits_met {w : Widths} {in0 : Operand} :
    (∀ r ∈ in0Fits w in0, r.met = true) ↔ in0.Fits w := by
  cases in0 <;> simp [in0Fits, registerFits, fitting, Operand.Fits]

/-- An operation fits when it meets what is required of it. -/
theorem requirements_met {w : Widths} {op : Operation} :
    Requirement.firstError (op.requirements w) = none ↔ op.Fits w := by
  rw [Requirement.firstError_eq_none]
  cases op with
  | unknown bits => simp [requirements, fitting, Fits, and_comm]
  | _ =>
    simp only [requirements, Fits, List.forall_mem_append, List.forall_mem_cons, List.not_mem_nil,
      false_implies, implies_true, and_true, in0Fits_met, registerFits, addressFits, requestIdFits,
      valueFits, fitting, decide_eq_true_eq]

/-- No requirement is about an immediate. -/
theorem kind_of_requirements {w : Widths} {op : Operation} :
    ∀ r ∈ op.requirements w, r.error.kind ≠ .immediate := by
  cases op with
  | regAlu _ in0 | jumpCond _ in0 | aluFproc _ in0 | jumpFproc _ in0 | incQclk _ in0 =>
    cases in0 <;>
      simp [requirements, in0Fits, registerFits, addressFits, requestIdFits, fitting,
        EncodeError.kind]
  | _ =>
    simp [requirements, registerFits, addressFits, requestIdFits, valueFits, fitting,
      EncodeError.kind]

end Operation

/-- The value of a placement fits its field. -/
def Placement.requirement (p : Placement) : Requirement EncodeError :=
  ⟨p.value.toNat < 2 ^ p.field.width, p.error⟩

namespace Layout

variable {l : Layout}

/-- Values are placed as long as they fit. -/
theorem requires_assemble : ∀ {ps : List Placement} (raw : Word), (∀ p ∈ ps, p.field.Inside) →
    (assemble raw ps).Requires (ps.map Placement.requirement)
  | [], raw, _ => Attempt.requires_of_pure rfl rfl
  | p :: ps, raw, h => by
    rw [List.forall_mem_cons] at h
    rw [assemble, Field.insert_of_inside h.1]
    by_cases hfit : p.value.toNat < 2 ^ p.field.width
    · have hmet : p.requirement.met = true := decide_eq_true hfit
      have hrest := requires_assemble (p.field.put raw p.value) h.2
      rw [if_pos hfit]
      refine ⟨fun hnone => ?_, fun e he => ?_⟩
      · rw [List.map_cons, Requirement.firstError_cons_of_met hmet] at hnone
        exact hrest.succeeds hnone
      · rw [List.map_cons, Requirement.firstError_cons_of_met hmet] at he
        exact hrest.refused e he
    · have hmet : p.requirement.met = false := decide_eq_false hfit
      rw [if_neg hfit]
      refine Attempt.requires_of_throw (e := p.error) ?_ rfl
      rw [List.map_cons, Requirement.firstError_cons_of_not_met hmet]
      rfl

/-! ### The requirement of a placement -/

theorem toNat_ofNat {n : Nat} (h : n < 2 ^ 32) : (BitVec.ofNat 128 n).toNat = n :=
  (BitVec.toNat_ofNat ..).trans (Nat.mod_eq_of_lt (by omega))

/-- The opcode always fits. -/
theorem firstError_placeClass (h : l.Placed) (c : OpClass) (op : AluOp)
    (rs : List (Requirement EncodeError)) :
    Requirement.firstError ((l.placeClass c op).map Placement.requirement ++ rs) =
      Requirement.firstError rs := by
  refine Requirement.firstError_append_of_met (fun r hr => ?_) rs
  simp only [placeClass, List.map_cons, List.map_nil, List.mem_cons, List.not_mem_nil, or_false]
    at hr
  rcases hr with rfl | rfl
  · cases c <;> simp [Placement.requirement, h.opClass.width_eq, OpClass.bits]
  · cases op <;> simp [Placement.requirement, h.aluOp.width_eq, AluOp.bits]

theorem requirement_immediate (h : l.Placed) (value : UInt32) (error : EncodeError) :
    (Placement.requirement ⟨l.immediate, .ofNat 128 value.toNat, error⟩).met = true := by
  have hlt := value.toNat_lt
  simpa [Placement.requirement, toNat_ofNat hlt, h.immediate.width_eq] using hlt

theorem requirement_placeRegister {f : Field} {w : Widths} (hf : f.width = w.regAddr)
    (reg : UInt8) : (placeRegister f reg).requirement = Operation.registerFits w reg := by
  have hlt := reg.toNat_lt
  rw [placeRegister, Placement.requirement, toNat_ofNat (by omega), hf]
  rfl

theorem requirement_placeAddress (h : l.Placed) (addr : UInt16) :
    (l.placeAddress addr).requirement = Operation.addressFits l.widths addr := by
  have hlt := addr.toNat_lt
  rw [placeAddress, Placement.requirement, toNat_ofNat (by omega), h.jumpAddr.width_eq]
  rfl

theorem requirement_placeRequestId (h : l.Placed) (id : UInt16) :
    (l.placeRequestId id).requirement = Operation.requestIdFits l.widths id := by
  have hlt := id.toNat_lt
  rw [placeRequestId, Placement.requirement, toNat_ofNat (by omega), h.requestId.width_eq]
  rfl

theorem firstError_placeIn0 (h : l.Placed) (in0 : Operand) (rs : List (Requirement EncodeError)) :
    Requirement.firstError ((l.placeIn0 in0).requirement :: rs) =
      Requirement.firstError (Operation.in0Fits l.widths in0 ++ rs) := by
  cases in0 with
  | imm value => exact Requirement.firstError_cons_of_met (requirement_immediate h value _) rs
  | reg reg =>
    rw [placeIn0, requirement_placeRegister h.in0Reg.width_eq]
    rfl

/-- The flags of a pulse parameter always fit. -/
theorem firstError_placePulseField {s : PulseSlot} {top width : Nat} (hs : s.Below top width)
    (f : PulseField) (name : String) (rs : List (Requirement EncodeError)) :
    Requirement.firstError ((placePulseField s f name).map Placement.requirement ++ rs) =
      Requirement.firstError (Operation.valueFits width f name :: rs) := by
  have hflag (b : Bool) : (BitVec.ofNat 128 b.toUInt32.toNat).toNat < 2 ^ 1 := by cases b <;> decide
  have hlt := f.value.toNat_lt
  rw [placePulseField, List.map_cons, List.map_cons, List.cons_append, List.cons_append]
  rw [Requirement.firstError_cons_of_met, Requirement.firstError_cons_of_met]
  · rw [List.map_cons, Placement.requirement, toNat_ofNat hlt, hs.value.width_eq]
    rfl
  · exact decide_eq_true (hs.regSel.width_eq ▸ hflag f.regSel)
  · exact decide_eq_true (hs.writeEn.width_eq ▸ hflag f.writeEn)

/-- The first placement that does not fit is the first requirement that is not met. -/
theorem firstError_placements (h : l.Placed) {op : Operation}
    (hop : ∀ bits, op = .unknown bits → OpClass.ofBits? bits = none) :
    Requirement.firstError ((l.placements op).map Placement.requirement) =
      Requirement.firstError (op.requirements l.widths) := by
  have hin1 := requirement_placeRegister h.in1Reg.width_eq
  have hwrite := requirement_placeRegister h.writeReg.width_eq
  cases op with
  | pulseWrite trigger cmdTime reg fields =>
    simp only [placements, Bundle.zipWith, Bundle.toList, Bundle.titles, List.flatten_cons,
      List.flatten_nil, List.map_append, List.map_cons, List.map_nil, List.append_assoc,
      firstError_placeClass h, List.cons_append, List.nil_append,
      requirement_immediate h, if_true, h.pulseReg, hin1, Operation.requirements,
      Requirement.firstError, firstError_placePulseField h.pulse.envWord,
      firstError_placePulseField h.pulse.phase, firstError_placePulseField h.pulse.freq,
      firstError_placePulseField h.pulse.amp, firstError_placePulseField h.pulse.cfg]
  | unknown bits =>
    have hlt := bits.toNat_lt
    have hmet : (OpClass.ofBits? bits).isNone = true := by rw [hop bits rfl]; rfl
    refine Eq.trans ?_ (Requirement.firstError_cons_of_met hmet _).symm
    rw [placements, List.map_singleton, Placement.requirement, toNat_ofNat (by omega),
      h.opClass.width_eq]
    rfl
  | done =>
    have hclass := firstError_placeClass h .done .id0 []
    rwa [List.append_nil] at hclass
  | pulseReset =>
    have hclass := firstError_placeClass h .pulseReset .id0 []
    rwa [List.append_nil] at hclass
  | _ =>
    simp only [placements, List.map_append, List.map_cons, List.map_nil, firstError_placeClass h,
      firstError_placeIn0 h, hin1, hwrite, requirement_placeAddress h,
      requirement_placeRequestId h, Operation.requirements, List.append_nil]

/-- Encoding is refused for the first requirement that the operation does not meet. -/
theorem requires_encode (h : l.Placed) (op : Operation) :
    (l.encode op).Requires (op.requirements l.widths) := by
  by_cases hop : ∀ bits, op = .unknown bits → OpClass.ofBits? bits = none
  · have hinside : ∀ p ∈ l.placements op, p.field.Inside := fun p hp =>
      (stacked_placements h op).inside h.limited.instr (List.mem_map_of_mem hp)
    rw [encode_of_unassigned hop]
    exact (requires_assemble 0 hinside).congr (firstError_placements h hop)
  · push Not at hop
    obtain ⟨bits, rfl, hbits⟩ := hop
    obtain ⟨c, hc⟩ := Option.ne_none_iff_exists'.mp hbits
    refine Attempt.requires_of_throw (e := .classAssigned bits) ?_ ?_
    · exact Requirement.firstError_cons_of_not_met (by simp [hc]) _
    · simp [encode, hc]

theorem Placed.returns_encode (h : l.Placed) (op : Operation) : Attempt.Returns (l.encode op) :=
  (requires_encode h op).returns

/-- An operation is encoded exactly if every register, address, id and pulse value fits its field,
    and the bits of an unknown class are five and unassigned. Otherwise the error is that of the
    first value that does not fit, and it is never about an immediate. -/
theorem encode_accepts_exactly_fits {widths : Widths} {l : Layout} (hl : ofWidths widths = pure l)
    (op : Operation) :
    ((∃ w, l.encode op = pure w) ↔ op.Fits widths) ∧
      (∀ e, l.encode op = throw e ↔
        Requirement.firstError (op.requirements widths) = some e) ∧
      ∀ e, l.encode op = throw e → e.kind ≠ .immediate := by
  obtain ⟨rfl, hplaced⟩ := placed_of_ofWidths hl
  have hrequires := requires_encode hplaced op
  refine ⟨?_, hrequires.eq_throw_iff, fun e he => ?_⟩
  · rw [hrequires.exists_pure_iff, Operation.requirements_met]
  · obtain ⟨r, hr, rfl⟩ := Requirement.exists_of_firstError ((hrequires.eq_throw_iff e).mp he)
    exact Operation.kind_of_requirements r hr

/-- Without request ids and amplitude bits, in 77 bits: a request for id 0 is encoded and one for
    id 1 refused; of a register and an address that are both too large the register is reported, and
    an amplitude of 1 is refused although it is not written. -/
theorem encode_accepts_exactly_fits_narrow :
    ∃ l, ofWidths ⟨77, 3, 5, 0, ⟨7, 9, 2, 0, 1⟩⟩ = pure l ∧
      (∃ w, l.encode (.sync 0) = pure w) ∧ l.encode (.sync 1) = throw (.requestId 1) ∧
      l.encode (.jumpCond .eq (.reg 8) 9 32) = throw (.register 8) ∧
      l.encode (.pulseWrite false 0 7 ⟨{}, {}, {}, ⟨false, false, 1⟩, ⟨true, false, 2⟩⟩) =
        throw (.pulseField "Amplitude" 1 0) := by
  have hl : ∃ l, ofWidths ⟨77, 3, 5, 0, ⟨7, 9, 2, 0, 1⟩⟩ = pure l := ⟨_, rfl⟩
  obtain ⟨l, hl⟩ := hl
  refine ⟨l, hl, ?_, ?_, ?_, ?_⟩
  · exact (encode_accepts_exactly_fits hl _).1.mpr (show (0 : UInt16).toNat < 2 ^ 0 by decide)
  · exact ((encode_accepts_exactly_fits hl _).2.1 _).mpr (by decide)
  · exact ((encode_accepts_exactly_fits hl _).2.1 _).mpr (by decide)
  · exact ((encode_accepts_exactly_fits hl _).2.1 _).mpr (by decide)

end Layout

end Sequencer

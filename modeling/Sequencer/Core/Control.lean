import Sequencer.Config
import Sequencer.Isa.Operation

/-! The control unit.

    A core is in one of eight states. `Control.of` gives, for the state, the decoded operation and
    the timing inputs, the next state and the lines that drive the datapath during the cycle.

        FETCH_WAIT ──▶ DECODE ──▶ ALU_EXEC, INC_QCLK_EXEC, JUMP_COND_EXEC ──▶ FETCH_WAIT
                         │  ──▶ ALU_FPROC_WAIT ──▶ ALU_EXEC
                         │  ──▶ JUMP_FPROC_WAIT ──▶ JUMP_COND_EXEC
                         └─ ──▶ SYNC_WAIT ──▶ FETCH_WAIT -/

namespace Sequencer

/-- State of the control unit. -/
inductive State where
  | fetchWait
  | decode
  | aluExec
  | incQclkExec
  | jumpCondExec
  | aluFprocWait
  | jumpFprocWait
  | syncWait
  deriving DecidableEq, Repr, Inhabited

namespace State

/-- The state as the log writes it. -/
def text : State → String
  | fetchWait => "FETCH_WAIT"
  | decode => "DECODE"
  | aluExec => "ALU_EXEC"
  | incQclkExec => "INC_QCLK_EXEC"
  | jumpCondExec => "JUMP_COND_EXEC"
  | aluFprocWait => "ALU_FPROC_WAIT"
  | jumpFprocWait => "JUMP_FPROC_WAIT"
  | syncWait => "SYNC_WAIT"

/-- The state as reports write it. -/
def name : State → String
  | fetchWait => "FetchWait"
  | decode => "Decode"
  | aluExec => "AluExec"
  | incQclkExec => "IncQclkExec"
  | jumpCondExec => "JumpCondExec"
  | aluFprocWait => "AluFprocWait"
  | jumpFprocWait => "JumpFprocWait"
  | syncWait => "SyncWait"

def all : List State :=
  [fetchWait, decode, aluExec, incQclkExec, jumpCondExec, aluFprocWait, jumpFprocWait, syncWait]

/-- The state a report names. -/
def ofName? (s : String) : Option State := all.find? (fun st => st.name == s)

end State

/-- Source of ALU input 0. -/
inductive In0Sel where
  | imm
  | reg
  deriving DecidableEq, Repr, Inhabited

def In0Sel.ofOperand : Operand → In0Sel
  | .imm _ => imm
  | .reg _ => reg

/-- Source of ALU input 1. -/
inductive In1Sel where
  | reg
  | qclk
  | fproc
  deriving DecidableEq, Repr, Inhabited

/-- Control lines of one cycle. An absent selection means that the line does not matter. -/
structure Control where
  nextState : State
  /-- Load the memory output into the instruction register. -/
  instrLoad : Bool := false
  /-- Advance the program counter. -/
  pcInc : Bool := false
  /-- Jump. -/
  pcLoad : Bool := false
  /-- Jump if bit 0 of the ALU result is set. -/
  pcLoadCond : Bool := false
  in0Sel : Option In0Sel := none
  in1Sel : Option In1Sel := none
  aluOp : Option AluOp := none
  /-- Write the ALU result to a register. -/
  regWrite : Bool := false
  /-- Load the timebase from the ALU result. -/
  qclkLoad : Bool := false
  /-- Commit the pulse parameters that the instruction enables. -/
  pulseWrite : Bool := false
  /-- Allow the strobe when the timebase matches. -/
  strobeEn : Bool := false
  /-- Reset the phase for one cycle. -/
  pulseReset : Bool := false
  fprocEn : Bool := false
  syncEn : Bool := false
  done : Bool := false
  deriving DecidableEq, Repr

/-- What the control unit branches on besides its state and the operation. -/
structure TimingInputs where
  /-- Cycles already spent fetching this instruction. -/
  fetchCycle : UInt32 := 0
  timeMatch : Bool := false
  fprocReady : Bool := false
  syncReady : Bool := false
  deriving DecidableEq, Repr, Inhabited

namespace Control

/-- A state change without datapath activity. -/
def goto (next : State) : Control := { nextState := next }

instance : Inhabited Control := ⟨goto .fetchWait⟩

/-- Load the fetched word and advance. -/
def fetch : Control := { goto .decode with instrLoad := true, pcInc := true }

/-- Feed the ALU. -/
def alu (op : AluOp) (in0 : Operand) (in1 : In1Sel) (next : State) : Control :=
  { goto next with in0Sel := some (.ofOperand in0), in1Sel := some in1, aluOp := some op }

/-- A pulse instruction. A triggered one holds in decode until the timebase matches. -/
def pulse (trigger timeMatch : Bool) : Control :=
  if trigger then
    { goto (if timeMatch then .fetchWait else .decode) with
      pulseWrite := timeMatch, strobeEn := true }
  else { goto .fetchWait with pulseWrite := true }

/-- Wait for feedback in state `wait`, and feed the ALU with it when it is ready. -/
def fprocWait (op : AluOp) (in0 : Operand) (ready : Bool) (wait exec : State) : Control :=
  { (if ready then alu op in0 .fproc exec else goto wait) with fprocEn := true }

/-- Wait in `wait` for the feedback that the operation asks for. The instruction register does not
    change outside of a fetch, so the operation is one that asks. -/
def feedback (op : Operation) (ready : Bool) (wait exec : State) : Control :=
  match op with
  | .aluFproc op in0 _ _ | .jumpFproc op in0 _ _ => fprocWait op in0 ready wait exec
  | _ => goto .fetchWait

/-- The lines of a decode cycle. -/
def decode (op : Operation) (timeMatch : Bool) (policy : UnknownPolicy) : Control :=
  match op with
  | .pulseWrite trigger _ _ _ => pulse trigger timeMatch
  | .regAlu op in0 _ _ => alu op in0 .reg .aluExec
  | .jump _ => { goto .fetchWait with pcLoad := true }
  | .jumpCond op in0 _ _ => alu op in0 .reg .jumpCondExec
  | .incQclk op in0 => alu op in0 .qclk .incQclkExec
  | .aluFproc _ _ _ _ => { goto .aluFprocWait with fprocEn := true }
  | .jumpFproc _ _ _ _ => { goto .jumpFprocWait with fprocEn := true }
  | .sync _ => { goto .syncWait with syncEn := true }
  | .pulseReset => { goto .fetchWait with pulseReset := true }
  | .done => { goto .decode with done := true }
  | .unknown _ =>
    match policy with
    | .stallInDecode => goto .decode
    | .fallThrough => goto .fetchWait

/-- The control lines of a cycle. -/
def of (state : State) (op : Operation) (inputs : TimingInputs) (config : Config) : Control :=
  match state with
  | .fetchWait =>
    if config.memReadLatency ≤ inputs.fetchCycle then fetch else goto .fetchWait
  | .decode => decode op inputs.timeMatch config.unknownOpcode
  | .aluExec => { goto .fetchWait with regWrite := true }
  | .incQclkExec => { goto .fetchWait with qclkLoad := true }
  | .jumpCondExec => { goto .fetchWait with pcLoadCond := true }
  | .aluFprocWait => feedback op inputs.fprocReady .aluFprocWait .aluExec
  | .jumpFprocWait => feedback op inputs.fprocReady .jumpFprocWait .jumpCondExec
  | .syncWait =>
    { goto (if inputs.syncReady then .fetchWait else .syncWait) with syncEn := true }

end Control

end Sequencer

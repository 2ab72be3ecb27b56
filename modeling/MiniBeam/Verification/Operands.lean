import MiniBeam.Verification.Compat.Execution
import MiniBeam.Verification.Process.Safety
import MiniBeam.Verification.Scheduler.Execution
import MiniBeam.Verification.Step.Linear

/-! Operand bytes are not executed, as long as every list of operands that is reached is taken
whole: a `CALL_BIF` or `MAKE_TUPLE` that is refused before its last operand leaves the pc
inside itself, and the process is run again from there. -/

namespace MiniBeam

/-! ### Invariants of the pc in a VM -/

/-- A VM with a given program whose pc has a property. -/
def VmPoint.At (program : List Byte) (I : List Byte → ℕ → Prop) : VmPoint → Prop
  | .idle vm _ => vm.program = program ∧ I program vm.pc
  | .running vm m => (∃ p t, m = ⟨.compat p, t⟩) ∧ vm.program = program ∧
      m.proc.program = program ∧ I program m.proc.pc

theorem mbVmMailboxPush_eq {vm vm' : VmState} {cmd : Command} {rc : Status}
    (h : mbVmMailboxPush vm cmd = .ok (rc, vm')) : ∃ mb, vm' = { vm with mailbox := mb } := by
  obtain ⟨⟨rc', mb⟩, -, h⟩ := bind_eq_ok.mp h
  cases h
  exact ⟨mb, rfl⟩

theorem mbVmMailboxPop_eq {vm vm' : VmState} {found : Option Command}
    (h : mbVmMailboxPop vm = .ok (found, vm')) : ∃ mb, vm' = { vm with mailbox := mb } := by
  obtain ⟨popped, -, h⟩ := bind_eq_ok.mp h
  cases popped with
  | none =>
      cases h
      exact ⟨_, rfl⟩
  | some popped =>
      cases h
      exact ⟨_, rfl⟩

namespace PcInvariant

variable {hal : Hal} {cond : Process → Prop} {I : List Byte → ℕ → Prop}
  (h : PcInvariant hal cond I)
include h

theorem vmRound {program : List Byte} {vm : VmState} {m m' : Machine} {maxSteps : ℕ}
    {end? : Option Status} (hat : (VmPoint.running vm m).At program I) (meets : cond m.proc)
    (hr : runRound hal maxSteps m = .ok (end?, m')) : (VmPoint.running vm m').At program I := by
  obtain ⟨⟨p, t, rfl⟩, hvm, rfl, hi⟩ := hat
  have hi' := h.round _ _ hi meets hr
  obtain ⟨p', events, rfl, q, hlocal, hquiet, -⟩ := runRound_compat hr
  have hprogram : p'.program = p.program := hquiet.program.trans hlocal.program
  exact ⟨⟨p', _, rfl⟩, hvm, hprogram, hprogram ▸ hi'⟩

/-- The invariant holds in every state of a run of a VM. -/
theorem vmExecution {program : List Byte} {point : VmPoint} {log : Trace}
    (hx : VmExecution hal cond (mbVmInit program) point log) : point.At program I := by
  induction hx with
  | init => exact ⟨rfl, h.init program⟩
  | push _ call ih =>
      obtain ⟨mb, rfl⟩ := mbVmMailboxPush_eq call
      exact ih
  | pop _ call ih =>
      obtain ⟨mb, rfl⟩ := mbVmMailboxPop_eq call
      exact ih
  | enter _ ih => exact ⟨⟨_, _, rfl⟩, ih.1, ih⟩
  | next _ meets round _ ih => exact h.vmRound ih meets round
  | leave _ meets round _ ih =>
      obtain ⟨-, hvm, -, hi⟩ := h.vmRound ih meets round
      exact ⟨hvm, hi⟩

end PcInvariant

/-! ### Instruction starts in runs -/

/-- The condition on the state before a step of a process with a given program. -/
def Process.TakesOperands (program : List Byte) (p : Process) : Prop :=
  p.program = program → p.halted = false → OperandsFit program p.pc

theorem start_invariant (hal : Hal) {program : List Byte} (hp : LinearlyDecodes program) :
    PcInvariant hal (Process.TakesOperands program)
      (fun program' pc => program' = program → Start program pc) where
  init _ _ := .zero
  step m m' rc hi meets hstep hprogram' := by
    have hprogram : m.proc.program = program := by
      rw [← (mbProcStep_advance hstep).program]
      exact hprogram'
    subst hprogram
    by_cases hh : m.proc.halted = true
    · rw [mbProcStep, if_pos hh] at hstep
      cases hstep
      exact hi rfl
    · rw [← hprogram']
      exact mbProcStep_start hp (hi rfl) (meets rfl (by simpa using hh)) hstep

/-- In a run whose steps all take their operands, every process with a linearly decoding program
stands at an instruction start, in the scheduler and in a VM; and the step that does not take
them leaves the starts. -/
theorem operands_never_executed {hal : Hal} {program : List Byte} (hp : LinearlyDecodes program) :
    (∀ self sys, SchedExecution hal (Process.TakesOperands program) (.running self sys) →
      ∀ i, (sys.sched.proc i).program = program → Start program (sys.sched.proc i).pc) ∧
    (∀ vm m log, VmExecution hal (Process.TakesOperands program) (mbVmInit program)
        (.running vm m) log → Start program m.proc.pc) ∧
    ∀ m m' rc, m.proc.program = program → m.proc.halted = false → Start program m.proc.pc →
      mbProcStep hal m = .ok (rc, m') →
        (Start program m'.proc.pc ↔ OperandsFit program m.proc.pc) := by
  have hinv := start_invariant hal hp
  refine ⟨fun self sys hx i hi => ?_, fun vm m log hx => ?_, fun m m' rc hm hh hstart hstep => ?_⟩
  · exact hinv.schedExecution hx i hi
  · obtain ⟨-, -, -, hstart⟩ := hinv.vmExecution hx
    exact hstart rfl
  · subst hm
    have hsame := (mbProcStep_advance hstep).program
    constructor
    · intro hnext
      apply not_not.mp
      intro hfit
      exact mbProcStep_inside hp hstart hfit hh hstep (hsame ▸ hnext)
    · intro hfit
      have hnext := mbProcStep_start hp hstart hfit hstep
      rwa [hsame] at hnext

/-- A `CALL_BIF` of nine arguments, the first of them 255. -/
def nineArguments : List Byte := [0x10, 1, 9, 0xFF, 0, 0, 0, 0, 0, 0, 0, 0, 0]

theorem nineArguments_start {pc : ℕ} (h : Start nineArguments pc) : pc = 0 ∨ pc = 13 := by
  induction h with
  | zero => exact .inl rfl
  | @next pc n _ hsize ih =>
      rcases ih with rfl | rfl
      · have hn : instrSize nineArguments 0 = some 13 := by decide
        rw [hn] at hsize
        cases hsize
        exact .inr rfl
      · have hn : instrSize nineArguments 13 = none := by decide
        rw [hn] at hsize
        cases hsize

theorem nineArguments_decodes : LinearlyDecodes nineArguments where
  whole pc h hlt := by
    rcases nineArguments_start h with rfl | rfl
    · exact ⟨13, by decide, by decide⟩
    · exact absurd hlt (by decide)
  jumps pc n offset h _ hoffset := by
    rcases nineArguments_start h with rfl | rfl <;> cases hoffset

theorem operands_never_executed_nineArguments :
    LinearlyDecodes nineArguments ∧ ∃ m', mbProcStep idleHal (alone nineArguments) =
      .ok (.badArgc, m') ∧
        (Start nineArguments m'.proc.pc ↔ OperandsFit nineArguments 0) := by
  have hrun : (mbProcStep idleHal (alone nineArguments)).map Prod.fst = .ok .badArgc := by
    decide +kernel
  obtain ⟨⟨rc, m'⟩, hstep, rfl⟩ := exists_ok_of_map _ _ _ hrun
  exact ⟨nineArguments_decodes, m', hstep,
    (operands_never_executed nineArguments_decodes).2.2 _ m' _ rfl rfl .zero hstep⟩

/-- The tick after the refused call executes its first argument as `HALT`. -/
theorem operand_executed :
    LinearlyDecodes nineArguments ∧ ∃ sys, Dispatched idleHal 0 sys ∧
      (sys.sched.proc 0).program = nineArguments ∧ (sys.sched.proc 0).halted = false ∧
      (sys.sched.proc 0).pc = 3 ∧ nineArguments[3]? = some Opcode.halt.code ∧
      ¬ Start nineArguments 3 := by
  have hrun : (inSlice idleHal [.spawn nineArguments, .tick] 0 0).map (fun sys =>
      ((sys.sched.proc 0).program, (sys.sched.proc 0).halted, (sys.sched.proc 0).pc)) =
      .ok (nineArguments, false, 3) := by
    decide +kernel
  obtain ⟨sys, hsys, hm⟩ := exists_ok_of_map _ _ _ hrun
  simp only [Prod.mk.injEq] at hm
  refine ⟨nineArguments_decodes, sys, inSlice_dispatched hsys, hm.1, hm.2.1, hm.2.2, rfl,
    fun h => ?_⟩
  rcases nineArguments_start h with h | h <;> cases h

end MiniBeam

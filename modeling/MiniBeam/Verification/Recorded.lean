import MiniBeam.Library.LabelledRun
import MiniBeam.Verification.Compat.Execution
import MiniBeam.Verification.Scheduler.Execution

/-! Runs with a record of their rounds. What is recorded of a round is a parameter: it may
depend on the machine before the round and on the limit of its slice. -/

namespace MiniBeam

section Steps

variable {β : Type} (hal : Hal) (record : ℕ → Machine → List β)

/-- A step of a run of the scheduler. -/
inductive SchedStep : SchedPoint → List β → SchedPoint → Prop
  | spawn (sys : System) (program : List Byte) : SchedStep (.idle sys) []
      (.idle { sys with sched := (mbSchedSpawn sys.sched program).2 })
  | send {sys sys' : System} {dst : Byte} {cmd : Command} {rc : Status}
      (call : mbSchedSend sys dst cmd = .ok (rc, sys')) : SchedStep (.idle sys) [] (.idle sys')
  | rest {sys sys' : System} (pick : mbSchedPick hal sys = .ok (none, sys')) :
      SchedStep (.idle sys) [] (.idle sys')
  | start {sys sys' : System} {self : Slot} (pick : mbSchedPick hal sys = .ok (some self, sys')) :
      SchedStep (.idle sys) [] (.running self (sys'.startSlice self))
  | next {sys sys' : System} {self : Slot}
      (round : runRound hal maxReductions (sys.machine self) = .ok (none, sys'.machine self)) :
      SchedStep (.running self sys) (record maxReductions (sys.machine self)) (.running self sys')
  | leave {sys sys' : System} {self : Slot} {rc : Status}
      (round : runRound hal maxReductions (sys.machine self) = .ok (some rc, sys'.machine self)) :
      SchedStep (.running self sys) (record maxReductions (sys.machine self)) (.idle sys')

/-- A step of a run of a VM. -/
inductive VmStep : VmPoint → List β → VmPoint → Prop
  | push {vm vm' : VmState} {t : Trace} {cmd : Command} {rc : Status}
      (call : mbVmMailboxPush vm cmd = .ok (rc, vm')) : VmStep (.idle vm t) [] (.idle vm' t)
  | pop {vm vm' : VmState} {t : Trace} {found : Option Command}
      (call : mbVmMailboxPop vm = .ok (found, vm')) : VmStep (.idle vm t) [] (.idle vm' t)
  | enter (vm : VmState) (t : Trace) :
      VmStep (.idle vm t) [] (.running vm ⟨.compat (mbVmToProc vm), t⟩)
  | next {vm : VmState} {m m' : Machine} {maxSteps : ℕ}
      (round : runRound hal maxSteps m = .ok (none, m')) :
      VmStep (.running vm m) (record maxSteps m) (.running vm m')
  | leave {vm : VmState} {m m' : Machine} {maxSteps : ℕ} {rc : Status}
      (round : runRound hal maxSteps m = .ok (some rc, m')) :
      VmStep (.running vm m) (record maxSteps m) (.idle (mbProcToVm m'.proc vm) m'.trace)

/-- The runs of the scheduler, with their records. -/
def SchedRecorded : SchedPoint → List β → Prop :=
  LabelledRun (SchedStep hal record) (.idle System.init)

/-- The runs of a VM from `vm₀`, with their records. -/
def VmRecorded (vm₀ : VmState) : VmPoint → List β → Prop :=
  LabelledRun (VmStep hal record) (.idle vm₀ [])

end Steps

/-! ### Every run has a record, and records are of runs only -/

section Complete

variable {β : Type} {hal : Hal} (record : ℕ → Machine → List β)

theorem SchedExecution.recorded {point : SchedPoint}
    (h : SchedExecution hal (fun _ => True) point) : ∃ log, SchedRecorded hal record point log := by
  induction h with
  | init => exact ⟨_, .nil⟩
  | spawn _ program ih => exact LabelledRun.extend ih (.spawn _ program)
  | send _ call ih => exact LabelledRun.extend ih (.send call)
  | rest _ pick ih => exact LabelledRun.extend ih (.rest pick)
  | start _ pick ih => exact LabelledRun.extend ih (.start pick)
  | next _ _ round ih => exact LabelledRun.extend ih (.next round)
  | leave _ _ round ih => exact LabelledRun.extend ih (.leave round)

/-- The states of the scheduler that have a record are those of its runs. -/
theorem schedExecution_iff {point : SchedPoint} : SchedExecution hal (fun _ => True) point ↔
    ∃ log, SchedRecorded hal record point log := by
  refine ⟨fun h => h.recorded record, fun ⟨log, hlog⟩ => ?_⟩
  apply hlog.invariant .init
  intro point new point' hx hstep
  cases hstep with
  | spawn _ program => exact hx.spawn program
  | send call => exact hx.send call
  | rest pick => exact hx.rest pick
  | start pick => exact hx.start pick
  | next round => exact hx.next trivial round
  | leave round => exact hx.leave trivial round

theorem VmExecution.recorded {vm₀ : VmState} {point : VmPoint} {events : Trace}
    (h : VmExecution hal (fun _ => True) vm₀ point events) :
    ∃ log, VmRecorded hal record vm₀ point log := by
  induction h with
  | init => exact ⟨_, .nil⟩
  | push _ call ih => exact LabelledRun.extend ih (.push call)
  | pop _ call ih => exact LabelledRun.extend ih (.pop call)
  | enter _ ih => exact LabelledRun.extend ih (.enter _ _)
  | next _ _ round _ ih => exact LabelledRun.extend ih (.next round)
  | leave _ _ round _ ih => exact LabelledRun.extend ih (.leave round)

/-- Where a VM executes instructions, it is on its own. -/
def VmPoint.Alone : VmPoint → Prop
  | .idle _ _ => True
  | .running _ m => ∃ p t, m = ⟨.compat p, t⟩

theorem vmExecution_iff {vm₀ : VmState} {point : VmPoint} :
    (∃ events, VmExecution hal (fun _ => True) vm₀ point events) ↔
      ∃ log, VmRecorded hal record vm₀ point log := by
  refine ⟨fun ⟨events, h⟩ => h.recorded record, fun ⟨log, hlog⟩ => ?_⟩
  have hboth : (∃ events, VmExecution hal (fun _ => True) vm₀ point events) ∧ point.Alone := by
    apply hlog.invariant ⟨⟨_, .init⟩, trivial⟩
    rintro point new point' ⟨⟨events, hx⟩, halone⟩ hstep
    cases hstep with
    | push call => exact ⟨⟨_, hx.push call⟩, trivial⟩
    | pop call => exact ⟨⟨_, hx.pop call⟩, trivial⟩
    | enter => exact ⟨⟨_, hx.enter⟩, _, _, rfl⟩
    | next round =>
        obtain ⟨p, t, rfl⟩ := halone
        obtain ⟨p', events', rfl, -⟩ := runRound_compat round
        exact ⟨⟨_, hx.next trivial round rfl⟩, _, _, rfl⟩
    | leave round =>
        obtain ⟨p, t, rfl⟩ := halone
        obtain ⟨p', events', rfl, -⟩ := runRound_compat round
        exact ⟨⟨_, hx.leave trivial round rfl⟩, trivial⟩
  exact hboth.1

/-- Between the calls, every state of a run of the scheduler has a record. -/
theorem Runs.recorded {sys : System} (h : Runs hal sys) :
    ∃ log, SchedRecorded hal record (.idle sys) log := h.execution.recorded record

/-- Inside a tick too. -/
theorem Dispatched.recorded {self : Slot} {sys : System} (h : Dispatched hal self sys) :
    ∃ log, SchedRecorded hal record (.running self sys) log := h.execution.recorded record

theorem VmRuns.recorded {vm₀ vm : VmState} {t : Trace} (h : VmRuns hal vm₀ vm t) :
    ∃ log, VmRecorded hal record vm₀ (.idle vm t) log := by
  obtain ⟨events, hx⟩ := h.execution
  exact hx.recorded record

end Complete

/-! ### What every round records -/

section Record

variable {β : Type} {hal : Hal} {record : ℕ → Machine → List β} {P : β → Prop} {log : List β}

theorem SchedRecorded.forall_record {point : SchedPoint} (h : SchedRecorded hal record point log)
    (hround : ∀ maxSteps m, ∀ l ∈ record maxSteps m, P l) : ∀ l ∈ log, P l := by
  refine LabelledRun.forall_label (P := P) h fun s new s' hstep => ?_
  cases hstep with
  | next | leave => exact hround _ _
  | _ => exact nofun

theorem VmRecorded.forall_record {vm₀ : VmState} {point : VmPoint}
    (h : VmRecorded hal record vm₀ point log)
    (hround : ∀ maxSteps m, ∀ l ∈ record maxSteps m, P l) : ∀ l ∈ log, P l := by
  refine LabelledRun.forall_label (P := P) h fun s new s' hstep => ?_
  cases hstep with
  | next | leave => exact hround _ _
  | _ => exact nofun

/-- The record of some rounds that a VM makes in one call. -/
def recordRounds (hal : Hal) (record : ℕ → Machine → List β) (maxSteps : ℕ) :
    ℕ → Machine → Except Fault (List β)
  | 0, _ => .ok []
  | n + 1, m => do
    match ← runRound hal maxSteps m with
    | (none, m') => return record maxSteps m ++ (← recordRounds hal record maxSteps n m')
    | (some _, _) => .error .fuel

theorem VmRecorded.rounds {vm₀ vm : VmState} {m : Machine} {maxSteps n : ℕ} {new : List β}
    (h : VmRecorded hal record vm₀ (.running vm m) log)
    (hnew : recordRounds hal record maxSteps n m = .ok new) :
    ∃ m', VmRecorded hal record vm₀ (.running vm m') (log ++ new) := by
  induction n generalizing m log new with
  | zero =>
      cases hnew
      exact ⟨m, (List.append_nil log).symm ▸ h⟩
  | succ n ih =>
      obtain ⟨⟨end?, m₁⟩, hround, hnew⟩ := bind_eq_ok.mp hnew
      cases end? with
      | some rc => cases hnew
      | none =>
          obtain ⟨rest, hrest, hnew⟩ := bind_eq_ok.mp hnew
          cases hnew
          rw [← List.append_assoc]
          exact ih (h.snoc (.next hround)) hrest

end Record

end MiniBeam

import MiniBeam.Verification.Scheduler.Isolation

/-! Runs of a scheduler as long as every instruction meets a condition on the process that
runs it. -/

namespace MiniBeam

/-- Where a run of a scheduler stands: between two calls, or inside a tick. -/
inductive SchedPoint where
  | idle (sys : System)
  | running (self : Slot) (sys : System)

def SchedPoint.system : SchedPoint → System
  | .idle sys => sys
  | .running _ sys => sys

inductive SchedExecution (hal : Hal) (cond : Process → Prop) : SchedPoint → Prop
  | init : SchedExecution hal cond (.idle System.init)
  | spawn {sys : System} (before : SchedExecution hal cond (.idle sys)) (program : List Byte) :
      SchedExecution hal cond (.idle { sys with sched := (mbSchedSpawn sys.sched program).2 })
  | send {sys sys' : System} {dst : Byte} {cmd : Command} {rc : Status}
      (before : SchedExecution hal cond (.idle sys))
      (call : mbSchedSend sys dst cmd = .ok (rc, sys')) : SchedExecution hal cond (.idle sys')
  | rest {sys sys' : System} (before : SchedExecution hal cond (.idle sys))
      (pick : mbSchedPick hal sys = .ok (none, sys')) : SchedExecution hal cond (.idle sys')
  | start {sys sys' : System} {self : Slot} (before : SchedExecution hal cond (.idle sys))
      (pick : mbSchedPick hal sys = .ok (some self, sys')) :
      SchedExecution hal cond (.running self (sys'.startSlice self))
  | next {sys sys' : System} {self : Slot} (before : SchedExecution hal cond (.running self sys))
      (meets : cond (sys.sched.proc self))
      (round : runRound hal maxReductions (sys.machine self) = .ok (none, sys'.machine self)) :
      SchedExecution hal cond (.running self sys')
  | leave {sys sys' : System} {self : Slot} {rc : Status}
      (before : SchedExecution hal cond (.running self sys)) (meets : cond (sys.sched.proc self))
      (round : runRound hal maxReductions (sys.machine self) = .ok (some rc, sys'.machine self)) :
      SchedExecution hal cond (.idle sys')

/-! ### Every run is one -/

section Complete

variable {hal : Hal} {self : Slot} {sys sys' : System}

theorem runLoop_schedExecution {fuel : ℕ} {rc : Status}
    (hx : SchedExecution hal (fun _ => True) (.running self sys))
    (hready : (sys.sched.proc self).state = .ready)
    (h : runLoop hal maxReductions fuel (sys.machine self) = .ok (rc, sys'.machine self)) :
    SchedExecution hal (fun _ => True) (.idle sys') := by
  induction fuel generalizing sys with
  | zero => cases h
  | succ fuel ih =>
      obtain ⟨⟨end?, m⟩, hround, h⟩ := bind_eq_ok.mp h
      obtain ⟨sys₁, rfl, -, hready'⟩ := runRound_moves hready hround
      cases end? with
      | some rc' =>
          simp only [pure_ok, Except.ok.injEq, Prod.mk.injEq, System.machine_inj] at h
          exact hx.leave trivial (h.2 ▸ hround)
      | none => exact ih (hx.next trivial hround) (hready' rfl) h

/-- The states between the calls of every run. -/
theorem Runs.execution (h : Runs hal sys) : SchedExecution hal (fun _ => True) (.idle sys) := by
  apply Runs.induct .init ?_ h
  intro sys c sys' _ hx hcall
  cases c with
  | spawn program =>
      cases hcall
      exact hx.spawn program
  | send dst cmd =>
      obtain ⟨⟨rc, sys₁⟩, hsend, hcall⟩ := bind_eq_ok.mp hcall
      cases hcall
      exact hx.send hsend
  | tick =>
      obtain ⟨⟨rc, sys₁⟩, htick, hcall⟩ := bind_eq_ok.mp hcall
      cases hcall
      rcases mbSchedTick_cases htick with ⟨hpick, -⟩ | ⟨self, sys₂, hpick, hrun⟩
      · exact hx.rest hpick
      · apply runLoop_schedExecution (hx.start hpick) ?_ hrun
        rw [System.startSlice, Scheduler.proc_setProc_self]
        exact mbSchedPick_ready hpick

/-- The states inside the ticks of every run. -/
theorem Dispatched.execution (h : Dispatched hal self sys) :
    SchedExecution hal (fun _ => True) (.running self sys) := by
  induction h with
  | start run pick => exact run.execution.start pick
  | next _ round ih => exact ih.next trivial round

end Complete

section Between

variable {hal : Hal} {cond : Process → Prop} {self : Slot} {sys sys' : System}

/-- The process of a tick is ready before every instruction. -/
theorem SchedExecution.ready (h : SchedExecution hal cond (.running self sys)) :
    (sys.sched.proc self).state = .ready := by
  generalize hpoint : SchedPoint.running self sys = point at h
  induction h generalizing self sys with
  | start _ pick =>
      cases hpoint
      rw [System.startSlice, Scheduler.proc_setProc_self]
      exact mbSchedPick_ready pick
  | next _ _ round ih =>
      cases hpoint
      obtain ⟨sys₁, hm, -, hready⟩ := runRound_moves (ih rfl) round
      rw [System.machine_inj.mp hm]
      exact hready rfl
  | _ => cases hpoint

/-- The choice of a process changes the states of sleepers only. -/
theorem mbSchedPick_state {found : Option Slot} (h : mbSchedPick hal sys = .ok (found, sys'))
    (i : Slot) : ∃ state, sys'.sched.proc i = { sys.sched.proc i with state := state } := by
  have hproc := mbSchedPick_proc h i
  rcases wake_cases (hal sys.trace .monotonicMs).ms (sys.sched.proc i) with hw | ⟨-, hw⟩
  · exact ⟨_, hproc.trans hw⟩
  · exact ⟨_, hproc.trans hw⟩

/-- A push changes a mailbox and a state. -/
theorem Push.other (h : Push sys sys') (i : Slot) : ∃ mb state,
    sys'.sched.proc i = { sys.sched.proc i with mailbox := mb, state := state } := by
  cases h with
  | @mk s s' t target cmd rc _ delivered =>
      obtain ⟨mb, state, -, -, rfl⟩ := deliver_eq delivered
      dsimp only
      rw [Scheduler.proc_setProc]
      split
      · rename_i hi
        subst hi
        exact ⟨mb, state, rfl⟩
      · exact ⟨_, _, rfl⟩

end Between

/-! ### Invariants of the pc -/

/-- A property of programs and pcs that a process begins with, and that a step keeps if the
process meets the condition. -/
structure PcInvariant (hal : Hal) (cond : Process → Prop) (I : List Byte → ℕ → Prop) : Prop where
  init : ∀ program, I program 0
  step : ∀ m m' rc, I m.proc.program m.proc.pc → cond m.proc →
    mbProcStep hal m = .ok (rc, m') → I m'.proc.program m'.proc.pc

namespace PcInvariant

variable {hal : Hal} {cond : Process → Prop} {I : List Byte → ℕ → Prop}
  (h : PcInvariant hal cond I)
include h

/-- The counter that a round moves besides is not the pc. -/
theorem round {maxSteps : ℕ} {end? : Option Status} (m m' : Machine)
    (hi : I m.proc.program m.proc.pc) (meets : cond m.proc)
    (hr : runRound hal maxSteps m = .ok (end?, m')) : I m'.proc.program m'.proc.pc := by
  unfold runRound at hr
  split at hr
  · cases hr
    exact hi
  · obtain ⟨⟨rc, m₁⟩, hstep, hr⟩ := bind_eq_ok.mp hr
    have hi₁ := h.step m m₁ rc hi meets hstep
    dsimp only at hr
    split at hr
    · cases hr
      exact hi₁
    · split at hr
      · cases hr
        exact hi₁
      · cases hr
        rw [Machine.proc_setProc]
        exact hi₁

theorem schedRound {self : Slot} {sys sys' : System} {end? : Option Status}
    (before : SchedExecution hal cond (.running self sys)) (meets : cond (sys.sched.proc self))
    (hr : runRound hal maxReductions (sys.machine self) = .ok (end?, sys'.machine self))
    (hi : ∀ i, I (sys.sched.proc i).program (sys.sched.proc i).pc) (i : Slot) :
    I (sys'.sched.proc i).program (sys'.sched.proc i).pc := by
  by_cases hself : i = self
  · rw [hself]
    exact h.round (sys.machine self) (sys'.machine self) (hi self) meets hr
  · obtain ⟨sys₁, hm, hmoves, -⟩ := runRound_moves before.ready hr
    obtain ⟨mb, state, hproc, -⟩ := hmoves.other hself
    rw [System.machine_inj.mp hm, hproc]
    exact hi i

/-- The invariant holds of every process in every state of a run. -/
theorem schedExecution {point : SchedPoint} (hx : SchedExecution hal cond point) (i : Slot) :
    I (point.system.sched.proc i).program (point.system.sched.proc i).pc := by
  induction hx generalizing i with
  | init =>
      rw [SchedPoint.system, proc_init]
      exact h.init []
  | @spawn sys _ program ih =>
      rcases mbSchedSpawn_cases sys.sched program with hs | ⟨j, -, hs⟩
      · rw [SchedPoint.system, hs]
        exact ih i
      · rw [SchedPoint.system, hs]
        change I ((sys.sched.setProc j (mbProcInit j.pid program)).proc i).program
          ((sys.sched.setProc j (mbProcInit j.pid program)).proc i).pc
        rw [Scheduler.proc_setProc]
        split
        · exact h.init program
        · exact ih i
  | send _ call ih =>
      rcases mbSchedSend_push call with hsame | hpush
      · exact hsame ▸ ih i
      · obtain ⟨mb, state, hproc⟩ := hpush.other i
        rw [SchedPoint.system, hproc]
        exact ih i
  | rest _ pick ih =>
      obtain ⟨state, hproc⟩ := mbSchedPick_state pick i
      rw [SchedPoint.system, hproc]
      exact ih i
  | @start _ sys' self _ pick ih =>
      obtain ⟨state, hproc⟩ := mbSchedPick_state pick i
      rw [SchedPoint.system, System.startSlice]
      dsimp only
      rw [Scheduler.proc_setProc]
      split
      · rename_i hself
        rw [← hself, hproc]
        exact ih i
      · rw [hproc]
        exact ih i
  | next before meets round ih => exact h.schedRound before meets round ih i
  | leave before meets round ih => exact h.schedRound before meets round ih i

end PcInvariant

end MiniBeam

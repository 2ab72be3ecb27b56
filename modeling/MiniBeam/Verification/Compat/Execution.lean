import MiniBeam.Verification.Compat.Runs
import MiniBeam.Verification.Scheduler.History

/-! Runs of a VM with a log of what its mailbox went through, as long as every instruction
meets a condition on the process that runs it. -/

namespace MiniBeam

/-- Where a run of a VM stands: between two calls, or inside one. -/
inductive VmPoint where
  | idle (vm : VmState) (trace : Trace)
  | running (vm : VmState) (m : Machine)

/-- The runs from `vm₀`. The log has the events of the trace, and besides the pushes and pops
of native code. -/
inductive VmExecution (hal : Hal) (cond : Process → Prop) (vm₀ : VmState) :
    VmPoint → Trace → Prop
  | init : VmExecution hal cond vm₀ (.idle vm₀ []) []
  | push {vm vm' : VmState} {t log : Trace} {cmd : Command} {rc : Status}
      (before : VmExecution hal cond vm₀ (.idle vm t) log)
      (call : mbVmMailboxPush vm cmd = .ok (rc, vm')) :
      VmExecution hal cond vm₀ (.idle vm' t) (log ++ [.push 0 cmd rc])
  | pop {vm vm' : VmState} {t log : Trace} {found : Option Command}
      (before : VmExecution hal cond vm₀ (.idle vm t) log)
      (call : mbVmMailboxPop vm = .ok (found, vm')) :
      VmExecution hal cond vm₀ (.idle vm' t) (log ++ found.toList.map (.pop 0))
  | enter {vm : VmState} {t log : Trace} (before : VmExecution hal cond vm₀ (.idle vm t) log) :
      VmExecution hal cond vm₀ (.running vm ⟨.compat (mbVmToProc vm), t⟩) log
  | next {vm : VmState} {m m' : Machine} {log events : Trace} {maxSteps : ℕ}
      (before : VmExecution hal cond vm₀ (.running vm m) log) (meets : cond m.proc)
      (round : runRound hal maxSteps m = .ok (none, m')) (trace : m'.trace = m.trace ++ events) :
      VmExecution hal cond vm₀ (.running vm m') (log ++ events)
  | leave {vm : VmState} {m m' : Machine} {log events : Trace} {maxSteps : ℕ} {rc : Status}
      (before : VmExecution hal cond vm₀ (.running vm m) log) (meets : cond m.proc)
      (round : runRound hal maxSteps m = .ok (some rc, m')) (trace : m'.trace = m.trace ++ events) :
      VmExecution hal cond vm₀ (.idle (mbProcToVm m'.proc vm) m'.trace) (log ++ events)

/-! ### Every run is one -/

section Complete

variable {hal : Hal} {vm₀ vm : VmState}

theorem runLoop_execution {fuel maxSteps : ℕ} {rc : Status} {p : Process} {t log : Trace}
    {m' : Machine}
    (hx : VmExecution hal (fun _ => True) vm₀ (.running vm ⟨.compat p, t⟩) log)
    (h : runLoop hal maxSteps fuel ⟨.compat p, t⟩ = .ok (rc, m')) :
    ∃ log', VmExecution hal (fun _ => True) vm₀ (.idle (mbProcToVm m'.proc vm) m'.trace) log' := by
  induction fuel generalizing p t log with
  | zero => cases h
  | succ fuel ih =>
      obtain ⟨⟨end?, m₁⟩, hround, h⟩ := bind_eq_ok.mp h
      obtain ⟨p', events, rfl, -⟩ := runRound_compat hround
      cases end? with
      | some rc' =>
          cases h
          exact ⟨_, hx.leave trivial hround rfl⟩
      | none => exact ih (hx.next trivial hround rfl) h

theorem runRound_of_step {p q : Process} {t t' : Trace} {rc : Status} {maxSteps : ℕ}
    (hh : p.halted = false) (hr : p.reductions < maxSteps)
    (h : mbProcStep hal ⟨.compat p, t⟩ = .ok (rc, ⟨.compat q, t'⟩)) :
    runRound hal maxSteps ⟨.compat p, t⟩ = .ok (if rc = .ok then
      (none, ⟨.compat { q with reductions := q.reductions + 1 }, t'⟩)
      else (some rc, ⟨.compat q, t'⟩)) := by
  have hgo : ¬ ((⟨.compat p, t⟩ : Machine).proc.halted = true ∨
      (⟨.compat p, t⟩ : Machine).proc.reductions ≥ maxSteps) := by
    rintro (hhalted | hlimit)
    · cases hh.symm.trans hhalted
    · exact absurd hlimit (Nat.not_le.mpr hr)
  rw [runRound, if_neg hgo, h, ok_bind]
  dsimp only
  by_cases hrc : rc = .ok
  · rw [if_pos hrc, if_neg (not_not.mpr hrc), if_neg (by simp [Context.scheduled])]
    rfl
  · rw [if_neg hrc, if_pos hrc]
    rfl

/-- A step is a round of a run of at most one instruction. -/
theorem mbVmStep_execution {t t' log : Trace} {rc : Status} {vm' : VmState}
    (hx : VmExecution hal (fun _ => True) vm₀ (.idle vm t) log)
    (h : mbVmStep hal vm t = .ok (rc, vm', t')) :
    ∃ log', VmExecution hal (fun _ => True) vm₀ (.idle vm' t') log' := by
  obtain ⟨⟨rc', m'⟩, hstep, h⟩ := bind_eq_ok.mp h
  cases h
  by_cases hhalted : vm.halted = true
  · have hround : runRound hal 1 ⟨.compat (mbVmToProc vm), t⟩ =
        .ok (some .ok, ⟨.compat (mbVmToProc vm), t⟩) := if_pos (.inl hhalted)
    have hsame : mbProcStep hal ⟨.compat (mbVmToProc vm), t⟩ =
        .ok (.ok, ⟨.compat (mbVmToProc vm), t⟩) := if_pos hhalted
    rw [hsame] at hstep
    cases hstep
    exact ⟨_, hx.enter.leave trivial hround (List.append_nil _).symm⟩
  · obtain ⟨q, events, rfl, hlocal⟩ := mbProcStep_compat hstep
    have hrunning : (mbVmToProc vm).halted = false := Bool.not_eq_true _ ▸ hhalted
    have hround := runRound_of_step hrunning Nat.one_pos hstep
    by_cases hrc : rc = .ok
    · rw [if_pos hrc] at hround
      have hend : runRound hal 0 ⟨.compat { q with reductions := q.reductions + 1 }, t ++ events⟩ =
          .ok (some .ok, ⟨.compat { q with reductions := q.reductions + 1 }, t ++ events⟩) :=
        if_pos (.inr (Nat.zero_le _))
      -- the counter is not a field of the VM
      have hx' := (hx.enter.next trivial hround rfl).leave trivial hend (List.append_nil _).symm
      exact ⟨_, hx'⟩
    · rw [if_neg hrc] at hround
      exact ⟨_, hx.enter.leave trivial hround rfl⟩

/-- The states between the calls of every run. -/
theorem VmRuns.execution {t : Trace} (h : VmRuns hal vm₀ vm t) :
    ∃ log, VmExecution hal (fun _ => True) vm₀ (.idle vm t) log := by
  apply VmRuns.induct (P := fun vm t =>
    ∃ log, VmExecution hal (fun _ => True) vm₀ (.idle vm t) log) ⟨[], .init⟩ ?_ h
  intro vm t c vm' t' _ hx hcall
  obtain ⟨log, hx⟩ := hx
  cases c with
  | push cmd =>
      obtain ⟨⟨rc, vm₁⟩, hpush, hcall⟩ := bind_eq_ok.mp hcall
      cases hcall
      exact ⟨_, hx.push hpush⟩
  | pop =>
      obtain ⟨⟨found, vm₁⟩, hpop, hcall⟩ := bind_eq_ok.mp hcall
      cases hcall
      exact ⟨_, hx.pop hpop⟩
  | step =>
      obtain ⟨⟨rc, vm₁, t₁⟩, hstep, hcall⟩ := bind_eq_ok.mp hcall
      cases hcall
      exact mbVmStep_execution hx hstep
  | run fuel maxSteps =>
      obtain ⟨⟨rc, vm₁, t₁⟩, hrun, hcall⟩ := bind_eq_ok.mp hcall
      cases hcall
      obtain ⟨⟨rc', m'⟩, hloop, hrun⟩ := bind_eq_ok.mp hrun
      cases hrun
      exact runLoop_execution hx.enter hloop

end Complete

end MiniBeam

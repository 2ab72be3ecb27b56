import MiniBeam.Verification.Step.Effect
import MiniBeam.Model.Compat
import Mathlib.Data.List.Induction

/-! The states a run of a VM goes through: between two calls, and inside a call between two
instructions. -/

namespace MiniBeam

/-- A step of a process on its own is local to it. -/
theorem mbProcStep_compat {hal : Hal} {p : Process} {t : Trace} {rc : Status} {m' : Machine}
    (h : mbProcStep hal ⟨.compat p, t⟩ = .ok (rc, m')) :
    ∃ p' events, m' = ⟨.compat p', t ++ events⟩ ∧ Local p p' events := by
  have hp : (⟨.compat p, t⟩ : Machine).proc = p := rfl
  rw [mbProcStep_eq, hp] at h
  split at h
  · simp only [Except.ok.injEq, Prod.mk.injEq] at h
    exact ⟨p, [], by rw [← h.2, List.append_nil], (Quiet.refl p).isLocal⟩
  · split at h
    · simp only [Except.ok.injEq, Prod.mk.injEq] at h
      refine ⟨_, [], by rw [← h.2, List.append_nil]; rfl, ?_⟩
      exact ((quiet_setPc _ _).trans (quiet_fail _ _)).isLocal
    · rename_i i pc hd
      have hset : (⟨.compat p, t⟩ : Machine).setProc (p.setPc pc) = ⟨.compat (p.setPc pc), t⟩ := rfl
      rw [hset] at h
      cases i with
      | send a b c d e f =>
          simp only [execInstr, pure_ok, Except.ok.injEq, Prod.mk.injEq] at h
          refine ⟨_, [], by rw [← h.2, List.append_nil], ?_⟩
          exact ((quiet_setPc _ _).trans (quiet_setReg _ _ _)).isLocal
      | _ =>
          obtain ⟨⟨rc', p', events⟩, hrun, h⟩ := bind_eq_ok.mp h
          have hl := Instr.run_local hd hrun
          simp only [pure_ok, Except.ok.injEq, Prod.mk.injEq] at h
          refine ⟨_, events, h.2.symm, ?_⟩
          split
          · exact hl
          · exact hl.quiet (quiet_fail _ _) rfl

/-- A round of a process on its own appends to the trace. -/
theorem runRound_compat {hal : Hal} {p : Process} {t : Trace} {maxSteps : ℕ} {end? : Option Status}
    {m' : Machine} (h : runRound hal maxSteps ⟨.compat p, t⟩ = .ok (end?, m')) :
    ∃ p' events, m' = ⟨.compat p', t ++ events⟩ ∧
      ∃ q, Local p q events ∧ Quiet q p' ∧ p'.pc = q.pc := by
  unfold runRound at h
  split at h
  · cases h
    exact ⟨p, [], by rw [List.append_nil], p, (Quiet.refl p).isLocal, .refl p, rfl⟩
  · obtain ⟨⟨rc, m₁⟩, hstep, h⟩ := bind_eq_ok.mp h
    obtain ⟨q, events, rfl, hlocal⟩ := mbProcStep_compat hstep
    dsimp only at h
    split at h
    · cases h
      exact ⟨q, events, rfl, q, hlocal, .refl q, rfl⟩
    · rw [if_neg (by simp [Context.scheduled])] at h
      cases h
      exact ⟨_, events, rfl, q, hlocal, quiet_budget q _, rfl⟩

/-- A state between two calls of a run that starts from `vm₀`. -/
def VmRuns (hal : Hal) (vm₀ vm : VmState) (t : Trace) : Prop :=
  ∃ calls, runVmCalls hal vm₀ [] calls = .ok (vm, t)

/-- A state inside a call of a run, where an instruction is about to be executed. -/
inductive VmDispatched (hal : Hal) (vm₀ : VmState) : Machine → Prop
  | start {vm : VmState} {t : Trace} (run : VmRuns hal vm₀ vm t) :
      VmDispatched hal vm₀ ⟨.compat (mbVmToProc vm), t⟩
  | next {m m' : Machine} {maxSteps : ℕ} (before : VmDispatched hal vm₀ m)
      (round : runRound hal maxSteps m = .ok (none, m')) : VmDispatched hal vm₀ m'

theorem runVmCalls_append (hal : Hal) (vm : VmState) (t : Trace) (cs ds : List VmCall) :
    runVmCalls hal vm t (cs ++ ds) =
      (runVmCalls hal vm t cs >>= fun (vm, t) => runVmCalls hal vm t ds) := by
  induction cs generalizing vm t with
  | nil => rfl
  | cons c cs ih =>
      simp only [List.cons_append, runVmCalls]
      cases runVmCall hal vm t c with
      | error f => rfl
      | ok next => exact ih next.1 next.2

/-- A property of the initial state that every call of a run keeps. -/
theorem VmRuns.induct {hal : Hal} {vm₀ : VmState} {P : VmState → Trace → Prop} (init : P vm₀ [])
    (call : ∀ vm t c vm' t', VmRuns hal vm₀ vm t → P vm t →
      runVmCall hal vm t c = .ok (vm', t') → P vm' t')
    {vm : VmState} {t : Trace} (h : VmRuns hal vm₀ vm t) : P vm t := by
  obtain ⟨cs, hcs⟩ := h
  induction cs using List.reverseRecOn generalizing vm t with
  | nil =>
      cases hcs
      exact init
  | append_singleton cs c ih =>
      rw [runVmCalls_append] at hcs
      obtain ⟨⟨vm₁, t₁⟩, hfirst, hlast⟩ := bind_eq_ok.mp hcs
      obtain ⟨⟨vm₂, t₂⟩, hcall, hend⟩ := bind_eq_ok.mp hlast
      cases hend
      exact call vm₁ t₁ c vm t ⟨cs, hfirst⟩ (ih hfirst) hcall

end MiniBeam

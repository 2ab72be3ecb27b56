import MiniBeam.Library.ResetCounter
import MiniBeam.Verification.Compat.Runs
import MiniBeam.Verification.Scheduler.Budget
import MiniBeam.Verification.Step.Lockstep

/-! `mb_vm_run` as calls of `mb_vm_step`: how many instructions the loop of `mb_proc_run`
executes, and when their number keeps to the limit. -/

namespace MiniBeam

open Lockstep (Results)
open ResetCounter (counter Leaves Ends Keeps Harmless)

/-! ### The heap of the layer -/

/-- A collection of no heap at all moves nothing. -/
theorem mbGcCopyTerm_empty {heap heap' : Heap} {t t' : Term} (hspace : heap.toSpace = [])
    (h : mbGcCopyTerm heap t = .ok (t', heap')) : t' = t ∧ heap' = heap := by
  unfold mbGcCopyTerm at h
  split at h
  · cases h
    exact ⟨rfl, rfl⟩
  · split at h
    · rw [hspace] at h
      cases h
    · split at h
      · rw [hspace] at h
        cases h
      · cases h
        exact ⟨rfl, rfl⟩

theorem copyRoots_empty {heap heap' : Heap} {roots roots' : List Term} (hspace : heap.toSpace = [])
    (h : copyRoots heap roots = .ok (roots', heap')) : roots' = roots ∧ heap' = heap := by
  induction roots generalizing roots' heap' with
  | nil =>
      cases h
      exact ⟨rfl, rfl⟩
  | cons root roots ih =>
      obtain ⟨⟨t, heap₁⟩, hcopy, htail⟩ := bind_eq_ok.mp h
      obtain ⟨rfl, rfl⟩ := mbGcCopyTerm_empty hspace hcopy
      obtain ⟨⟨rest, heap₂⟩, hrest, hend⟩ := bind_eq_ok.mp htail
      obtain ⟨rfl, rfl⟩ := ih hrest
      cases hend
      exact ⟨rfl, rfl⟩

theorem gcRegs_zero {p p' : Process} (hp : p.heap = Heap.zero) (h : gcRegs p = .ok p') :
    p'.heap.hp = 0 ∧ p'.heap.capacity = 0 := by
  obtain ⟨⟨roots, heap⟩, hgc, h⟩ := bind_eq_ok.mp h
  cases h
  rw [hp] at hgc
  obtain ⟨⟨roots', heap₁⟩, hroots, hgc⟩ := bind_eq_ok.mp hgc
  obtain ⟨-, rfl⟩ := copyRoots_empty rfl hroots
  cases hgc
  exact ⟨rfl, rfl⟩

/-- Nothing is allocated from no heap. -/
theorem allocate_zero {p p' : Process} {alloc : Process → Except Fault (Term × Heap)} {dst : Reg}
    {rc : Status} (hp : p.heap = Heap.zero)
    (halloc : ∀ q : Process, q.heap.hp = 0 → q.heap.capacity = 0 → alloc q = .ok (0, q.heap))
    (h : allocate p alloc dst = .ok (rc, p')) : rc = .heapOom := by
  have hfirst := halloc p (by rw [hp]; rfl) (by rw [hp]; rfl)
  simp only [allocate, hfirst, ok_bind, ne_eq, not_true_eq_false, if_false] at h
  obtain ⟨q, hq, h⟩ := bind_eq_ok.mp h
  obtain ⟨hhp, hcap⟩ := gcRegs_zero (show (p.setHeap p.heap).heap = _ from hp) hq
  rw [halloc q hhp hcap] at h
  cases h
  rfl

theorem mbHeapMakeTuple_zero {heap : Heap} (hhp : heap.hp = 0) (hcap : heap.capacity = 0)
    (elems : List Term) (arity : ℕ) : mbHeapMakeTuple heap elems arity = .ok (0, heap) := by
  have hfull : mbHeapAlloc heap (1 + arity) = none := if_pos (by omega)
  rw [mbHeapMakeTuple, hfull]

theorem mbHeapCons_zero {heap : Heap} (hhp : heap.hp = 0) (hcap : heap.capacity = 0)
    (hd tl : Term) : mbHeapCons heap hd tl = .ok (0, heap) := by
  have hfull : mbHeapAlloc heap 2 = none := if_pos (by omega)
  rw [mbHeapCons, hfull]

section Step

variable {hal : Hal} {p p' : Process} {t : Trace}

/-- An instruction that succeeds without a heap leaves it at that. -/
theorem Instr.run_zero {scheduled : Bool} {preOpPc : ℕ} {events : List Event} {i : Instr}
    (hp : p.heap = Heap.zero) (h : i.run hal scheduled preOpPc p t = .ok (.ok, p', events)) :
    p'.heap = Heap.zero := by
  by_cases hheap : i.OnHeap
  · cases i with
    | makeTuple dst elems =>
        obtain ⟨⟨rc, q⟩, hq, h⟩ := bind_eq_ok.mp h
        cases h
        cases allocate_zero hp (fun q hhp hcap => mbHeapMakeTuple_zero hhp hcap _ _) hq
    | cons dst hd tl =>
        obtain ⟨⟨rc, q⟩, hq, h⟩ := bind_eq_ok.mp h
        cases h
        cases allocate_zero hp (fun q hhp hcap => mbHeapCons_zero hhp hcap _ _) hq
    | tupleElem dst tuple index =>
        simp only [Instr.run, hp] at h
        split at h <;> cases h
    | head dst cell | tail dst cell =>
        simp only [Instr.run, hp] at h
        split at h <;> cases h
    | _ => exact hheap.elim
  · have hmatched : p.Matched Eq (fun a _ => a = Heap.zero) p :=
      ⟨rfl, rfl, rfl, rfl, rfl, rfl, fun _ => rfl, hp⟩
    have hrun := Instr.run_matched immediates_eq hal scheduled preOpPc t hheap hmatched
      (hmatched.sameInts i)
    exact (hrun.of_ok h h).proc.heap

theorem mbProcStep_zero {m' : Machine} (hp : p.heap = Heap.zero)
    (h : mbProcStep hal ⟨.compat p, t⟩ = .ok (.ok, m')) : m'.proc.heap = Heap.zero := by
  rw [mbProcStep_eq] at h
  split at h
  · cases h
    exact hp
  · split at h
    · rename_i e pc hd
      cases h
      exact hp
    · rename_i i pc hd
      by_cases hs : i.IsSend
      · obtain ⟨_, _, _, _, _, _, rfl⟩ := hs
        cases h
        exact hp
      · obtain ⟨q, events, hrun, rfl⟩ := execInstr_ok hal _ hs h
        rw [if_pos rfl, Machine.proc_emit, Machine.proc_setProc]
        exact Instr.run_zero (show (p.setPc pc).heap = _ from hp) hrun

end Step

theorem Process.Matched.trans {p q r : Process} (h : p.Matched Eq Eq q) (h' : q.Matched Eq Eq r) :
    p.Matched Eq Eq r :=
  ⟨h'.pid.trans h.pid, h'.program.trans h.program, h'.pc.trans h.pc, h'.mailbox.trans h.mailbox,
    h'.halted.trans h.halted, h'.lastError.trans h.lastError,
    fun i => (h.regs i).trans (h'.regs i), h.heap.trans h'.heap⟩

/-! ### Counting instructions -/

/-- The number of instructions the loop of `mb_proc_run` executes in at most `fuel` rounds. -/
def executed (hal : Hal) (maxSteps : ℕ) : ℕ → Machine → ℕ
  | 0, _ => 0
  | fuel + 1, m =>
    if m.proc.halted ∨ m.proc.reductions ≥ maxSteps then 0
    else
      match runRound hal maxSteps m with
      | .ok (none, m) => executed hal maxSteps fuel m + 1
      | _ => 1

/-- The number of instructions `mb_vm_run` executes. -/
def vmExecuted (hal : Hal) (fuel maxSteps : ℕ) (vm : VmState) (t : Trace) : ℕ :=
  executed hal maxSteps fuel ⟨.compat { mbVmToProc vm with reductions := 0 }, t⟩

/-- Consecutive calls of `mb_vm_step`: the status of the last, with the VM and the events
behind it. -/
def vmSteps (hal : Hal) (vm : VmState) (t : Trace) (k : ℕ) :
    Except Fault (Status × VmState × Trace) :=
  Lockstep.iterate (fun s => mbVmStep hal s.2.1 s.2.2) k (.ok, vm, t)

/-- After `k` calls the VM is halted, or the last call failed. -/
def VmStopped (hal : Hal) (vm : VmState) (t : Trace) (k : ℕ) : Prop :=
  match vmSteps hal vm t k with
  | .error _ => True
  | .ok (rc, vm', _) => rc ≠ .ok ∨ vm'.halted = true

/-- After `k` calls the next is a `YIELD`. -/
def VmYields (hal : Hal) (vm : VmState) (t : Trace) (k : ℕ) : Prop :=
  match vmSteps hal vm t k with
  | .error _ => False
  | .ok (_, vm', _) => vm'.halted = false ∧ (mbVmToProc vm').AtYield

/-- `mb_vm_run` executes a number of instructions within its limit and does what as many
calls of `mb_vm_step` do. It stays below its limit only where the VM is stopped, or behind
a `YIELD`. -/
def BoundedRun (hal : Hal) (maxSteps : ℕ) (vm : VmState) (t : Trace) : Prop :=
  ∃ k ≤ maxSteps, (∃ enough, ∀ fuel ≥ enough, vmExecuted hal fuel maxSteps vm t = k ∧
    mbVmRun hal fuel maxSteps vm t = vmSteps hal vm t k) ∧
    (k < maxSteps → VmStopped hal vm t k ∨ ∃ j, k = j + 1 ∧ VmYields hal vm t j)

/-! ### The loop against the calls -/

section Loop

variable {hal : Hal} {vm : VmState} {t : Trace} {maxSteps k : ℕ}

/-- The counter of the loop, as the calls see it: a `YIELD` leaves it at one more than the
limit of a slice. -/
noncomputable def vmCounter (hal : Hal) (vm : VmState) (t : Trace) : ℕ → ℕ :=
  open Classical in counter (VmYields hal vm t) (maxReductions + 1)

/-- The machine of the loop after `k` instructions, against the VM after `k` calls. -/
structure Follows (hal : Hal) (vm : VmState) (t : Trace) (k : ℕ) (p : Process) (vm' : VmState)
    (t' : Trace) : Prop where
  calls : vmSteps hal vm t k = .ok (.ok, vm', t')
  program : vm'.program = vm.program
  proc : p.Matched Eq Eq (mbVmToProc vm')
  reductions : p.reductions = vmCounter hal vm t k

theorem follows_start (hal : Hal) (vm : VmState) (t : Trace) :
    Follows hal vm t 0 { mbVmToProc vm with reductions := 0 } vm t :=
  ⟨rfl, rfl, ⟨rfl, rfl, rfl, rfl, rfl, rfl, fun _ => rfl, rfl⟩, rfl⟩

theorem vmSteps_succ (hal : Hal) (vm : VmState) (t : Trace) (k : ℕ) :
    vmSteps hal vm t (k + 1) = (vmSteps hal vm t k >>= fun s => mbVmStep hal s.2.1 s.2.2) := rfl

theorem mbProcToVm_matched {p q : Process} {H : Heap → Heap → Prop} (h : p.Matched Eq H q)
    {vm vm' : VmState} (hprogram : vm'.program = vm.program) :
    mbProcToVm q vm' = mbProcToVm p vm := by
  simp only [mbProcToVm, hprogram, h.pc, h.regs_eq, h.mailbox, h.halted, h.lastError]

theorem Follows.yields_iff {p : Process} {vm' : VmState} {t' : Trace}
    (h : Follows hal vm t k p vm' t') :
    VmYields hal vm t k ↔ p.halted = false ∧ p.AtYield := by
  have hpc : vm'.pc = p.pc := h.proc.pc
  have hprogram : vm'.program = p.program := h.proc.program
  have hhalted : vm'.halted = p.halted := h.proc.halted
  simp only [VmYields, h.calls, Process.AtYield, mbVmToProc, hpc, hprogram, hhalted]

theorem Follows.stopped_iff {p : Process} {vm' : VmState} {t' : Trace}
    (h : Follows hal vm t k p vm' t') : VmStopped hal vm t k ↔ p.halted = true := by
  have hhalted : vm'.halted = p.halted := h.proc.halted
  simp [VmStopped, h.calls, hhalted]

/-- The counter behind a step of the loop. -/
theorem Follows.counter_succ {p p' : Process} {vm' : VmState} {t' : Trace} {rc : Status}
    {m : Machine} (h : Follows hal vm t k p vm' t') (hgo : p.halted = false)
    (hstep : mbProcStep hal ⟨.compat p, t'⟩ = .ok (rc, m)) (hm : m.proc = p') :
    p'.reductions + 1 = vmCounter hal vm t (k + 1) := by
  subst hm
  by_cases hy : VmYields hal vm t k
  · obtain ⟨-, pc, hd⟩ := h.yields_iff.mp hy
    rw [mbProcStep_yield (m := ⟨.compat p, t'⟩) hgo hd] at hstep
    cases hstep
    rw [vmCounter, counter, if_pos hy]
    rfl
  · have hred := mbProcStep_reductions (m := ⟨.compat p, t'⟩)
      (fun hat => hy (h.yields_iff.mpr ⟨hgo, hat⟩)) hstep
    rw [vmCounter, counter, if_neg hy, hred]
    exact congrArg (· + 1) h.reductions

/-- One round of the loop does what the next call does. -/
theorem Follows.round {p : Process} {vm' : VmState} {t' : Trace}
    (h : Follows hal vm t k p vm' t') (hgo : p.halted = false ∧ p.reductions < maxSteps) :
    (∃ f, runRound hal maxSteps ⟨.compat p, t'⟩ = .error f ∧ vmSteps hal vm t (k + 1) = .error f) ∨
    (∃ rc q t'', rc ≠ .ok ∧ runRound hal maxSteps ⟨.compat p, t'⟩ =
        .ok (some rc, ⟨.compat q, t''⟩) ∧
      vmSteps hal vm t (k + 1) = .ok (rc, mbProcToVm q vm, t'')) ∨
    ∃ q vm'' t'', runRound hal maxSteps ⟨.compat p, t'⟩ = .ok (none, ⟨.compat q, t''⟩) ∧
      Follows hal vm t (k + 1) q vm'' t'' := by
  have hmatched : Machine.Matched Eq Eq ⟨.compat p, t'⟩ ⟨.compat (mbVmToProc vm'), t'⟩ :=
    ⟨rfl, h.proc, nofun⟩
  have hstep := mbProcStep_same hal hmatched
  have hcond : ¬ ((⟨.compat p, t'⟩ : Machine).proc.halted = true ∨
      (⟨.compat p, t'⟩ : Machine).proc.reductions ≥ maxSteps) := by
    rintro (hh | hred)
    · rw [show (⟨.compat p, t'⟩ : Machine).proc.halted = false from hgo.1] at hh
      cases hh
    · exact absurd hgo.2 (Nat.not_lt_of_le hred)
  rw [vmSteps_succ, h.calls]
  simp only [ok_bind, mbVmStep]
  rw [runRound, if_neg hcond]
  cases hp : mbProcStep hal ⟨.compat p, t'⟩ with
  | error f =>
      rw [hp] at hstep
      generalize mbProcStep hal ⟨.compat (mbVmToProc vm'), t'⟩ = y at hstep
      cases hstep
      exact .inl ⟨f, rfl, rfl⟩
  | ok a =>
      obtain ⟨⟨rc', mq⟩, hq, hrc, hm⟩ := hstep.right hp
      obtain ⟨rc, mp⟩ := a
      obtain rfl : rc' = rc := hrc
      obtain ⟨p₁, events, rfl, -⟩ := mbProcStep_compat hp
      obtain ⟨q₁, events', rfl, hlocal⟩ := mbProcStep_compat hq
      have hproc : p₁.Matched Eq Eq q₁ := hm.proc
      have htrace : t' ++ events' = t' ++ events := hm.trace
      rw [hq]
      by_cases hok : rc' = .ok
      · subst hok
        have hzero : q₁.heap = Heap.zero := mbProcStep_zero rfl hq
        have hpid : q₁.pid = 0 := hlocal.pid
        have hprogram : q₁.program = vm'.program := hlocal.program
        refine .inr (.inr ⟨{ p₁ with reductions := p₁.reductions + 1 }, mbProcToVm q₁ vm',
          t' ++ events, ?_, ?_, h.program, ?_, ?_⟩)
        · rfl
        · rw [vmSteps_succ, h.calls]
          simp only [ok_bind, mbVmStep, hq, pure_ok, htrace]
          rfl
        · have hback : q₁.Matched Eq Eq (mbVmToProc (mbProcToVm q₁ vm')) :=
            ⟨hpid.symm, hprogram.symm, rfl, rfl, rfl, rfl, fun _ => rfl, hzero⟩
          exact (hproc.trans hback).congr ..
        · exact h.counter_succ hgo.1 hp rfl
      · refine .inr (.inl ⟨rc', p₁, t' ++ events, hok, ?_, ?_⟩)
        · simp only [ok_bind, ne_eq, hok, not_false_eq_true, if_true, pure_ok]
        · have hvm : mbProcToVm q₁ vm' = mbProcToVm p₁ vm := mbProcToVm_matched hproc h.program
          simp only [ok_bind, pure_ok, htrace, ← hvm]
          rfl

/-- The loop leaves after `k` instructions if it gets there, as the calls see it. -/
def VmLeaves (hal : Hal) (vm : VmState) (t : Trace) (maxSteps k : ℕ) : Prop :=
  open Classical in Leaves (VmYields hal vm t) (VmStopped hal vm t) (maxReductions + 1) maxSteps k

theorem Follows.leaves_iff {p : Process} {vm' : VmState} {t' : Trace}
    (h : Follows hal vm t k p vm' t') :
    VmLeaves hal vm t maxSteps k ↔ p.halted = true ∨ p.reductions ≥ maxSteps := by
  rw [VmLeaves, Leaves, h.stopped_iff, ← vmCounter, ← h.reductions]

/-- The first `k` instructions of a loop that does not leave before: it stands where the calls
stand, or the last of them ended it. -/
theorem loop_prefix (h : ∀ j < k, ¬ VmLeaves hal vm t maxSteps j) :
    (∃ p vm' t', Follows hal vm t k p vm' t' ∧ ∀ fuel,
      vmExecuted hal (k + fuel) maxSteps vm t =
        k + executed hal maxSteps fuel ⟨.compat p, t'⟩ ∧
      mbProcRun hal (k + fuel) maxSteps ⟨.compat (mbVmToProc vm), t⟩ =
        runLoop hal maxSteps fuel ⟨.compat p, t'⟩) ∨
    (VmStopped hal vm t k ∧ ∀ fuel, vmExecuted hal (k + fuel) maxSteps vm t = k ∧
      mbVmRun hal (k + fuel) maxSteps vm t = vmSteps hal vm t k) := by
  induction k with
  | zero =>
      refine .inl ⟨_, vm, t, follows_start hal vm t, fun fuel => ⟨?_, ?_⟩⟩
      · rw [Nat.zero_add, Nat.zero_add, vmExecuted]
      · rw [Nat.zero_add]
        rfl
  | succ k ih =>
      have hstay := h k (Nat.lt_add_one k)
      rcases ih fun j hj => h j (Nat.lt_succ_of_lt hj) with ⟨p, vm', t', hf, hloop⟩ | ⟨hstop, -⟩
      · have hgo : ¬ (p.halted = true ∨ p.reductions ≥ maxSteps) := fun hl =>
          hstay (hf.leaves_iff.mpr hl)
        have hsucc : ∀ fuel, k + 1 + fuel = k + (fuel + 1) := fun fuel => by omega
        have hexec : ∀ fuel, executed hal maxSteps (fuel + 1) ⟨.compat p, t'⟩ =
            match runRound hal maxSteps ⟨.compat p, t'⟩ with
            | .ok (none, m) => executed hal maxSteps fuel m + 1
            | _ => 1 := fun fuel => if_neg hgo
        have hbelow : p.halted = false ∧ p.reductions < maxSteps := by
          rw [not_or, Bool.not_eq_true] at hgo
          exact ⟨hgo.1, Nat.lt_of_not_le hgo.2⟩
        rcases hf.round hbelow with ⟨f, hround, hcall⟩ | ⟨rc, q, t'', hrc, hround, hcall⟩ |
          ⟨q, vm'', t'', hround, hnext⟩
        · refine .inr ⟨by rw [VmStopped, hcall]; trivial, fun fuel => ⟨?_, ?_⟩⟩
          · rw [hsucc, (hloop (fuel + 1)).1, hexec, hround]
          · rw [hsucc, mbVmRun, (hloop (fuel + 1)).2, runLoop, hround, hcall]
            rfl
        · refine .inr ⟨by rw [VmStopped, hcall]; exact .inl hrc, fun fuel => ⟨?_, ?_⟩⟩
          · rw [hsucc, (hloop (fuel + 1)).1, hexec, hround]
          · rw [hsucc, mbVmRun, (hloop (fuel + 1)).2, runLoop, hround, hcall]
            rfl
        · refine .inl ⟨q, vm'', t'', hnext, fun fuel => ⟨?_, ?_⟩⟩
          · rw [hsucc, (hloop (fuel + 1)).1, hexec, hround]
            show k + (executed hal maxSteps fuel _ + 1) = _
            omega
          · rw [hsucc, (hloop (fuel + 1)).2, runLoop, hround]
            rfl
      · exact absurd (.inl hstop) hstay

/-- The loop leaves where the calls say, after as many instructions, with their result. -/
theorem loop_leaves (hleaves : VmLeaves hal vm t maxSteps k)
    (h : ∀ j < k, ¬ VmLeaves hal vm t maxSteps j) : ∀ fuel ≥ k + 1,
      vmExecuted hal fuel maxSteps vm t = k ∧
      mbVmRun hal fuel maxSteps vm t = vmSteps hal vm t k := by
  intro fuel hfuel
  obtain ⟨more, rfl⟩ := Nat.exists_eq_add_of_le hfuel
  rw [show k + 1 + more = k + (more + 1) by omega]
  rcases loop_prefix h with ⟨p, vm', t', hf, hloop⟩ | ⟨-, hloop⟩
  · have hend := hf.leaves_iff.mp hleaves
    obtain ⟨hexec, hrun⟩ := hloop (more + 1)
    have hround : runRound hal maxSteps ⟨.compat p, t'⟩ = .ok (some .ok, ⟨.compat p, t'⟩) :=
      if_pos hend
    have hexec' : executed hal maxSteps (more + 1) ⟨.compat p, t'⟩ = 0 := if_pos hend
    refine ⟨by rw [hexec, hexec', Nat.add_zero], ?_⟩
    have hvm : mbProcToVm (mbVmToProc vm') vm' = mbProcToVm p vm :=
      mbProcToVm_matched hf.proc hf.program
    rw [mbVmRun, hrun, runLoop, hround, hf.calls]
    show Except.ok (Status.ok, mbProcToVm p vm, t') = _
    rw [← hvm]
    rfl
  · exact hloop (more + 1)

/-- The claims about the loop are claims about its counter. -/
theorem boundedRun_iff_keeps : BoundedRun hal maxSteps vm t ↔
    open Classical in Keeps (VmYields hal vm t) (VmStopped hal vm t) (maxReductions + 1)
      maxSteps := by
  classical
  constructor
  · rintro ⟨k, hk, ⟨enough, hloop⟩, hearly⟩
    have hends : (∃ l,
        Ends (VmYields hal vm t) (VmStopped hal vm t) (maxReductions + 1) maxSteps l) ∨
        ∀ l, ¬ VmLeaves hal vm t maxSteps l := ResetCounter.ends_or_never
    rcases hends with ⟨l, hl⟩ | hnever
    · have hexec := (loop_leaves hl.1 hl.2 (max enough (l + 1)) (le_max_right _ _)).1
      rw [(hloop (max enough (l + 1)) (le_max_left _ _)).1] at hexec
      subst hexec
      exact ⟨k, hk, hl, hearly⟩
    · have hlong := (hloop (max enough (k + 1)) (le_max_left _ _)).1
      generalize hn : max enough (k + 1) = n at hlong
      rcases loop_prefix (k := n) fun j _ => hnever j with ⟨p, vm', t', -, hfront⟩ | ⟨hstop, -⟩
      · have hexec := (hfront 0).1
        rw [Nat.add_zero, hlong] at hexec
        have hkn : k + 1 ≤ n := hn ▸ le_max_right _ _
        omega
      · exact absurd (.inl hstop) (hnever n)
  · rintro ⟨k, hk, hends, hearly⟩
    exact ⟨k, hk, ⟨k + 1, loop_leaves hends.1 hends.2⟩, hearly⟩

end Loop

/-- Exactly when `mb_vm_run` keeps to its limit: the limit is at most 65, or every `YIELD`
among the first `maxSteps` calls is the 65th call, or is followed, within `maxSteps - 65` calls
and the first `maxSteps`, by another `YIELD` or a stop. -/
theorem boundedRun_iff (hal : Hal) (maxSteps : ℕ) (vm : VmState) (t : Trace) :
    BoundedRun hal maxSteps vm t ↔ maxSteps ≤ 65 ∨ ∀ j < maxSteps,
      (∀ i ≤ j, ¬ VmStopped hal vm t i) → VmYields hal vm t j → j + 1 = 65 ∨ ∃ n, j < n ∧
        ((VmStopped hal vm t n ∧ n ≤ maxSteps ∧ n + 65 ≤ j + 1 + maxSteps) ∨
          (VmYields hal vm t n ∧ n < maxSteps ∧ n + 65 ≤ j + maxSteps)) := by
  classical
  rw [boundedRun_iff_keeps, ResetCounter.keeps_iff]
  rfl

/-- A `YIELD`, a `NOP` and a `HALT` keep to a limit of 67: the halt comes in time. -/
theorem boundedRun_iff_halt : BoundedRun idleHal 67 (mbVmInit [0x23, 0x00, 0xFF]) [] := by
  have hstopped : VmStopped idleHal (mbVmInit [0x23, 0x00, 0xFF]) [] 3 := .inr rfl
  refine (boundedRun_iff idleHal 67 _ []).mpr (.inr fun j hj hon hyields => .inr ⟨3, ?_⟩)
  rcases j with _ | _ | _ | j
  · exact ⟨by decide, .inl ⟨hstopped, by decide, by decide⟩⟩
  · obtain ⟨-, pc, hd⟩ := hyields
    cases hd
  · obtain ⟨-, pc, hd⟩ := hyields
    cases hd
  · exact absurd hstopped (hon 3 (by omega))

/-- A `YIELD` and a `NOP` use up a limit of 66 instructions. -/
theorem yield_not_bounded :
    ¬ BoundedRun (fun _ _ => ⟨0, 0, 0⟩) 66 (mbVmInit [0x23, 0x00, 0x00]) [] := by
  rintro ⟨k, -, ⟨enough, hloop⟩, hearly⟩
  have hexec : vmExecuted (fun _ _ => ⟨0, 0, 0⟩) (enough + 3) 66 (mbVmInit [0x23, 0x00, 0x00]) [] =
      2 := rfl
  obtain rfl : 2 = k := hexec.symm.trans (hloop (enough + 3) (Nat.le_add_right _ _)).1
  rcases hearly (by decide) with hstop | ⟨j, hj, hyield⟩
  · rcases hstop with hrc | hhalted
    · exact hrc rfl
    · cases hhalted
  · obtain rfl : j = 1 := by omega
    obtain ⟨-, pc, hd⟩ := hyield
    cases hd

end MiniBeam

import MiniBeam.Verification.Heap.Bounds
import MiniBeam.Verification.Process.Safety
import MiniBeam.Verification.Scheduler.Budget
import MiniBeam.Verification.Scheduler.Isolation
import MiniBeam.Verification.Compat.Runs

/-! Decoder and table safety: whatever the bytes of the programs are, a run reads and
writes inside the program, the registers, the buffers, the rings and the table. -/

namespace MiniBeam

/-! ### One instruction -/

theorem allocate_safe {p : Process} {alloc : Process → Except Fault (Term × Heap)} {dst : Reg}
    (h : ∀ q, Safe (alloc q)) : Safe (allocate p alloc dst) := by
  refine (h p).bind fun ⟨t, heap⟩ _ => ?_
  dsimp only
  split
  · exact Safe.ok _
  · refine (gcRegs_safe _).bind fun q _ => (h q).bind fun ⟨t, heap⟩ _ => ?_
    dsimp only
    split <;> exact Safe.ok _

theorem Mailbox.Holds.pop_safe {mb : Mailbox} {q : Inbox} (h : mb.Holds q) :
    Safe (mbMailboxPopRaw mb) := by
  have href := Mailbox.pop_refines h
  split at href
  · rw [href]
    exact Safe.ok _
  · obtain ⟨mb', hmb, -⟩ := href
    rw [hmb]
    exact Safe.ok _

theorem Mailbox.Holds.push_safe {mb : Mailbox} {q : Inbox} (h : mb.Holds q) (cmd : Command) :
    Safe (mbMailboxPushRaw mb cmd) := by
  obtain ⟨mb', hmb, -, -⟩ := Mailbox.push_refines h cmd
  rw [hmb]
  exact Safe.ok _

section Step

variable {hal : Hal} {scheduled : Bool} {preOpPc : ℕ} {trace : Trace}

theorem Instr.run_safe {p : Process} {q : Inbox} (hmb : p.mailbox.Holds q) (i : Instr) :
    Safe (i.run hal scheduled preOpPc p trace) := by
  cases i with
  | callBif bifId args dst =>
      simp only [Instr.run]
      split
      · split <;> exact Safe.ok _
      · exact Safe.ok _
  | recvCmd t a b c d =>
      refine hmb.pop_safe.bind fun popped _ => ?_
      rcases popped with _ | ⟨cmd, mb⟩
      · dsimp only
        split <;> exact Safe.ok _
      · exact Safe.ok _
  | jmpIfZero r offset =>
      simp only [Instr.run]
      split <;> exact Safe.ok _
  | sleepMs r =>
      simp only [Instr.run]
      split <;> exact Safe.ok _
  | makeTuple dst elems =>
      exact (allocate_safe fun r => mbHeapMakeTuple_safe r.heap _).bind fun _ _ => Safe.ok _
  | cons dst hd tl =>
      exact (allocate_safe fun r => mbHeapCons_safe r.heap _ _).bind fun _ _ => Safe.ok _
  | tupleElem dst tuple index =>
      simp only [Instr.run]
      split
      · refine (readWord_safe _ _).bind fun hdr _ => ?_
        split
        · exact Safe.ok _
        · split
          · exact (readWord_safe _ _).bind fun _ _ => Safe.ok _
          · exact Safe.ok _
      · exact Safe.ok _
  | head dst cell =>
      simp only [Instr.run]
      split
      · exact (readWord_safe _ _).bind fun _ _ => Safe.ok _
      · exact Safe.ok _
  | tail dst cell =>
      simp only [Instr.run]
      split
      · exact (readWord_safe _ _).bind fun _ _ => Safe.ok _
      · exact Safe.ok _
  | _ => exact Safe.ok _

theorem mbSchedProc_safe (s : Scheduler) (pid : Byte) : Safe (mbSchedProc s pid) := by
  unfold mbSchedProc
  split
  · exact Safe.ok _
  · rename_i hp
    have hpos : pid.toNat ≠ 0 := fun hz => hp (.inl (BitVec.eq_of_toNat_eq hz))
    have hlt : pid.toNat - 1 < maxProcesses := by
      have := fun h => hp (.inr h)
      omega
    simp only [hlt, dite_true]
    split <;> exact Safe.ok _

theorem deliver_safe {s : Scheduler} {target : Slot} {q : Inbox}
    (h : (s.proc target).mailbox.Holds q) (cmd : Command) : Safe (deliver s target cmd) :=
  ((h.push_safe cmd).bind fun _ _ => Safe.ok _).bind fun _ _ => Safe.ok _

/-- The mailboxes an instruction can reach are rings of valid commands. -/
def Context.Mailboxes : Context → Prop
  | .compat p => ∃ q, p.mailbox.Holds q
  | .sched s _ => ∀ i, ∃ q, (s.proc i).mailbox.Holds q

theorem Context.Mailboxes.setProc {c : Context} {p : Process} (h : c.Mailboxes)
    (hp : p.mailbox = c.proc.mailbox) : (c.setProc p).Mailboxes := by
  cases c with
  | compat p₀ =>
      show ∃ q, p.mailbox.Holds q
      rw [hp]
      exact h
  | sched s self =>
      intro i
      show ∃ q, ((s.setProc self p).proc i).mailbox.Holds q
      rw [Scheduler.proc_setProc]
      split
      · rw [hp]
        exact h self
      · exact h i

theorem Context.Mailboxes.proc {c : Context} (h : c.Mailboxes) :
    ∃ q, c.proc.mailbox.Holds q := by
  cases c with
  | compat p => exact h
  | sched s self => exact h self

theorem execInstr_safe {m : Machine} (h : m.ctx.Mailboxes) (i : Instr) :
    Safe (execInstr hal preOpPc m i) := by
  by_cases hs : i.IsSend
  · obtain ⟨a, b, c, d, e, f, rfl⟩ := hs
    rcases m with ⟨p | ⟨s, self⟩, t⟩
    · exact Safe.ok _
    · refine Safe.bind ?_ fun _ _ => Safe.ok _
      refine (mbSchedProc_safe _ _).bind fun found _ => ?_
      rcases found with _ | target
      · exact Safe.ok _
      · obtain ⟨q, hq⟩ := h target
        exact (deliver_safe hq _).bind fun _ _ => Safe.ok _
  · obtain ⟨q, hq⟩ := h.proc
    rw [execInstr_run hal preOpPc hs]
    exact (Instr.run_safe hq _).bind fun _ _ => Safe.ok _

/-- No step reads or writes outside the program, the registers, the buffers, the rings
or the table. -/
theorem mbProcStep_safe {m : Machine} (h : m.ctx.Mailboxes) : Safe (mbProcStep hal m) := by
  rw [mbProcStep_eq]
  split
  · exact Safe.ok _
  · split
    · exact Safe.ok _
    · exact execInstr_safe (Context.Mailboxes.setProc h (Process.setPc_mailbox _ _)) _

theorem runRound_safe {maxSteps : ℕ} {m : Machine} (h : m.ctx.Mailboxes) :
    Safe (runRound hal maxSteps m) := by
  unfold runRound
  split
  · exact Safe.ok _
  · refine (mbProcStep_safe h).bind fun r _ => ?_
    dsimp only
    split
    · exact Safe.ok _
    · split <;> exact Safe.ok _

end Step

/-! ### Whole runs -/

theorem Intake.holds {p p' : Process} {events : List Event} {q : Inbox}
    (h : p.mailbox.Holds q) (hi : Intake p p' events) : ∃ q', p'.mailbox.Holds q' := by
  cases hi with
  | keep _ hm hc =>
      rw [hm]
      exact ⟨q, h⟩
  | pop cmd hp =>
      have href := Mailbox.pop_refines h
      split at href
      · simp [href] at hp
      · obtain ⟨mb', hmb, hholds⟩ := href
        simp only [hmb, Except.ok.injEq, Option.some.injEq, Prod.mk.injEq] at hp
        exact ⟨_, hp.2 ▸ hholds⟩

section Compat

variable {hal : Hal} {p : Process} {t : Trace}

/-- A round of a process on its own keeps its mailbox a ring of valid commands. -/
theorem runRound_holds {maxSteps : ℕ} {rc : Option Status} {m' : Machine} {q : Inbox}
    (hmb : p.mailbox.Holds q) (h : runRound hal maxSteps ⟨.compat p, t⟩ = .ok (rc, m')) :
    ∃ p' t', m' = ⟨.compat p', t'⟩ ∧ ∃ q', p'.mailbox.Holds q' := by
  obtain ⟨p', events, rfl, r, hlocal, hquiet, -⟩ := runRound_compat h
  refine ⟨p', _, rfl, ?_⟩
  rw [hquiet.mailbox]
  exact hlocal.intake.holds hmb

theorem runLoop_compat (hal : Hal) (t : Trace) (maxSteps fuel : ℕ) {q : Inbox}
    (hmb : p.mailbox.Holds q) :
    (∀ f, runLoop hal maxSteps fuel ⟨.compat p, t⟩ = .error f → (∃ i, f = .word i) ∨ f = .fuel) ∧
    ∀ rc m', runLoop hal maxSteps fuel ⟨.compat p, t⟩ = .ok (rc, m') →
      ∃ q', m'.proc.mailbox.Holds q' := by
  induction fuel generalizing p t q with
  | zero =>
      refine ⟨fun f h => ?_, fun rc m' h => by simp [runLoop] at h⟩
      simp only [runLoop, Except.error.injEq] at h
      exact .inr h.symm
  | succ fuel ih =>
      have hsafe : Safe (runRound hal maxSteps ⟨.compat p, t⟩) := runRound_safe ⟨q, hmb⟩
      simp only [runLoop]
      rcases hround : runRound hal maxSteps ⟨.compat p, t⟩ with f | ⟨end?, m₁⟩
      · refine ⟨fun g hg => ?_, fun rc m' h => by simp at h⟩
        simp only [error_bind, Except.error.injEq] at hg
        exact .inl (hg ▸ hsafe f hround)
      · obtain ⟨p', t', rfl, q', hmb'⟩ := runRound_holds hmb hround
        cases end? with
        | some rc =>
            refine ⟨fun f h => by simp at h, fun rc' m' h => ?_⟩
            simp only [ok_bind, pure_ok, Except.ok.injEq, Prod.mk.injEq] at h
            rw [← h.2]
            exact ⟨q', hmb'⟩
        | none => exact ih _ hmb'

/-- A call on a VM, from a mailbox that is a ring of valid commands. -/
theorem runVmCall_safe (hal : Hal) (t : Trace) {vm : VmState} {q : Inbox}
    (hmb : vm.mailbox.Holds q) (c : VmCall) :
    (∀ f, runVmCall hal vm t c = .error f → (∃ i, f = .word i) ∨ f = .fuel) ∧
    ∀ vm' t', runVmCall hal vm t c = .ok (vm', t') → ∃ q', vm'.mailbox.Holds q' := by
  cases c with
  | push cmd =>
      obtain ⟨mb, hp, hholds, -⟩ := Mailbox.push_refines hmb cmd
      simp only [runVmCall, mbVmMailboxPush, hp, ok_bind, pure_ok]
      refine ⟨fun f h => by simp at h, fun vm' t' h => ?_⟩
      simp only [Except.ok.injEq, Prod.mk.injEq] at h
      rw [← h.1]
      exact ⟨_, hholds⟩
  | pop =>
      have href := Mailbox.pop_refines hmb
      simp only [runVmCall, mbVmMailboxPop]
      split at href
      · simp only [href, ok_bind, pure_ok]
        refine ⟨fun f h => by simp at h, fun vm' t' h => ?_⟩
        simp only [Except.ok.injEq, Prod.mk.injEq] at h
        exact ⟨q, h.1 ▸ hmb⟩
      · obtain ⟨mb, hp, hholds⟩ := href
        simp only [hp, ok_bind, pure_ok]
        refine ⟨fun f h => by simp at h, fun vm' t' h => ?_⟩
        simp only [Except.ok.injEq, Prod.mk.injEq] at h
        rw [← h.1]
        exact ⟨_, hholds⟩
  | step =>
      have hproc : (mbVmToProc vm).mailbox.Holds q := hmb
      have hsafe : Safe (mbProcStep hal ⟨.compat (mbVmToProc vm), t⟩) :=
        mbProcStep_safe ⟨q, hproc⟩
      simp only [runVmCall, mbVmStep]
      rcases hstep : mbProcStep hal ⟨.compat (mbVmToProc vm), t⟩ with f | ⟨rc, m⟩
      · refine ⟨fun g hg => ?_, fun vm' t' h => by simp at h⟩
        simp only [error_bind, Except.error.injEq] at hg
        exact .inl (hg ▸ hsafe f hstep)
      · obtain ⟨p', events, rfl, hl⟩ := mbProcStep_compat hstep
        obtain ⟨q', hq'⟩ := hl.intake.holds hproc
        refine ⟨fun f h => by simp at h, fun vm' t' h => ?_⟩
        simp only [ok_bind, pure_ok, Except.ok.injEq, Prod.mk.injEq] at h
        rw [← h.1]
        exact ⟨q', hq'⟩
  | run fuel maxSteps =>
      have hproc : ({ mbVmToProc vm with reductions := 0 } : Process).mailbox.Holds q := hmb
      obtain ⟨hsafe, hholds⟩ := runLoop_compat hal t maxSteps fuel hproc
      have hrun : mbProcRun hal fuel maxSteps ⟨.compat (mbVmToProc vm), t⟩ =
        runLoop hal maxSteps fuel ⟨.compat { mbVmToProc vm with reductions := 0 }, t⟩ := rfl
      simp only [runVmCall, mbVmRun, hrun]
      rcases hloop : runLoop hal maxSteps fuel
        ⟨.compat { mbVmToProc vm with reductions := 0 }, t⟩ with f | ⟨rc, m⟩
      · refine ⟨fun g hg => ?_, fun vm' t' h => by simp at h⟩
        simp only [error_bind, Except.error.injEq] at hg
        exact hg ▸ hsafe f hloop
      · obtain ⟨q', hq'⟩ := hholds rc m hloop
        refine ⟨fun f h => by simp at h, fun vm' t' h => ?_⟩
        simp only [ok_bind, pure_ok, Except.ok.injEq, Prod.mk.injEq] at h
        rw [← h.1]
        exact ⟨q', hq'⟩

theorem runVmCalls_safe {vm : VmState} {q : Inbox} (hmb : vm.mailbox.Holds q) (cs : List VmCall) :
    ∀ f, runVmCalls hal vm t cs = .error f → (∃ i, f = .word i) ∨ f = .fuel := by
  induction cs generalizing vm t q with
  | nil => simp [runVmCalls]
  | cons c cs ih =>
      obtain ⟨hsafe, hholds⟩ := runVmCall_safe hal t hmb c
      intro f h
      simp only [runVmCalls] at h
      rcases hcall : runVmCall hal vm t c with g | ⟨vm', t'⟩
      · rw [hcall, error_bind, Except.error.injEq] at h
        exact h ▸ hsafe g hcall
      · rw [hcall] at h
        obtain ⟨q', hmb'⟩ := hholds vm' t' hcall
        exact ih hmb' f h

end Compat

section Scheduled

variable {hal : Hal} {self : Slot}

theorem Ledgers.mailboxes {sys : System} (h : Ledgers sys) :
    (sys.machine self).ctx.Mailboxes := fun i =>
  let ⟨q, hq⟩ := h i
  ⟨q, hq.holds⟩

/-- The bound of a slice is never used up. -/
theorem runLoop_safe {sys : System} {fuel : ℕ} (hinv : Table sys ∧ Ledgers sys)
    (ready : (sys.sched.proc self).state = .ready) (hpos : 0 < fuel)
    (hfuel : maxReductions < (sys.sched.proc self).reductions + fuel) :
    Safe (runLoop hal maxReductions fuel (sys.machine self)) := by
  induction fuel generalizing sys with
  | zero => exact absurd hpos (Nat.lt_irrefl 0)
  | succ fuel ih =>
      refine (runRound_safe hinv.2.mailboxes).bind fun r hr => ?_
      obtain ⟨end?, m⟩ := r
      obtain ⟨sys₁, rfl, hmoves, hready⟩ := runRound_moves ready hr
      cases end? with
      | some rc => exact Safe.ok _
      | none =>
          obtain ⟨hlt, hnext⟩ := runRound_budget hr
          have hlt : (sys.sched.proc self).reductions < maxReductions := hlt
          have hnext : (sys₁.sched.proc self).reductions = (sys.sched.proc self).reductions + 1 ∨
            maxReductions < (sys₁.sched.proc self).reductions := hnext
          exact ih (ledgers_invariant.moves hmoves hinv) (hready rfl) (by omega) (by omega)

theorem mbSchedTick_safe {sys : System} (hinv : Table sys ∧ Ledgers sys) :
    Safe (mbSchedTick hal sys) := by
  unfold mbSchedTick
  obtain ⟨found, current, hpick, -, hready⟩ := mbSchedPick_ok hal sys
  have hinv₁ := ledgers_invariant.pick hpick hinv
  rw [hpick, ok_bind]
  cases found with
  | none => exact Safe.ok _
  | some self =>
      refine Safe.bind ?_ fun _ _ => Safe.ok _
      rw [mbProcRun_machine]
      have ready := hready self rfl
      refine runLoop_safe (ledgers_invariant.moves (startSlice_moves ready) hinv₁) ?_
        (Nat.succ_pos _) ?_
      · rw [System.startSlice, Scheduler.proc_setProc_self]
        exact ready
      · rw [System.startSlice, Scheduler.proc_setProc_self]
        simp

theorem runCalls_safe {sys : System} (hinv : Table sys ∧ Ledgers sys) (cs : List Call) :
    Safe (runCalls hal sys cs) := by
  induction cs generalizing sys with
  | nil => exact Safe.ok _
  | cons c cs ih =>
      refine Safe.bind ?_ fun sys' hc => ih (ledgers_invariant.call hc hinv)
      cases c with
      | spawn program => exact Safe.ok _
      | send dst cmd =>
          refine Safe.bind ?_ fun _ _ => Safe.ok _
          rw [mbSchedSend_eq]
          refine (mbSchedProc_safe _ _).bind fun found _ => ?_
          cases found with
          | none => exact Safe.ok _
          | some target =>
              obtain ⟨q, hq⟩ := hinv.2 target
              exact (deliver_safe hq.holds cmd).bind fun _ _ => Safe.ok _
      | tick => exact (mbSchedTick_safe hinv).bind fun _ _ => Safe.ok _

end Scheduled

/-- No bytecode makes a run read or write outside a program, the registers, the argument
and element buffers, the mailbox rings or the process table. -/
theorem bytecode_stays_in_bounds (hal : Hal) :
    (∀ calls f, runCalls hal System.init calls = .error f → ∃ i, f = .word i) ∧
    ∀ program calls f, runVmCalls hal (mbVmInit program) [] calls = .error f →
      (∃ i, f = .word i) ∨ f = .fuel :=
  ⟨runCalls_safe ledgers_invariant.init,
    fun _ calls => runVmCalls_safe (q := Inbox.empty) Mailbox.zero_holds calls⟩

/-- The one fault left is a heap word out of range, as the empty tuple shows. -/
theorem bytecode_stays_in_bounds_emptyTuple :
    runCalls idleHal System.init [.spawn emptyTupleLast, .tick] = .error (.word 128) ∧
    ∃ i, Fault.word 128 = .word i := by
  have hrun : (runCalls idleHal System.init [.spawn emptyTupleLast, .tick]).map (fun _ => ()) =
      .error (.word 128) := by decide +kernel
  cases h : runCalls idleHal System.init [.spawn emptyTupleLast, .tick] with
  | ok sys => rw [h] at hrun; cases hrun
  | error f =>
      rw [h] at hrun
      cases hrun
      exact ⟨rfl, (bytecode_stays_in_bounds idleHal).1 _ _ h⟩

end MiniBeam

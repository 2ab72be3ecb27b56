import MiniBeam.Verification.Step.Effect
import Mathlib.Logic.Relation

/-! Runs of the scheduler as sequences of small moves: a process works on itself, or a
command is pushed onto a mailbox. Every instruction and every slice is such a sequence. -/

namespace MiniBeam

open Relation (ReflTransGen)

/-- A process that is ready changes itself by an instruction or a part of one. -/
inductive Own (self : Slot) : System → System → Prop
  | mk {s : Scheduler} {t : Trace} {p' : Process} {events : List Event}
      (ready : (s.proc self).state = .ready) (change : Local (s.proc self) p' events) :
      Own self ⟨s, t⟩ ⟨s.setProc self p', t ++ events⟩

/-- A push onto the mailbox of an occupied slot, and the wake-up after it. -/
inductive Push : System → System → Prop
  | mk {s s' : Scheduler} {t : Trace} {target : Slot} {cmd : Command} {rc : Status}
      (occupied : (s.proc target).state ≠ .free)
      (delivered : deliver s target cmd = .ok (rc, s')) :
      Push ⟨s, t⟩ ⟨s', t ++ [.push (s.proc target).pid cmd rc]⟩

/-- A move of the slice of `self`. -/
def Move (self : Slot) (sys sys' : System) : Prop := Own self sys sys' ∨ Push sys sys'

/-- The moves of a slice. -/
abbrev Moves (self : Slot) : System → System → Prop := ReflTransGen (Move self)

/-! ### Pushes -/

theorem mbSchedProc_some {s : Scheduler} {pid : Byte} {i : Slot}
    (h : mbSchedProc s pid = .ok (some i)) :
    pid.toNat = i.val + 1 ∧ (s.proc i).state ≠ .free := by
  unfold mbSchedProc at h
  split at h
  · simp at h
  · rename_i hp
    have hpos : pid.toNat ≠ 0 := fun hz => hp (.inl (BitVec.eq_of_toNat_eq hz))
    split at h
    · split at h
      · simp at h
      · rename_i hf
        simp only [Except.ok.injEq, Option.some.injEq] at h
        subst h
        exact ⟨by simp only []; omega, hf⟩
    · simp at h

/-- A push finds the owner's process with only its mailbox and its state changed. -/
theorem deliver_eq {s s' : Scheduler} {target : Slot} {cmd : Command} {rc : Status}
    (h : deliver s target cmd = .ok (rc, s')) :
    ∃ mb state, mbMailboxPushRaw (s.proc target).mailbox cmd = .ok (rc, mb) ∧
      state = (if rc = .ok ∧ (s.proc target).state = .waiting then .ready
        else (s.proc target).state) ∧
      s' = s.setProc target { s.proc target with mailbox := mb, state := state } := by
  obtain ⟨⟨rc', p⟩, hp, h⟩ := bind_eq_ok.mp h
  obtain ⟨⟨rc'', mb⟩, hmb, hp⟩ := bind_eq_ok.mp hp
  simp only [pure_ok, Except.ok.injEq, Prod.mk.injEq] at h hp
  obtain ⟨rfl, rfl⟩ := hp
  obtain ⟨rfl, rfl⟩ := h
  refine ⟨mb, _, hmb, rfl, ?_⟩
  congr 1
  split <;> simp_all

/-- A process that is ready is still ready after any push. -/
theorem deliver_ready {s s' : Scheduler} {self target : Slot} {cmd : Command} {rc : Status}
    (h : deliver s target cmd = .ok (rc, s')) (hr : (s.proc self).state = .ready) :
    (s'.proc self).state = .ready := by
  obtain ⟨mb, state, -, hs, rfl⟩ := deliver_eq h
  rw [Scheduler.proc_setProc]
  split
  · rename_i heq
    subst heq
    simp [hs, hr]
  · exact hr

theorem mbSchedSend_eq (sys : System) (dst : Byte) (cmd : Command) :
    mbSchedSend sys dst cmd = do
      match ← mbSchedProc sys.sched dst with
      | none => return (.badPid, sys)
      | some target =>
        let (rc, s) ← deliver sys.sched target cmd
        return (rc, ⟨s, sys.trace ++ [.push (sys.sched.proc target).pid cmd rc]⟩) := by
  unfold mbSchedSend deliver
  rcases mbSchedProc sys.sched dst with _ | _ | target
  · rfl
  · rfl
  · simp only [ok_bind, mbVmMailboxPushProc]
    rcases mbMailboxPushRaw (sys.sched.proc target).mailbox cmd with _ | ⟨rc, mb⟩
    · rfl
    · simp only [ok_bind, pure_ok, Except.ok.injEq, Prod.mk.injEq, true_and, System.mk.injEq,
        List.append_cancel_left_eq, List.cons.injEq, and_true, Event.push.injEq]
      split <;> rfl

/-- What a push through the scheduler does, by what the pid names. -/
theorem mbSchedSend_cases {sys sys' : System} {dst : Byte} {cmd : Command} {rc : Status}
    (h : mbSchedSend sys dst cmd = .ok (rc, sys')) :
    (mbSchedProc sys.sched dst = .ok none ∧ rc = .badPid ∧ sys' = sys) ∨
      ∃ target after, mbSchedProc sys.sched dst = .ok (some target) ∧
        deliver sys.sched target cmd = .ok (rc, after) ∧
        sys' = ⟨after, sys.trace ++ [.push (sys.sched.proc target).pid cmd rc]⟩ := by
  rw [mbSchedSend_eq] at h
  obtain ⟨found, hf, h⟩ := bind_eq_ok.mp h
  rcases found with _ | target
  · simp only [pure_ok, Except.ok.injEq, Prod.mk.injEq] at h
    exact .inl ⟨hf, h.1.symm, h.2.symm⟩
  · obtain ⟨⟨rc', after⟩, hd, h⟩ := bind_eq_ok.mp h
    simp only [pure_ok, Except.ok.injEq, Prod.mk.injEq] at h
    obtain ⟨rfl, rfl⟩ := h
    exact .inr ⟨target, after, hf, hd, rfl⟩

theorem mbSchedSend_push {sys sys' : System} {dst : Byte} {cmd : Command} {rc : Status}
    (h : mbSchedSend sys dst cmd = .ok (rc, sys')) : sys' = sys ∨ Push sys sys' := by
  rcases mbSchedSend_cases h with ⟨-, -, rfl⟩ | ⟨target, after, hf, hd, rfl⟩
  · exact .inl rfl
  · exact .inr (.mk (mbSchedProc_some hf).2 hd)

/-! ### Steps and slices -/

theorem System.machine_inj {self : Slot} {sys sys' : System} :
    sys.machine self = sys'.machine self ↔ sys = sys' := by
  rcases sys with ⟨s, t⟩
  rcases sys' with ⟨s', t'⟩
  simp [System.machine]

/-- A quiet change of the running process is a move without events. -/
theorem Moves.quiet {self : Slot} {s : Scheduler} {t : Trace} {p' : Process}
    (ready : (s.proc self).state = .ready) (hq : Quiet (s.proc self) p') :
    Moves self ⟨s, t⟩ ⟨s.setProc self p', t⟩ := by
  have h := Own.mk (t := t) ready hq.isLocal
  rw [List.append_nil] at h
  exact .single (.inl h)

theorem sendFrom_moves {self : Slot} {s s' : Scheduler} {t : Trace} {rPid rType rA rB rC rD : Reg}
    {events : List Event} (ready : (s.proc self).state = .ready)
    (h : sendFrom s self rPid rType rA rB rC rD = .ok (s', events)) :
    Moves self ⟨s, t⟩ ⟨s', t ++ events⟩ := by
  simp only [sendFrom] at h
  obtain ⟨found, hf, h⟩ := bind_eq_ok.mp h
  rcases found with _ | target
  · simp only [pure_ok, Except.ok.injEq, Prod.mk.injEq] at h
    obtain ⟨rfl, rfl⟩ := h
    rw [List.append_nil]
    exact Moves.quiet ready (quiet_setReg _ _ _)
  · obtain ⟨⟨rc, after⟩, hd, h⟩ := bind_eq_ok.mp h
    simp only [pure_ok, Except.ok.injEq, Prod.mk.injEq] at h
    obtain ⟨rfl, rfl⟩ := h
    refine .head (.inr (.mk (mbSchedProc_some hf).2 hd)) ?_
    exact Moves.quiet (deliver_ready hd ready) (quiet_setReg _ _ _)

variable {hal : Hal}

/-- An instruction under the scheduler is a sequence of moves. -/
theorem execInstr_moves {self : Slot} {s : Scheduler} {t : Trace} {i : Instr} {pc : ℕ}
    {rc : Status} {m' : Machine} (ready : (s.proc self).state = .ready)
    (hd : decode (s.proc self).program (s.proc self).pc = (.ok i, pc))
    (h : execInstr hal (s.proc self).pc
      ⟨.sched (s.setProc self ((s.proc self).setPc pc)) self, t⟩ i = .ok (rc, m')) :
    ∃ sys', m' = sys'.machine self ∧ Moves self ⟨s, t⟩ sys' := by
  have hproc : (⟨.sched (s.setProc self ((s.proc self).setPc pc)) self, t⟩ : Machine).proc =
      (s.proc self).setPc pc := Scheduler.proc_setProc_self _ _ _
  by_cases hs : i.IsSend
  · obtain ⟨a, b, c, d, e, f, rfl⟩ := hs
    simp only [execInstr] at h
    obtain ⟨⟨after, events⟩, hsend, h⟩ := bind_eq_ok.mp h
    simp only [pure_ok, Except.ok.injEq, Prod.mk.injEq] at h
    refine ⟨⟨after, t ++ events⟩, h.2.symm, (Moves.quiet ready (quiet_setPc _ pc)).trans ?_⟩
    exact sendFrom_moves (by rw [Scheduler.proc_setProc_self]; exact ready) hsend
  · obtain ⟨p', events, hrun, rfl⟩ := execInstr_ok hal _ hs h
    rw [hproc] at hrun
    have hl := Instr.run_local hd hrun
    refine ⟨⟨s.setProc self (if rc = .ok then p' else p'.fail rc), t ++ events⟩, ?_,
      .single (.inl (.mk ready ?_))⟩
    · simp only [Machine.setProc, Context.setProc, Machine.emit, Scheduler.setProc_setProc]
      rfl
    · split
      · exact hl
      · exact hl.quiet (quiet_fail _ _) rfl

theorem mbProcStep_moves {self : Slot} {sys : System} {rc : Status} {m' : Machine}
    (ready : (sys.sched.proc self).state = .ready)
    (h : mbProcStep hal (sys.machine self) = .ok (rc, m')) :
    ∃ sys', m' = sys'.machine self ∧ Moves self sys sys' := by
  rw [mbProcStep_eq] at h
  split at h
  · simp only [Except.ok.injEq, Prod.mk.injEq] at h
    exact ⟨sys, h.2.symm, .refl⟩
  · split at h
    · simp only [Except.ok.injEq, Prod.mk.injEq] at h
      refine ⟨⟨_, sys.trace⟩, h.2.symm, ?_⟩
      exact Moves.quiet ready ((quiet_setPc _ _).trans (quiet_fail _ _))
    · rename_i i pc hd
      exact execInstr_moves ready hd h

theorem runRound_moves {self : Slot} {sys : System} {rc : Option Status} {m' : Machine}
    {maxSteps : ℕ} (ready : (sys.sched.proc self).state = .ready)
    (h : runRound hal maxSteps (sys.machine self) = .ok (rc, m')) :
    ∃ sys', m' = sys'.machine self ∧ Moves self sys sys' ∧
      (rc = none → (sys'.sched.proc self).state = .ready) := by
  unfold runRound at h
  split at h
  · simp only [Except.ok.injEq, Prod.mk.injEq] at h
    exact ⟨sys, h.2.symm, .refl, fun _ => ready⟩
  · obtain ⟨⟨rc', m⟩, hstep, h⟩ := bind_eq_ok.mp h
    obtain ⟨sys', rfl, hmoves⟩ := mbProcStep_moves ready hstep
    dsimp only at h
    split at h
    · simp only [pure_ok, Except.ok.injEq, Prod.mk.injEq] at h
      obtain ⟨rfl, rfl⟩ := h
      exact ⟨sys', rfl, hmoves, fun hn => by simp at hn⟩
    · split at h
      · simp only [pure_ok, Except.ok.injEq, Prod.mk.injEq] at h
        obtain ⟨rfl, rfl⟩ := h
        exact ⟨sys', rfl, hmoves, fun hn => by simp at hn⟩
      · rename_i hstate
        have hready : (sys'.sched.proc self).state = .ready :=
          not_not.mp fun hne => hstate ⟨rfl, hne⟩
        simp only [pure_ok, Except.ok.injEq, Prod.mk.injEq] at h
        obtain ⟨rfl, rfl⟩ := h
        refine ⟨⟨sys'.sched.setProc self { sys'.sched.proc self with
          reductions := (sys'.sched.proc self).reductions + 1 }, sys'.trace⟩, rfl,
          hmoves.trans (Moves.quiet hready (quiet_budget _ _)), fun _ => ?_⟩
        rw [Scheduler.proc_setProc_self]
        exact hready

theorem runLoop_moves {self : Slot} {sys : System} {rc : Status} {m' : Machine}
    {maxSteps fuel : ℕ} (ready : (sys.sched.proc self).state = .ready)
    (h : runLoop hal maxSteps fuel (sys.machine self) = .ok (rc, m')) :
    ∃ sys', m' = sys'.machine self ∧ Moves self sys sys' := by
  induction fuel generalizing sys with
  | zero => simp [runLoop] at h
  | succ fuel ih =>
      obtain ⟨⟨end?, m⟩, hround, h⟩ := bind_eq_ok.mp h
      obtain ⟨sys₁, rfl, hmoves, hnone⟩ := runRound_moves ready hround
      cases end? with
      | some rc' =>
          simp only [pure_ok, Except.ok.injEq, Prod.mk.injEq] at h
          exact ⟨sys₁, h.2.symm, hmoves⟩
      | none =>
          obtain ⟨sys', rfl, hrest⟩ := ih (hnone rfl) h
          exact ⟨sys', rfl, hmoves.trans hrest⟩

/-- The running process with its reduction counter at zero. -/
def System.startSlice (sys : System) (self : Slot) : System :=
  { sys with sched := sys.sched.setProc self { sys.sched.proc self with reductions := 0 } }

theorem mbProcRun_machine (sys : System) (self : Slot) (fuel maxSteps : ℕ) :
    mbProcRun hal fuel maxSteps (sys.machine self) =
      runLoop hal maxSteps fuel ((sys.startSlice self).machine self) := rfl

theorem startSlice_moves {sys : System} {self : Slot}
    (ready : (sys.sched.proc self).state = .ready) : Moves self sys (sys.startSlice self) :=
  Moves.quiet ready (quiet_budget _ _)

/-! ### What moves leave alone -/

theorem Moves.program {self : Slot} {sys sys' : System} (h : Moves self sys sys') (i : Slot) :
    (sys'.sched.proc i).program = (sys.sched.proc i).program := by
  induction h with
  | refl => rfl
  | tail _ hstep ih =>
      rw [← ih]
      rcases hstep with ⟨-, change⟩ | ⟨-, hd⟩
      · dsimp only
        rw [Scheduler.proc_setProc]
        split
        · rename_i hi
          rw [hi, change.program]
        · rfl
      · obtain ⟨mb, state, -, -, rfl⟩ := deliver_eq hd
        dsimp only
        rw [Scheduler.proc_setProc]
        split
        · rename_i hi
          rw [hi]
        · rfl

/-- The other entries change by pushes only, and the free ones not at all. -/
theorem Moves.other {self i : Slot} {sys sys' : System} (hne : i ≠ self)
    (h : Moves self sys sys') : ∃ mb state,
      sys'.sched.proc i = { sys.sched.proc i with mailbox := mb, state := state } ∧
      ((sys.sched.proc i).state = .free → state = .free) := by
  induction h with
  | refl => exact ⟨_, _, rfl, id⟩
  | tail _ hstep ih =>
      obtain ⟨mb, state, hproc, hfree⟩ := ih
      rcases hstep with ⟨-, -⟩ | ⟨hocc, hd⟩
      · refine ⟨mb, state, ?_, hfree⟩
        dsimp only
        rw [Scheduler.proc_setProc_ne _ _ hne]
        exact hproc
      · obtain ⟨mb', state', -, -, rfl⟩ := deliver_eq hd
        dsimp only at hproc hocc ⊢
        rw [Scheduler.proc_setProc]
        split
        · rename_i hi
          subst hi
          rw [hproc] at hocc ⊢
          exact ⟨mb', state', rfl, fun hf => absurd (hfree hf) hocc⟩
        · exact ⟨mb, state, hproc, hfree⟩

/-- What a `SEND` does to its own process: the result code in the register of the target
pid, and perhaps a message to itself. -/
theorem sendFrom_self {self : Slot} {s s' : Scheduler} {rPid rType rA rB rC rD : Reg}
    {events : List Event} (h : sendFrom s self rPid rType rA rB rC rD = .ok (s', events)) :
    ∃ mb state rc, s'.proc self = Process.setReg
      { s.proc self with mailbox := mb, state := state } rPid (makeSmallint (Status.code rc)) := by
  obtain ⟨found, -, h⟩ := bind_eq_ok.mp h
  cases found with
  | none =>
      cases h
      exact ⟨_, _, _, Scheduler.proc_setProc_self _ _ _⟩
  | some target =>
      obtain ⟨⟨rc, after⟩, hd, h⟩ := bind_eq_ok.mp h
      cases h
      obtain ⟨mb, state, -, -, rfl⟩ := deliver_eq hd
      by_cases hself : self = target
      · subst hself
        refine ⟨mb, state, rc, ?_⟩
        rw [answer, Scheduler.proc_setProc_self, Scheduler.proc_setProc_self]
      · refine ⟨(s.proc self).mailbox, (s.proc self).state, rc, ?_⟩
        rw [answer, Scheduler.proc_setProc_self, Scheduler.proc_setProc_ne _ _ hself]

end MiniBeam

import MiniBeam.Verification.Messages

/-! `SEND` is `mb_sched_send` to the pid that the low byte of its register names. -/

namespace MiniBeam

/-- The entry a pid names, if it names one. -/
theorem mbSchedProc_cases (s : Scheduler) (pid : Byte) :
    (mbSchedProc s pid = .ok none ∧
      ∀ i : Slot, pid.toNat = i.val + 1 → (s.proc i).state = .free) ∨
    ∃ i : Slot, pid.toNat = i.val + 1 ∧ (s.proc i).state ≠ .free ∧
      mbSchedProc s pid = .ok (some i) := by
  unfold mbSchedProc
  by_cases hout : pid = 0 ∨ pid.toNat > maxProcesses
  · refine .inl ⟨if_pos hout, fun i hi => ?_⟩
    have hlt : i.val < 8 := i.isLt
    rcases hout with rfl | hgt
    · cases hi
    · simp only [maxProcesses] at hgt
      omega
  · have hzero : pid.toNat ≠ 0 := fun hz => hout (.inl (BitVec.eq_of_toNat_eq hz))
    have hle : ¬ pid.toNat > maxProcesses := fun hgt => hout (.inr hgt)
    have hlt : pid.toNat - 1 < maxProcesses := by omega
    rw [if_neg hout, dif_pos hlt]
    by_cases hfree : (s.proc ⟨pid.toNat - 1, hlt⟩).state = .free
    · refine .inl ⟨if_pos hfree, fun i hi => ?_⟩
      obtain rfl : i = ⟨pid.toNat - 1, hlt⟩ := Fin.ext (by simp only []; omega)
      exact hfree
    · exact .inr ⟨⟨pid.toNat - 1, hlt⟩, by simp only []; omega, hfree, if_neg hfree⟩

section Send

variable {hal : Hal} {self : Slot} {sys sys' : System} {rc : Status}
  {rPid rType rA rB rC rD : Reg} {next : ℕ}

/-- What a `SEND` should do, from the state `sys` before it to `sys'`: with the pid of a process
it is `mb_sched_send`, and the register of the pid receives the result; with any other integer
the register receives `MB_BAD_PID`, and no mailbox and no state changes. -/
structure AddressesExactly (sender : Slot) (rPid : Reg) (cmd : Command) (next : ℕ)
    (sys sys' : System) : Prop where
  named : ∀ i : Slot, ((sys.sched.proc sender).int rPid).toInt = i.val + 1 →
    (sys.sched.proc i).state ≠ .free →
    ∃ code after, mbSchedSend (sys.fetched sender next) i.pid cmd = .ok (code, after) ∧
      sys' = ⟨answer after.sched sender rPid code, after.trace⟩
  other : (∀ i : Slot, ((sys.sched.proc sender).int rPid).toInt = i.val + 1 →
      (sys.sched.proc i).state = .free) →
    (sys'.sched.proc sender).reg rPid = makeSmallint Status.badPid.code ∧
    ∀ i, (sys'.sched.proc i).mailbox = (sys.sched.proc i).mailbox ∧
      (sys'.sched.proc i).state = (sys.sched.proc i).state

/-- The register holds a number from 1 to 8, or a number whose low byte names no process. -/
def PidFits (s : Scheduler) (v : I32) : Prop :=
  (1 ≤ v.toInt ∧ v.toInt ≤ 8) ∨ ∀ i : Slot, v.toInt % 256 = i.val + 1 → (s.proc i).state = .free

theorem setWidth_toNat (v : I32) : ((v.setWidth 8).toNat : ℤ) = v.toInt % 256 := by
  rw [BitVec.toNat_setWidth, BitVec.toInt_eq_toNat_bmod, Int.bmod_def]
  omega

theorem deliver_ne_badPid {s s' : Scheduler} {target : Slot} {cmd : Command} {code : Status}
    (h : deliver s target cmd = .ok (code, s')) : code ≠ .badPid := by
  obtain ⟨mb, state, hpush, -, -⟩ := deliver_eq h
  have hvalid : mbValidateCommand cmd ≠ .badPid := by
    unfold mbValidateCommand
    repeat' split
    all_goals decide
  rintro rfl
  unfold mbMailboxPushRaw at hpush
  dsimp only at hpush
  repeat' split at hpush
  all_goals simp_all

/-- A push is refused for its pid exactly when no process has it, and then it does nothing. -/
theorem mbSchedSend_badPid {dst : Byte} {cmd : Command}
    (h : mbSchedSend sys dst cmd = .ok (rc, sys')) :
    (rc = .badPid ↔ ∀ i : Slot, dst.toNat = i.val + 1 → (sys.sched.proc i).state = .free) ∧
      (rc = .badPid → sys' = sys) := by
  rcases mbSchedSend_cases h with ⟨hnone, rfl, rfl⟩ | ⟨target, after, hsome, hdeliver, -⟩
  · rcases mbSchedProc_cases sys'.sched dst with ⟨-, hfree⟩ | ⟨i, -, -, hi⟩
    · exact ⟨iff_of_true rfl hfree, fun _ => rfl⟩
    · cases hnone.symm.trans hi
  · have hne := deliver_ne_badPid hdeliver
    refine ⟨iff_of_false hne fun hfree => ?_, fun hbad => absurd hbad hne⟩
    rcases mbSchedProc_cases sys.sched dst with ⟨hnone, -⟩ | ⟨i, hi, hlive, -⟩
    · cases hnone.symm.trans hsome
    · exact hlive (hfree i hi)

/-- A `SEND` addresses exactly the process its register names if and only if the register fits
into a pid. -/
theorem send_addresses_iff (h : Dispatched hal self sys)
    (hd : decode (sys.sched.proc self).program (sys.sched.proc self).pc =
      (.ok (.send rPid rType rA rB rC rD), next))
    (hstep : mbProcStep hal (sys.machine self) = .ok (rc, sys'.machine self)) :
    AddressesExactly self rPid ((sys.sched.proc self).command rType rA rB rC rD) next sys sys' ↔
      PidFits sys.sched ((sys.sched.proc self).int rPid) := by
  obtain ⟨code, after, hsend, rfl⟩ := mbProcStep_send_eq h.running hd hstep
  have hfree : ∀ i, ((sys.fetched self next).sched.proc i).state = .free ↔
      (sys.sched.proc i).state = .free :=
    System.fetched_free h.ready
  have hbyte := setWidth_toNat ((sys.sched.proc self).int rPid)
  have hanswer := answer_reg after.sched self rPid code
  obtain ⟨hbad, hkeeps⟩ := mbSchedSend_badPid hsend
  constructor
  · intro hexact
    by_cases hin : 1 ≤ ((sys.sched.proc self).int rPid).toInt ∧
        ((sys.sched.proc self).int rPid).toInt ≤ 8
    · exact .inl hin
    · refine .inr fun i hi => by_contra fun hlive => ?_
      -- the low byte names a process, so the command goes there
      have hunnamed : ∀ j : Slot, ((sys.sched.proc self).int rPid).toInt = j.val + 1 →
          (sys.sched.proc j).state = .free := by
        intro j hj
        have hlt : j.val < 8 := j.isLt
        omega
      have hcode : code = .badPid :=
        Status.code_inj (hanswer.symm.trans (hexact.other hunnamed).1)
      exact hlive ((hfree i).mp (hbad.mp hcode i (by omega)))
  · intro hfits
    constructor
    · intro i hi hlive
      have hlt : i.val < 8 := i.isLt
      have hpid : ((sys.sched.proc self).int rPid).setWidth 8 = i.pid := by
        apply BitVec.eq_of_toNat_eq
        rw [Slot.pid_toNat]
        omega
      rw [hpid] at hsend
      exact ⟨code, after, hsend, rfl⟩
    · intro hunnamed
      have hcode : code = .badPid := by
        refine hbad.mpr fun j hj => (hfree j).mpr ?_
        have hlt : j.val < 8 := j.isLt
        rcases hfits with hin | halias
        · exact hunnamed j (by omega)
        · exact halias j (by omega)
      obtain rfl := hkeeps hcode
      subst hcode
      refine ⟨hanswer, fun i => ?_⟩
      simp only [answer, System.fetched, Scheduler.proc_setProc]
      by_cases hi : i = self
      · subst hi
        simp [Process.setReg, Process.setPc]
      · simp [hi]

end Send

/-- A `SEND` of a command of type `NONE` to the number 257, which is no pid. -/
def misaddressed : List Byte := [0x01, 0, 1, 1, 0, 0, 0x21, 0, 1, 2, 3, 4, 5]

theorem misaddressed_run :
    ∃ sys sys', Dispatched idleHal 0 sys ∧
      decode (sys.sched.proc 0).program (sys.sched.proc 0).pc = (.ok (.send 0 1 2 3 4 5), 13) ∧
      mbProcStep idleHal (sys.machine 0) = .ok (.ok, System.machine sys' 0) ∧
      (sys.sched.proc 0).int 0 = 257 ∧ (sys.sched.proc 0).state = .ready ∧
      (sys'.sched.proc 0).reg 0 = makeSmallint Status.ok.code ∧
      (sys'.sched.proc 0).mailbox.queue = [⟨0, 0, 0, 0, 0⟩] := by
  have hrun : (do
      let sys ← inSlice idleHal [.spawn misaddressed] 0 1
      let r ← mbProcStep idleHal (sys.machine 0)
      let sys' := r.2.system sys
      return decide (r.1 = .ok ∧ (sys.sched.proc 0).pc = 6 ∧
        (sys.sched.proc 0).program = misaddressed ∧ (sys.sched.proc 0).int 0 = 257 ∧
        (sys'.sched.proc 0).reg 0 = makeSmallint Status.ok.code ∧
        (sys'.sched.proc 0).mailbox.queue = [⟨0, 0, 0, 0, 0⟩])) = Except.ok true := by
    decide +kernel
  obtain ⟨sys, hsys, hrun⟩ := bind_eq_ok.mp hrun
  obtain ⟨⟨rc, m⟩, hstep, hrun⟩ := bind_eq_ok.mp hrun
  have hd := inSlice_dispatched hsys
  obtain ⟨sys', rfl, -⟩ := mbProcStep_moves hd.ready hstep
  obtain ⟨rfl, hpc, hprogram, hint, hreg, hqueue⟩ := of_decide_eq_true (Except.ok.inj hrun)
  refine ⟨sys, sys', hd, ?_, hstep, hint, hd.ready, hreg, hqueue⟩
  rw [hpc, hprogram]
  exact decode_middle [0x01, 0, 1, 1, 0, 0] [] (i := .send 0 1 2 3 4 5) trivial

theorem send_addresses_iff_misaddressed :
    ∃ sys sys', Dispatched idleHal 0 sys ∧
      mbProcStep idleHal (sys.machine 0) = .ok (.ok, System.machine sys' 0) ∧
      (AddressesExactly 0 0 ((sys.sched.proc 0).command 1 2 3 4 5) 13 sys sys' ↔
        PidFits sys.sched ((sys.sched.proc 0).int 0)) := by
  obtain ⟨sys, sys', hd, hdec, hstep, -⟩ := misaddressed_run
  exact ⟨sys, sys', hd, hstep, send_addresses_iff hd hdec hstep⟩

/-- The process sends to itself and reads `MB_OK`. -/
theorem send_to_257 :
    ∃ sys sys', Dispatched idleHal 0 sys ∧
      decode (sys.sched.proc 0).program (sys.sched.proc 0).pc = (.ok (.send 0 1 2 3 4 5), 13) ∧
      mbProcStep idleHal (sys.machine 0) = .ok (.ok, System.machine sys' 0) ∧
      (sys.sched.proc 0).int 0 = 257 ∧ (sys'.sched.proc 0).mailbox.queue = [⟨0, 0, 0, 0, 0⟩] ∧
      ¬ AddressesExactly 0 0 ((sys.sched.proc 0).command 1 2 3 4 5) 13 sys sys' := by
  obtain ⟨sys, sys', hd, hdec, hstep, hint, hready, hreg, hqueue⟩ := misaddressed_run
  refine ⟨sys, sys', hd, hdec, hstep, hint, hqueue, fun hexact => ?_⟩
  have hunnamed : ∀ i : Slot, ((sys.sched.proc 0).int 0).toInt = i.val + 1 →
      (sys.sched.proc i).state = .free := by
    intro i hi
    have h257 : (257 : I32).toInt = 257 := by decide
    have hlt : i.val < 8 := i.isLt
    rw [hint, h257] at hi
    omega
  exact absurd (Status.code_inj (hreg.symm.trans (hexact.other hunnamed).1)) (by decide)

end MiniBeam

import MiniBeam.Verification.Scheduler.Isolation
import MiniBeam.Verification.Step.Encode

/-! The state machine of a process: a halted process is never touched again, and a
waiting process wakes up exactly at the receive it blocked on. -/

namespace MiniBeam

/-! ### A complete receive -/

/-- The six bytes of a `RECV_CMD` with valid registers stand at the pc. -/
def Process.RecvBytes (p : Process) : Prop :=
  p.program[p.pc]? = some 0x20 ∧
    ∀ k, 1 ≤ k → k ≤ 5 → ∃ b, p.program[p.pc + k]? = some b ∧ b.toNat < regCount

theorem Opcode.ofCode?_recvCmd {b : Byte} (h : Opcode.ofCode? b = some .recvCmd) : b = 0x20 := by
  unfold Opcode.ofCode? at h
  split at h <;> simp_all
  rename_i hb
  exact BitVec.eq_of_toNat_eq hb

theorem Process.AtRecv.bytes {p : Process} (h : p.AtRecv) : p.RecvBytes := by
  obtain ⟨t, a, b, c, d, pc, h⟩ := h
  obtain ⟨op, hop, hcode, h⟩ := decode_opcode h
  refine ⟨by rw [hop, Opcode.ofCode?_recvCmd hcode], ?_⟩
  simp only [Instr.opcode, operands] at h
  obtain ⟨b₁, _, u₁, h⟩ := Decoder.bind_ok h
  obtain ⟨h₁, rfl⟩ := Decoder.u8_ok u₁
  obtain ⟨b₂, _, u₂, h⟩ := Decoder.bind_ok h
  obtain ⟨h₂, rfl⟩ := Decoder.u8_ok u₂
  obtain ⟨b₃, _, u₃, h⟩ := Decoder.bind_ok h
  obtain ⟨h₃, rfl⟩ := Decoder.u8_ok u₃
  obtain ⟨b₄, _, u₄, h⟩ := Decoder.bind_ok h
  obtain ⟨h₄, rfl⟩ := Decoder.u8_ok u₄
  obtain ⟨b₅, _, u₅, h⟩ := Decoder.bind_ok h
  obtain ⟨h₅, rfl⟩ := Decoder.u8_ok u₅
  obtain ⟨_, _, r₁, h⟩ := Decoder.bind_ok h
  obtain ⟨_, _, r₂, h⟩ := Decoder.bind_ok h
  obtain ⟨_, _, r₃, h⟩ := Decoder.bind_ok h
  obtain ⟨_, _, r₄, h⟩ := Decoder.bind_ok h
  obtain ⟨_, _, r₅, h⟩ := Decoder.bind_ok h
  intro k hk hk'
  obtain rfl | rfl | rfl | rfl | rfl : k = 1 ∨ k = 2 ∨ k = 3 ∨ k = 4 ∨ k = 5 := by omega
  · exact ⟨b₁, h₁, (Decoder.toReg_ok r₁).1⟩
  · exact ⟨b₂, h₂, (Decoder.toReg_ok r₂).1⟩
  · exact ⟨b₃, h₃, (Decoder.toReg_ok r₃).1⟩
  · exact ⟨b₄, h₄, (Decoder.toReg_ok r₄).1⟩
  · exact ⟨b₅, h₅, (Decoder.toReg_ok r₅).1⟩

/-! ### Halted processes -/

/-- What a halted process keeps. -/
structure Settled (p p' : Process) : Prop where
  state : p'.state = .halted
  regs : p'.regs = p.regs
  pc : p'.pc = p.pc
  heap : p'.heap = p.heap

theorem Settled.trans {p q r : Process} (h : Settled p q) (h' : Settled q r) : Settled p r :=
  ⟨h'.state, h'.regs.trans h.regs, h'.pc.trans h.pc, h'.heap.trans h.heap⟩

/-- An entry a slice frames stays halted, with all it keeps. -/
theorem Frame.settled {i : Slot} {q q' : Process} {t : Trace} (h : Frame i q q' t)
    (hq : q.state = .halted) : Settled q q' := by
  have hs := h.same
  refine ⟨?_, by rw [hs], by rw [hs], by rw [hs]⟩
  rcases h.state with he | ⟨hw, -, -⟩
  · rw [he, hq]
  · rw [hq] at hw
    cases hw

section Halted

variable {hal : Hal} {i : Slot}

theorem mbSchedPick_halted {sys sys₁ : System} {found : Option Slot}
    (hi : (sys.sched.proc i).state = .halted)
    (h : mbSchedPick hal sys = .ok (found, sys₁)) :
    sys₁.sched.proc i = sys.sched.proc i ∧ found ≠ some i := by
  have hproc := mbSchedPick_proc h i
  rw [wake, if_neg (by simp [hi])] at hproc
  refine ⟨hproc, fun hf => ?_⟩
  subst hf
  have hr := mbSchedPick_ready h
  rw [hproc, hi] at hr
  cases hr

theorem runCall_halted {sys sys' : System} {c : Call} (hinv : Table sys ∧ Ledgers sys)
    (hi : (sys.sched.proc i).state = .halted) (h : runCall hal sys c = .ok sys') :
    Settled (sys.sched.proc i) (sys'.sched.proc i) := by
  have hwake : wake (hal sys.trace .monotonicMs).ms (sys.sched.proc i) = sys.sched.proc i := by
    rw [wake, if_neg (by simp [hi])]
  obtain ⟨events, -, hframe⟩ := runCall_frame hinv (by simp [hi]) (fun _ => hwake)
    (fun _ sys₁ hpick => (mbSchedPick_halted hi hpick).2 rfl) h
  exact hframe.settled hi

theorem runCalls_halted {sys sys' : System} {cs : List Call} (hinv : Table sys ∧ Ledgers sys)
    (hi : (sys.sched.proc i).state = .halted) (h : runCalls hal sys cs = .ok sys') :
    Settled (sys.sched.proc i) (sys'.sched.proc i) := by
  induction cs generalizing sys with
  | nil =>
      simp only [runCalls, Except.ok.injEq] at h
      subst h
      exact ⟨hi, rfl, rfl, rfl⟩
  | cons c cs ih =>
      obtain ⟨sys₁, hfirst, hrest⟩ := bind_eq_ok.mp h
      have hs := runCall_halted hinv hi hfirst
      exact hs.trans (ih (ledgers_invariant.call hfirst hinv) hs.state hrest)

end Halted

/-! ### Waiting processes -/

/-- The calls `cs` from `sys` on never dispatch entry `i`. -/
def NotDispatched (hal : Hal) (i : Slot) (sys : System) : List Call → Prop
  | [] => True
  | c :: cs => (c = .tick → ∀ sys₁, mbSchedPick hal sys ≠ .ok (some i, sys₁)) ∧
      ∀ sys₁, runCall hal sys c = .ok sys₁ → NotDispatched hal i sys₁ cs

/-- A process that blocked and has not run since. -/
structure Parked (p p' : Process) : Prop where
  program : p'.program = p.program
  pc : p'.pc = p.pc
  state : p'.state = .waiting ∨ (p'.state = .ready ∧ p'.mailbox.queue ≠ [])

theorem Parked.atRecv {p p' : Process} (h : Parked p p') (hp : p.AtRecv) : p'.AtRecv := by
  simpa only [Process.AtRecv, h.program, h.pc] using hp

/-- Framed by another slice, a parked process stays parked. -/
theorem Parked.frame {i : Slot} {p q q' : Process} {t : Trace} (h : Parked p q)
    (hf : Frame i q q' t) : Parked p q' := by
  have hs := hf.same
  refine ⟨?_, ?_, ?_⟩
  · rw [hs]
    exact h.program
  · rw [hs]
    exact h.pc
  · rcases h.state with hw | ⟨hr, hne⟩
    · rcases hf.state with he | ⟨-, hr, hd⟩
      · exact .inl (he.trans hw)
      · refine .inr ⟨hr, ?_⟩
        rw [hf.queue]
        simp [hd]
    · rcases hf.state with he | ⟨hw, -, -⟩
      · refine .inr ⟨he.trans hr, ?_⟩
        rw [hf.queue]
        simp [hne]
      · rw [hr] at hw
        cases hw

theorem Parked.awake {p q : Process} (h : Parked p q) : q.state ≠ .free ∧ q.state ≠ .sleeping := by
  rcases h.state with hs | ⟨hs, -⟩ <;> simp [hs]

section Waiting

variable {hal : Hal} {i : Slot}

/-- The choice of a process does not change a parked one. -/
theorem Parked.picked {p : Process} {sys sys₁ : System} {found : Option Slot}
    (hi : Parked p (sys.sched.proc i)) (h : mbSchedPick hal sys = .ok (found, sys₁)) :
    sys₁.sched.proc i = sys.sched.proc i := by
  rw [mbSchedPick_proc h i, wake, if_neg (by simp [hi.awake.2])]

theorem runCall_parked {p : Process} {sys sys' : System} {c : Call}
    (hinv : Table sys ∧ Ledgers sys) (hi : Parked p (sys.sched.proc i))
    (hn : c = .tick → ∀ sys₁, mbSchedPick hal sys ≠ .ok (some i, sys₁))
    (h : runCall hal sys c = .ok sys') : Parked p (sys'.sched.proc i) := by
  have hwake : wake (hal sys.trace .monotonicMs).ms (sys.sched.proc i) = sys.sched.proc i := by
    rw [wake, if_neg (by simp [hi.awake.2])]
  obtain ⟨events, -, hframe⟩ := runCall_frame hinv hi.awake.1 (fun _ => hwake) hn h
  exact hi.frame hframe

theorem runCalls_parked {p : Process} {sys sys' : System} {cs : List Call}
    (hinv : Table sys ∧ Ledgers sys) (hi : Parked p (sys.sched.proc i))
    (hn : NotDispatched hal i sys cs) (h : runCalls hal sys cs = .ok sys') :
    Parked p (sys'.sched.proc i) := by
  induction cs generalizing sys with
  | nil =>
      simp only [runCalls, Except.ok.injEq] at h
      exact h ▸ hi
  | cons c cs ih =>
      obtain ⟨sys₁, hfirst, hrest⟩ := bind_eq_ok.mp h
      exact ih (ledgers_invariant.call hfirst hinv) (runCall_parked hinv hi hn.1 hfirst)
        (hn.2 sys₁ hfirst) hrest

end Waiting

/-- The state machine of the scheduler, in every state of every run. -/
theorem scheduler_state_machine {hal : Hal} {sys : System} (h : Reached hal sys) :
    (∀ i, (sys.sched.proc i).state ≠ .free → (sys.sched.proc i).pid.toNat = i.val + 1) ∧
    sys.sched.count = (Finset.univ.filter fun i => (sys.sched.proc i).state ≠ .free).card ∧
    sys.sched.current < maxProcesses ∧
    (∀ i, (sys.sched.proc i).halted = true ↔ (sys.sched.proc i).state = .halted) ∧
    (∀ i, (sys.sched.proc i).state = .halted →
      (∀ sys₁, mbSchedPick hal sys ≠ .ok (some i, sys₁)) ∧ ¬ Dispatched hal i sys ∧
      (∀ calls sys', runCalls hal sys calls = .ok sys' →
        Settled (sys.sched.proc i) (sys'.sched.proc i)) ∧
      (∀ self fuel rc (sys' : System), Dispatched hal self sys →
        runLoop hal maxReductions fuel (sys.machine self) = .ok (rc, sys'.machine self) →
        Settled (sys.sched.proc i) (sys'.sched.proc i))) ∧
    (∀ i, (sys.sched.proc i).state = .waiting →
      (sys.sched.proc i).mailbox.queue = [] ∧ (sys.sched.proc i).RecvBytes ∧
      ∀ calls sys', NotDispatched hal i sys calls → runCalls hal sys calls = .ok sys' →
        Parked (sys.sched.proc i) (sys'.sched.proc i) ∧ (sys'.sched.proc i).AtRecv ∧
        ∀ sys₁, mbSchedPick hal sys' = .ok (some i, sys₁) →
          sys₁.sched.proc i = sys'.sched.proc i) := by
  have hinv := ledgers_invariant.reached h
  have hentry := hinv.1.entry
  refine ⟨fun i hi => ?_, hinv.1.count, hinv.1.current, fun i => (hentry i).halted,
    fun i hi => ⟨fun sys₁ hpick => ?_, fun hd => ?_, fun calls sys' hrun => ?_,
      fun self fuel rc sys' hd hrun => ?_⟩,
    fun i hi => ⟨?_, ?_, fun calls sys' hn hrun => ?_⟩⟩
  · rw [(hentry i).pid hi, Slot.pid_toNat]
  · exact (mbSchedPick_halted hi hpick).2 rfl
  · rw [hd.ready] at hi
    cases hi
  · exact runCalls_halted hinv hi hrun
  · have hne : i ≠ self := by
      rintro rfl
      rw [hd.ready] at hi
      cases hi
    obtain ⟨sys₂, hm, hmoves⟩ := runLoop_moves hd.ready hrun
    rw [System.machine_inj.mp hm]
    obtain ⟨events, -, hf⟩ := Moves.frame hinv hne hmoves
    exact hf.settled hi
  · have hempty := ((hentry i).blocked hi).empty
    obtain ⟨q, hq⟩ := hinv.2 i
    have href := Mailbox.pop_refines hq.holds
    split at href
    · rename_i hp
      rw [hq.holds.queue_eq]
      exact (Inbox.pop_none_iff q).mp hp
    · obtain ⟨mb', hmb, -⟩ := href
      simp [hmb] at hempty
  · exact ((hentry i).blocked hi).recv.bytes
  · have hp : Parked (sys.sched.proc i) (sys'.sched.proc i) :=
      runCalls_parked hinv ⟨rfl, rfl, .inl hi⟩ hn hrun
    exact ⟨hp, hp.atRecv ((hentry i).blocked hi).recv, fun sys₁ hpick => hp.picked hpick⟩

theorem scheduler_state_machine_receiver :
    ∃ sys, runCalls idleHal System.init [.spawn receiver, .spawn [0xFF], .tick, .tick] = .ok sys ∧
      (sys.sched.proc 0).state = .waiting ∧ (sys.sched.proc 0).RecvBytes ∧
      (sys.sched.proc 1).state = .halted ∧
        ∀ sys₁, mbSchedPick idleHal sys ≠ .ok (some 1, sys₁) := by
  obtain ⟨sys, h, hs⟩ := exists_ok_of_map
    (runCalls idleHal System.init [.spawn receiver, .spawn [0xFF], .tick, .tick])
    (fun sys => ((sys.sched.proc 0).state, (sys.sched.proc 1).state)) (.waiting, .halted)
    (by decide +kernel)
  obtain ⟨h0, h1⟩ := Prod.mk.inj hs
  obtain ⟨-, -, -, -, hhalted, hwaiting⟩ := scheduler_state_machine (.inl ⟨_, h⟩)
  exact ⟨sys, h, h0, (hwaiting 0 h0).2.1, h1, (hhalted 1 h1).1⟩

end MiniBeam

import MiniBeam.Library.LapClock
import MiniBeam.Verification.Scheduler.Isolation
import MiniBeam.Verification.Step.Encode

/-! Sleep deadlines under a clock of which the HAL reports the low 32 bits. -/

namespace MiniBeam

open LapClock (reading lap)

/-- The period of a `uint32_t` clock. -/
abbrev clockPeriod : ℕ := 2 ^ 32

/-- The HAL reports the low 32 bits of a count of milliseconds that does not go back. -/
structure TrueTime (hal : Hal) (clock : Trace → ℕ) : Prop where
  reads : ∀ t, (hal t .monotonicMs).ms = BitVec.ofNat 32 (clock t)
  mono : ∀ t u, clock t ≤ clock (t ++ u)

/-- The process in slot `i` executes the `SLEEP_MS` that ends its slice. -/
structure FallsAsleep (hal : Hal) (i : Slot) (r : Reg) (sys sys' : System) : Prop where
  dispatched : Dispatched hal i sys
  budget : (sys.sched.proc i).reductions < maxReductions
  decoded : ∃ next, decode (sys.sched.proc i).program (sys.sched.proc i).pc =
    (.ok (.sleepMs r), next)
  round : runRound hal maxReductions (sys.machine i) = .ok (some .ok, sys'.machine i)

/-- The states between two calls since the process in slot `i` fell asleep in `sys₀`, as long
as no wake-up pass has woken it. -/
inductive Asleep (hal : Hal) (i : Slot) (r : Reg) (sys₀ : System) : System → Prop
  | falls {sys : System} (h : FallsAsleep hal i r sys₀ sys) : Asleep hal i r sys₀ sys
  | stays {sys sys' : System} {c : Call} (before : Asleep hal i r sys₀ sys)
      (still : c = .tick → ((mbSchedWakeSleepers hal sys).sched.proc i).state = .sleeping)
      (call : runCall hal sys c = .ok sys') : Asleep hal i r sys₀ sys'

/-- What a sleeping process keeps until it is woken. -/
structure Sleeping (hal : Hal) (i : Slot) (r : Reg) (sys₀ sys : System) : Prop where
  invariants : Table sys ∧ Ledgers sys
  state : (sys.sched.proc i).state = .sleeping
  deadline : (sys.sched.proc i).sleepUntilMs =
    (hal sys₀.trace .monotonicMs).ms + (sys₀.sched.proc i).int r
  later : sys₀.trace <+: sys.trace

section Sleep

variable {hal : Hal} {clock : Trace → ℕ} {i : Slot} {r : Reg} {sys₀ sys sys' : System}

/-- The state that a `SLEEP_MS` leaves behind. -/
def System.asleep (hal : Hal) (sys : System) (i : Slot) (r : Reg) (next : ℕ) : System :=
  ⟨sys.sched.setProc i { (sys.sched.proc i).setPc next with
      sleepUntilMs := (hal sys.trace .monotonicMs).ms + (sys.sched.proc i).int r
      state := .sleeping },
    sys.trace ++ [.hal (sys.sched.proc i).pid .monotonicMs (hal sys.trace .monotonicMs)]⟩

theorem mbProcStep_sleepMs {next : ℕ} (hh : (sys.sched.proc i).halted = false)
    (hd : decode (sys.sched.proc i).program (sys.sched.proc i).pc = (.ok (.sleepMs r), next)) :
    mbProcStep hal (sys.machine i) = .ok (.ok, (sys.asleep hal i r next).machine i) := by
  have hproc : (sys.machine i).proc = sys.sched.proc i := rfl
  have hsend : ¬ (Instr.sleepMs r).IsSend := Instr.not_isSend nofun
  rw [mbProcStep_exec hal (hproc ▸ hh) (hproc ▸ hd), execInstr_run hal _ hsend,
    Machine.proc_setProc, hproc]
  change Except.ok (Status.ok, Machine.mk (.sched ((sys.sched.setProc i
    ((sys.sched.proc i).setPc next)).setProc i _) i) _) = _
  rw [Scheduler.setProc_setProc]
  rfl

theorem FallsAsleep.system_eq (h : FallsAsleep hal i r sys₀ sys) :
    ∃ next, sys = sys₀.asleep hal i r next := by
  obtain ⟨next, hd⟩ := h.decoded
  refine ⟨next, ?_⟩
  have hgo : ¬ ((sys₀.machine i).proc.halted = true ∨
      (sys₀.machine i).proc.reductions ≥ maxReductions) := by
    rintro (hhalted | hlimit)
    · exact absurd (h.dispatched.running.symm.trans hhalted) (by decide)
    · exact absurd hlimit (Nat.not_le.mpr h.budget)
  have hasleep : ((sys₀.asleep hal i r next).machine i).proc.state ≠ .ready := by
    change ((sys₀.sched.setProc i _).proc i).state ≠ _
    rw [Scheduler.proc_setProc_self]
    exact fun hs => by cases hs
  have hround := h.round
  rw [runRound, if_neg hgo, mbProcStep_sleepMs h.dispatched.running hd, ok_bind] at hround
  dsimp only at hround
  rw [if_neg (by decide), if_pos ⟨rfl, hasleep⟩] at hround
  exact (System.machine_inj.mp (Prod.mk.inj (Except.ok.inj hround)).2).symm

theorem FallsAsleep.sleeping (h : FallsAsleep hal i r sys₀ sys) :
    Sleeping hal i r sys₀ sys := by
  have hinv := ledgers_invariant.dispatched h.dispatched
  obtain ⟨sys', hm, hmoves, -⟩ := runRound_moves h.dispatched.ready h.round
  have hinv' : Table sys ∧ Ledgers sys := by
    rw [System.machine_inj.mp hm]
    exact ledgers_invariant.moves hmoves hinv
  obtain ⟨next, rfl⟩ := h.system_eq
  refine ⟨hinv', ?_, ?_, List.prefix_append _ _⟩
  · rw [System.asleep, Scheduler.proc_setProc_self]
  · rw [System.asleep, Scheduler.proc_setProc_self]

/-- A call in whose wake-up pass the process is not woken leaves it asleep. -/
theorem Sleeping.call {c : Call} (h : Sleeping hal i r sys₀ sys)
    (still : c = .tick → ((mbSchedWakeSleepers hal sys).sched.proc i).state = .sleeping)
    (hc : runCall hal sys c = .ok sys') : Sleeping hal i r sys₀ sys' := by
  have hwake : c = .tick →
      wake (hal sys.trace .monotonicMs).ms (sys.sched.proc i) = sys.sched.proc i := by
    intro htick
    have hstill := still htick
    rw [proc_wakeSleepers] at hstill
    rcases wake_cases (hal sys.trace .monotonicMs).ms (sys.sched.proc i) with hw | ⟨-, hw⟩
    · exact hw
    · rw [hw] at hstill
      cases hstill
  have hpicked : c = .tick → ∀ sys₁, mbSchedPick hal sys ≠ .ok (some i, sys₁) := by
    intro htick sys₁ hpick
    have hready := mbSchedPick_ready hpick
    rw [mbSchedPick_proc hpick i, hwake htick, h.state] at hready
    cases hready
  obtain ⟨events, htrace, hframe⟩ := runCall_frame h.invariants (by simp [h.state]) hwake hpicked hc
  have hsame := hframe.same
  refine ⟨ledgers_invariant.call hc h.invariants, ?_, ?_, ?_⟩
  · rcases hframe.state with hs | ⟨hwaiting, -, -⟩
    · exact hs.trans h.state
    · rw [h.state] at hwaiting
      cases hwaiting
  · rw [hsame]
    exact h.deadline
  · rw [htrace]
    exact h.later.trans (List.prefix_append _ _)

theorem Asleep.sleeping (h : Asleep hal i r sys₀ sys) : Sleeping hal i r sys₀ sys := by
  induction h with
  | falls h => exact h.sleeping
  | stays _ still call ih => exact ih.call still call

/-- The wake-up pass compares the readings of the deadline and of the clock. -/
theorem Sleeping.wakes_iff {d : ℕ} (ht : TrueTime hal clock) (h : Sleeping hal i r sys₀ sys)
    (hd : ((sys₀.sched.proc i).int r).toInt = d) :
    ((mbSchedWakeSleepers hal sys).sched.proc i).state = .ready ↔
      reading clockPeriod (clock sys₀.trace + d) ≤ reading clockPeriod (clock sys.trace) := by
  have hdelay : ((sys₀.sched.proc i).int r).toNat = d := by
    rw [BitVec.toInt_eq_toNat_cond] at hd
    split at hd <;> omega
  have hdeadline : (sys.sched.proc i).sleepUntilMs.toNat =
      reading clockPeriod (clock sys₀.trace + d) := by
    rw [h.deadline, ht.reads, BitVec.toNat_add, BitVec.toNat_ofNat, hdelay]
    exact LapClock.reading_add clockPeriod _ d
  have hnow : (hal sys.trace .monotonicMs).ms.toNat = reading clockPeriod (clock sys.trace) := by
    rw [ht.reads, BitVec.toNat_ofNat]
    rfl
  rw [proc_wakeSleepers, wake, ← hdeadline, ← hnow, ← BitVec.le_def]
  by_cases hdue : (sys.sched.proc i).sleepUntilMs ≤ (hal sys.trace .monotonicMs).ms
  · simp [h.state, hdue]
  · simp [h.state, hdue]

/-- A process that fell asleep for `d` milliseconds is woken by the pass at a time less than
`2 ^ 31` milliseconds later if and only if `d` milliseconds have passed, exactly when the
deadline and the pass fall in the same lap of the 32-bit clock. -/
theorem sleep_exact_iff {d : ℕ} (ht : TrueTime hal clock) (h : Asleep hal i r sys₀ sys)
    (hd : ((sys₀.sched.proc i).int r).toInt = d)
    (hwindow : clock sys.trace - clock sys₀.trace < 2 ^ 31) :
    (((mbSchedWakeSleepers hal sys).sched.proc i).state = .ready ↔
        d ≤ clock sys.trace - clock sys₀.trace) ↔
      lap clockPeriod (clock sys₀.trace + d) = lap clockPeriod (clock sys.trace) := by
  have hsleeping := h.sleeping
  obtain ⟨events, htrace⟩ := hsleeping.later
  have hmono := ht.mono sys₀.trace events
  rw [htrace] at hmono
  have hsmall : d < 2 ^ 31 := by
    have hlt := BitVec.toInt_lt (x := (sys₀.sched.proc i).int r)
    rw [hd] at hlt
    omega
  have hdue : d ≤ clock sys.trace - clock sys₀.trace ↔
      clock sys₀.trace + d ≤ clock sys.trace := by omega
  rw [hsleeping.wakes_iff ht hd, hdue]
  apply LapClock.reading_le_iff_iff
  · simp only [clockPeriod]
    omega
  · simp only [clockPeriod]
    omega

end Sleep

/-- A time 16 milliseconds before the clock starts again, and one 100 milliseconds after it. -/
def lateClock (t : Trace) : ℕ := if t.length < 2 then 2 ^ 32 - 16 else 2 ^ 32 + 100

def lateHal : Hal := fun t _ => ⟨0, 0, BitVec.ofNat 32 (lateClock t)⟩

theorem lateHal_trueTime : TrueTime lateHal lateClock where
  reads _ := rfl
  mono t u := by
    simp only [lateClock, List.length_append]
    split <;> split <;> omega

/-- The constant 10 in register 0, and a `SLEEP_MS` of it. -/
def sleepTen : List Byte := [0x01, 0, 10, 0, 0, 0, 0x40, 0]

theorem sleepTen_run :
    ∃ sys₀ sys, FallsAsleep lateHal 0 0 sys₀ sys ∧
      ((sys₀.sched.proc 0).int 0).toInt = (10 : ℕ) ∧ lateClock sys₀.trace = 2 ^ 32 - 16 ∧
      lateClock sys.trace = 2 ^ 32 + 100 ∧
      ((mbSchedWakeSleepers lateHal sys).sched.proc 0).state = .sleeping := by
  have hrun : (do
      let sys₀ ← inSlice lateHal [.spawn sleepTen] 0 1
      let (rc, m) ← runRound lateHal maxReductions (sys₀.machine 0)
      let sys := m.system sys₀
      return decide (rc = some .ok ∧ (sys₀.sched.proc 0).reductions = 1 ∧
        (sys₀.sched.proc 0).pc = 6 ∧ (sys₀.sched.proc 0).program = sleepTen ∧
        ((sys₀.sched.proc 0).int 0).toInt = (10 : ℕ) ∧ lateClock sys₀.trace = 2 ^ 32 - 16 ∧
        lateClock sys.trace = 2 ^ 32 + 100 ∧
        ((mbSchedWakeSleepers lateHal sys).sched.proc 0).state = .sleeping)) = Except.ok true := by
    decide +kernel
  obtain ⟨sys₀, hsys, hrun⟩ := bind_eq_ok.mp hrun
  obtain ⟨⟨rc, m⟩, hround, hrun⟩ := bind_eq_ok.mp hrun
  have hd := inSlice_dispatched hsys
  obtain ⟨sys, rfl, -⟩ := runRound_moves hd.ready hround
  obtain ⟨rfl, hbudget, hpc, hprogram, hint, hclock₀, hclock, hstate⟩ :=
    of_decide_eq_true (Except.ok.inj hrun)
  refine ⟨sys₀, sys, ⟨hd, ?_, ⟨8, ?_⟩, hround⟩, hint, hclock₀, hclock, hstate⟩
  · rw [hbudget]
    decide
  · rw [hpc, hprogram]
    exact decode_middle [0x01, 0, 10, 0, 0, 0] [] (i := .sleepMs 0) trivial

theorem sleep_exact_iff_sleepTen :
    ∃ sys₀ sys, Asleep lateHal 0 0 sys₀ sys ∧
      ((((mbSchedWakeSleepers lateHal sys).sched.proc 0).state = .ready ↔
          10 ≤ lateClock sys.trace - lateClock sys₀.trace) ↔
        lap clockPeriod (lateClock sys₀.trace + 10) = lap clockPeriod (lateClock sys.trace)) := by
  obtain ⟨sys₀, sys, hfalls, hint, hclock₀, hclock, -⟩ := sleepTen_run
  refine ⟨sys₀, sys, .falls hfalls,
    sleep_exact_iff lateHal_trueTime (.falls hfalls) hint ?_⟩
  rw [hclock₀, hclock]
  decide

/-- 116 milliseconds after it fell asleep for 10, the process is not woken. -/
theorem left_asleep :
    TrueTime lateHal lateClock ∧ ∃ sys₀ sys, Asleep lateHal 0 0 sys₀ sys ∧
      ((sys₀.sched.proc 0).int 0).toInt = (10 : ℕ) ∧
      lateClock sys.trace - lateClock sys₀.trace < 2 ^ 31 ∧
      10 ≤ lateClock sys.trace - lateClock sys₀.trace ∧
      ((mbSchedWakeSleepers lateHal sys).sched.proc 0).state ≠ .ready := by
  obtain ⟨sys₀, sys, hfalls, hint, hclock₀, hclock, hstate⟩ := sleepTen_run
  refine ⟨lateHal_trueTime, sys₀, sys, .falls hfalls, hint, ?_, ?_, ?_⟩
  · rw [hclock₀, hclock]
    decide
  · rw [hclock₀, hclock]
    decide
  · rw [hstate]
    decide

end MiniBeam

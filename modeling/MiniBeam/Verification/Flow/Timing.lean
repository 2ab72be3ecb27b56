import MiniBeam.Library.Separation
import MiniBeam.Verification.Flow.Order
import MiniBeam.Verification.Flow.Poll
import MiniBeam.Verification.Scheduler.Fairness

/-! Deployed flows in time: which state each process is in, and what lies between two reads
of a sensor that sleeps. -/

namespace MiniBeam

open Separation (Separated Due)

/-! ### Flows as runs -/

section Runs

variable {hal : Hal} {sensors : List (List Byte)} {actuator : List Byte} {sys : System}

theorem runCalls_spawn (hal : Hal) (sched : Scheduler) (t : Trace) (programs : List (List Byte)) :
    runCalls hal ⟨sched, t⟩ (programs.map .spawn) =
      .ok ⟨programs.foldl (fun sched p => (mbSchedSpawn sched p).2) sched, t⟩ := by
  induction programs generalizing sched with
  | nil => rfl
  | cons p programs ih => exact ih _

/-- The deployment is a run of spawns. -/
theorem FlowRuns.runs (h : FlowRuns hal sensors actuator sys) : Runs hal sys := by
  induction h with
  | deployed =>
      refine ⟨(sensors ++ [actuator]).map .spawn, ?_⟩
      rw [System.init, runCalls_spawn, List.foldl_append]
      rfl
  | @tick sys sys' rc _ htick ih =>
      refine ih.call (c := .tick) ?_
      rw [runCall, htick]
      rfl

theorem FlowDispatched.dispatched {self : Slot} (h : FlowDispatched hal sensors actuator self sys) :
    Dispatched hal self sys := by
  induction h with
  | start run pick => exact .start run.runs pick
  | next _ round ih => exact .next ih round

end Runs

/-- The rounds of a slice, to the one that ends it. -/
inductive FlowSlice (hal : Hal) (f : FlowSpec) (self : Slot) : FlowState → FlowState → Prop
  | stop {a a' : FlowState} (round : FlowStep hal f self a true a') : FlowSlice hal f self a a'
  | more {a a₁ a' : FlowState} (round : FlowStep hal f self a false a₁)
      (rest : FlowSlice hal f self a₁ a') : FlowSlice hal f self a a'

/-- A tick, with the process it dispatches. -/
inductive FlowTick (hal : Hal) (f : FlowSpec) (a : FlowState) : Option Slot → FlowState → Prop
  | idle : FlowTick hal f a none (a.wake hal)
  | slice {self : Slot} {a' : FlowState}
      (slice : FlowSlice hal f self ((a.wake hal).setBudget 0) a') : FlowTick hal f a (some self) a'

theorem FlowSlice.reach {hal : Hal} {f : FlowSpec} {self : Slot} {a a' : FlowState}
    (h : FlowSlice hal f self a a') (hreach : FlowReach hal f (some self) a) :
    FlowReach hal f none a' := by
  induction h with
  | stop round => exact .stop hreach round
  | more round _ ih => exact ih (.step hreach round)

theorem FlowTick.reach {hal : Hal} {f : FlowSpec} {found : Option Slot} {a a' : FlowState}
    (h : FlowTick hal f a found a') (hreach : FlowReach hal f none a) :
    FlowReach hal f none a' := by
  cases h with
  | idle => exact .idle hreach
  | slice slice => exact slice.reach (.pick _ hreach)

/-! ### Reads and waits -/

/-- A read of one process. -/
def Event.Reads (pid : Byte) (e : Event) : Prop :=
  ∃ bus addr reg reply, e = .hal pid (.i2cReadReg bus addr reg) reply

/-- The process looked at the clock, and later the scheduler found the delay over. -/
def Waited (pid : Byte) (delay : BitVec 32) (t : Trace) : Prop :=
  ∃ t₁ reply t₂ reply' t₃,
    t = t₁ ++ .hal pid .monotonicMs reply :: (t₂ ++ .hal 0 .monotonicMs reply' :: t₃) ∧
      reply.ms + delay ≤ reply'.ms

/-- The process looked at the clock for this deadline, and has read nothing since. -/
def Slept (pid : Byte) (delay deadline : BitVec 32) (t : Trace) : Prop :=
  ∃ t₁ reply t₂, t = t₁ ++ .hal pid .monotonicMs reply :: t₂ ∧ deadline = reply.ms + delay ∧
    ∀ e ∈ t₂, ¬ e.Reads pid

section Waits

variable {pid : Byte} {delay deadline : BitVec 32} {t events : Trace}

theorem Waited.append (h : Waited pid delay t) (u : Trace) : Waited pid delay (t ++ u) := by
  obtain ⟨t₁, reply, t₂, reply', t₃, rfl, hle⟩ := h
  exact ⟨t₁, reply, t₂, reply', t₃ ++ u, by simp, hle⟩

theorem Waited.prepend (h : Waited pid delay t) (u : Trace) : Waited pid delay (u ++ t) := by
  obtain ⟨t₁, reply, t₂, reply', t₃, rfl, hle⟩ := h
  exact ⟨u ++ t₁, reply, t₂, reply', t₃, by simp, hle⟩

theorem clock_not_reads (owner : Byte) (reply : HalReply) :
    ¬ (Event.hal owner .monotonicMs reply).Reads pid := by
  rintro ⟨_, _, _, _, he⟩
  cases he

theorem hal_not_reads {owner : Byte} (hne : owner ≠ pid) (call : HalCall) (reply : HalReply) :
    ¬ (Event.hal owner call reply).Reads pid := by
  rintro ⟨_, _, _, _, he⟩
  exact hne (Event.hal.inj he).1

theorem push_not_reads (owner : Byte) (cmd : Command) (rc : Status) :
    ¬ (Event.push owner cmd rc).Reads pid := by
  rintro ⟨_, _, _, _, he⟩
  cases he

theorem pop_not_reads (owner : Byte) (cmd : Command) : ¬ (Event.pop owner cmd).Reads pid := by
  rintro ⟨_, _, _, _, he⟩
  cases he

theorem Slept.append (h : Slept pid delay deadline t) (hu : ∀ e ∈ events, ¬ e.Reads pid) :
    Slept pid delay deadline (t ++ events) := by
  obtain ⟨t₁, reply, t₂, rfl, hdeadline, hnot⟩ := h
  refine ⟨t₁, reply, t₂ ++ events, by simp, hdeadline, fun e he => ?_⟩
  rcases List.mem_append.mp he with he | he
  · exact hnot e he
  · exact hu e he

/-- The next read is due when the scheduler has found the delay over. -/
theorem Slept.due {reply : HalReply} (h : Slept pid delay deadline t)
    (hover : deadline ≤ reply.ms) :
    Due (Event.Reads pid) (Waited pid delay) (t ++ [.hal 0 .monotonicMs reply]) := by
  obtain ⟨t₁, first, t₂, rfl, rfl, hnot⟩ := h
  rw [List.append_assoc, List.cons_append]
  refine Separation.due_of_cut (clock_not_reads _ _) (fun e he => ?_) fun v => ?_
  · rcases List.mem_append.mp he with he | he
    · exact hnot e he
    · obtain rfl := List.mem_singleton.mp he
      exact clock_not_reads _ _
  · exact Waited.prepend ⟨[], first, t₂, reply, [], rfl, hover⟩ v

end Waits

/-- The delay of a sensor's `SLEEP_MS`. -/
def Sensor.delay (s : Sensor) : BitVec 32 := held (BitVec.ofInt 32 s.pollMs)

/-- A sensor process: ready, with its next read due when it is about to begin a round of its
loop, or asleep. -/
structure Rested (s : Sensor) (i : Slot) (p : Process) (next : ℕ) (t : Trace) : Prop where
  spaced : s.pollMs ≠ 0 → Separated (Event.Reads i.pid) (Waited i.pid s.delay) t
  due : s.pollMs ≠ 0 → p.state = .ready → next ≤ 8 ∨ next = 12 →
    Due (Event.Reads i.pid) (Waited i.pid s.delay) t
  asleep : p.state ≠ .ready → p.state = .sleeping ∧ next = 12 ∧ s.pollMs ≠ 0 ∧
    Slept i.pid s.delay p.sleepUntilMs t

/-- The states of the processes of a flow. -/
structure Timed (f : FlowSpec) (sys : System) (a : FlowState) : Prop where
  sensor : ∀ (i : Slot) s, f.sensors[i.val]? = some s →
    Rested s i (sys.sched.proc i) (a.sensor i).next a.trace
  actuator : ∀ i : Slot, i.val = f.sensors.length → (sys.sched.proc i).state ≠ .sleeping

namespace Rested

variable {s : Sensor} {i : Slot} {p q : Process} {next next' : ℕ} {t events : Trace}

/-- Other events, while the process stays as it is. -/
theorem append (h : Rested s i p next t) (hstate : q.state = p.state)
    (hdeadline : q.sleepUntilMs = p.sleepUntilMs) (hu : ∀ e ∈ events, ¬ e.Reads i.pid) :
    Rested s i q next (t ++ events) := by
  refine ⟨fun hp => (h.spaced hp).append hu, ?_, ?_⟩
  · rw [hstate]
    exact fun hp hr hn => (h.due hp hr hn).append (fun v w hv => hv.append w) hu
  · rw [hstate, hdeadline]
    intro hr
    obtain ⟨hs, hn, hp, hslept⟩ := h.asleep hr
    exact ⟨hs, hn, hp, hslept.append hu⟩

/-- The process goes on to an instruction of its loop, without a read. -/
theorem goto (h : Rested s i p next t) (hp : p.state = .ready) (hq : q.state = .ready)
    (hu : ∀ e ∈ events, ¬ e.Reads i.pid)
    (hnext : s.pollMs ≠ 0 → next' ≤ 8 ∨ next' = 12 → next ≤ 8 ∨ next = 12) :
    Rested s i q next' (t ++ events) := by
  refine ⟨fun hpoll => (h.spaced hpoll).append hu, fun hpoll _ hn => ?_,
    fun hne => absurd hq hne⟩
  exact (h.due hpoll hp (hnext hpoll hn)).append (fun v w hv => hv.append w) hu

/-- The wake-up pass wakes a sleeper whose deadline is over. -/
theorem wake (h : Rested s i p next t) (reply : HalReply) :
    Rested s i (wake reply.ms p) next (t ++ [.hal 0 .monotonicMs reply]) := by
  have hclock : ∀ e ∈ [Event.hal 0 .monotonicMs reply], ¬ e.Reads i.pid := by
    intro e he
    obtain rfl := List.mem_singleton.mp he
    exact clock_not_reads _ _
  by_cases hdue : p.state = .sleeping ∧ p.sleepUntilMs ≤ reply.ms
  · obtain ⟨-, hnext, hpoll, hslept⟩ := h.asleep (by simp [hdue.1])
    rw [MiniBeam.wake, if_pos hdue]
    exact ⟨fun hp => (h.spaced hp).append hclock, fun _ _ _ => hslept.due hdue.2,
      fun hne => absurd rfl hne⟩
  · rw [MiniBeam.wake, if_neg hdue]
    exact h.append rfl rfl hclock

end Rested

/-! ### Steps of other processes -/

section Steps

variable {hal : Hal} {f : FlowSpec} {self : Slot} {sys sys' sys₁ : System} {a a' : FlowState}

/-- A step of another process leaves a sensor where it is, and makes no read of it. -/
theorem FlowStep.foreign {ends : Bool} {i : Slot} (hs : FlowStep hal f self a ends a')
    (hi : i ≠ self) : a'.sensor i = a.sensor i ∧
      ∃ events, a'.trace = a.trace ++ events ∧ ∀ e ∈ events, ¬ e.Reads i.pid := by
  have hpid : self.pid ≠ i.pid := fun he => hi (Slot.pid_inj he).symm
  have hone : ∀ {e : Event}, ¬ e.Reads i.pid → ∀ e' ∈ [e], ¬ e'.Reads i.pid := by
    intro e he e' hmem
    rwa [List.mem_singleton.mp hmem]
  cases hs with
  | spent | block | loop => exact ⟨rfl, [], (List.append_nil _).symm, nofun⟩
  | load | lost | yield | jump =>
      exact ⟨Function.update_of_ne hi _ _, [], (List.append_nil _).symm, nofun⟩
  | read | clock | sleep =>
      exact ⟨Function.update_of_ne hi _ _, [_], rfl, hone (hal_not_reads hpid _ _)⟩
  | send => exact ⟨Function.update_of_ne hi _ _, [_], rfl, hone (push_not_reads _ _ _)⟩
  | receive => exact ⟨rfl, [_], rfl, hone (pop_not_reads _ _)⟩
  | drive => exact ⟨rfl, [_], rfl, hone (hal_not_reads hpid _ _)⟩

theorem InSlice.le (h : InSlice f self sys a) : self.val ≤ f.sensors.length := by
  refine Nat.le_of_not_lt fun hlt => ?_
  have hfree := (h.represents.free self).mpr hlt
  rw [h.ready] at hfree
  cases hfree

theorem InSlice.running (h : InSlice f self sys a) : (sys.sched.proc self).halted = false := by
  rcases Nat.lt_or_eq_of_le h.le with hlt | heq
  · exact (h.represents.sensor self _ (List.getElem?_eq_getElem hlt)).halted
  · exact (h.represents.actuator self heq).halted

/-- A round that ends a slice: the budget is spent, or the process is not ready behind its
instruction. -/
theorem InSlice.stopped {rc : Status} (h : InSlice f self sys a)
    (hround : runRound hal maxReductions (sys.machine self) = .ok (some rc, sys'.machine self)) :
    (maxReductions ≤ a.budget ∧ sys' = sys) ∨
      (a.budget < maxReductions ∧ (sys'.sched.proc self).state ≠ .ready ∧
        mbProcStep hal (sys.machine self) = .ok (.ok, sys'.machine self)) := by
  obtain ⟨a', -, -, -, hok⟩ := h.round hround
  obtain rfl := Option.some.inj (hok rfl)
  have hh := h.running
  rcases runRound_cases h.ready hround with ⟨hspent, -, hm⟩ | ⟨hleft, rc', sys₁, hstep, hend⟩
  · rcases hspent with hhalt | hmax
    · rw [hh] at hhalt
      cases hhalt
    · exact .inl ⟨h.budget ▸ hmax, System.machine_inj.mp hm⟩
  · have hlt : a.budget < maxReductions := by
      rw [← h.budget]
      exact Nat.lt_of_not_le fun hle => hleft (.inr hle)
    rcases hend with ⟨hends, hrc, hm⟩ | ⟨-, -, hrc, -⟩
    · obtain rfl := Option.some.inj hrc
      rw [System.machine_inj.mp hm]
      exact .inr ⟨hlt, hends.resolve_left (fun hne => hne rfl), hstep⟩
    · cases hrc

/-- A process that is not running stays as it is, or is woken by a message. -/
theorem Rested.frame {s : Sensor} {i : Slot} {p q : Process} {next : ℕ} {t events u : Trace}
    (h : Rested s i p next t) (hf : Frame i p q u) (hu : ∀ e ∈ events, ¬ e.Reads i.pid) :
    Rested s i q next (t ++ events) := by
  refine h.append ?_ (by rw [hf.same]) hu
  rcases hf.state with hs | ⟨hw, -, -⟩
  · exact hs
  · have hsleeping := (h.asleep (by simp [hw])).1
    rw [hw] at hsleeping
    cases hsleeping

/-- A round of a sensor that goes on. -/
theorem Rested.step {s : Sensor} {p q : Process} (hs : FlowStep hal f self a false a')
    (hsensor : f.sensors[self.val]? = some s) (h : Rested s self p (a.sensor self).next a.trace)
    (hp : p.state = .ready) (hq : q.state = .ready) :
    Rested s self q (a'.sensor self).next a'.trace := by
  have hlt := (List.getElem?_eq_some_iff.mp hsensor).1
  have hone : ∀ {e : Event}, ¬ e.Reads self.pid → ∀ e' ∈ [e], ¬ e'.Reads self.pid := by
    intro e he e' hmem
    rwa [List.mem_singleton.mp hmem]
  have hquiet : ∀ next : ℕ, (s.pollMs ≠ 0 → next ≤ 8 ∨ next = 12 →
      (a.sensor self).next ≤ 8 ∨ (a.sensor self).next = 12) → Rested s self q next a.trace := by
    intro next hnext
    have hgoto : Rested s self q next (a.trace ++ []) := h.goto hp hq nofun hnext
    rwa [List.append_nil] at hgoto
  cases hs with
  | @load s' k left sensor next loading =>
      have hrest := hquiet (k + 1) fun _ _ => .inl (by omega)
      simpa using hrest
  | @read s' reply left sensor next answer =>
      obtain rfl := Option.some.inj (hsensor.symm.trans sensor)
      refine ⟨fun hpoll => ?_, fun _ _ hn => ?_, fun hne => absurd hq hne⟩
      · exact (h.spaced hpoll).snoc (h.due hpoll hp (.inl (by omega)))
      · simp at hn
  | clock left sensor next answer =>
      refine h.goto hp hq (hone (clock_not_reads _ _)) fun _ hn => ?_
      simp at hn
  | lost left sensor next unknown =>
      have hrest := hquiet 11 fun _ hn => by omega
      simpa using hrest
  | send left sensor next known offered =>
      refine h.goto hp hq (hone (push_not_reads _ _ _)) fun _ hn => ?_
      simp at hn
  | yield left sensor next tight =>
      obtain rfl := Option.some.inj (hsensor.symm.trans sensor)
      have hrest := hquiet 12 fun hpoll _ => absurd tight hpoll
      simpa using hrest
  | jump left sensor next =>
      have hrest := hquiet 8 fun _ _ => .inr next
      simpa using hrest
  | receive left actuator | drive left actuator | loop left actuator => omega

/-- A sensor falls asleep until its delay is over. -/
theorem Rested.stop {s : Sensor} {rc : Status} (h : InSlice f self sys a)
    (hs : FlowStep hal f self a true a') (hsensor : f.sensors[self.val]? = some s)
    (hround : runRound hal maxReductions (sys.machine self) = .ok (some rc, sys'.machine self))
    (hrest : Rested s self (sys.sched.proc self) (a.sensor self).next a.trace) :
    Rested s self (sys'.sched.proc self) (a'.sensor self).next a'.trace := by
  have hlt := (List.getElem?_eq_some_iff.mp hsensor).1
  have hstop := h.stopped hround
  cases hs with
  | spent out =>
      obtain ⟨-, rfl⟩ | ⟨hleft, -⟩ := hstop
      · exact hrest
      · omega
  | block left actuator => omega
  | @sleep s' reply left sensor next paced answer =>
      obtain rfl := Option.some.inj (hsensor.symm.trans sensor)
      obtain ⟨hmax, -⟩ | ⟨-, -, hstep⟩ := hstop
      · omega
      have hat := h.represents.sensor self _ sensor
      have hrest' : (f.sensorCode s)[11]? = some (.sleepMs 6) := by
        show some s.rest = _
        rw [Sensor.rest, if_neg paced]
      have hdecode := hat.decode_eq next hrest'
      have hdelay := hat.delay hdecode
      rw [mbProcStep_sleepMs hat.halted hdecode, Except.ok.injEq, Prod.mk.injEq,
        System.machine_inj] at hstep
      rw [← hstep.2, System.asleep, Scheduler.proc_setProc_self]
      have hclock : ∀ e ∈ [Event.hal self.pid .monotonicMs reply], ¬ e.Reads self.pid := by
        intro e he
        obtain rfl := List.mem_singleton.mp he
        exact clock_not_reads _ _
      refine ⟨fun hpoll => (hrest.spaced hpoll).append hclock, fun _ hr => (by cases hr),
        fun _ => ⟨rfl, by simp, paced, a.trace, reply, [], rfl, ?_, by simp⟩⟩
      rw [hdelay, h.represents.trace, ← answer]
      rfl

/-- An actuator stops at its receive. -/
theorem InSlice.actuator_awake {rc : Status} (h : InSlice f self sys a)
    (hs : FlowStep hal f self a true a') (hself : self.val = f.sensors.length)
    (hround : runRound hal maxReductions (sys.machine self) = .ok (some rc, sys'.machine self)) :
    (sys'.sched.proc self).state ≠ .sleeping := by
  have hstop := h.stopped hround
  cases hs with
  | spent out =>
      obtain ⟨-, rfl⟩ | ⟨hleft, -⟩ := hstop
      · rw [h.ready]
        decide
      · omega
  | sleep left sensor => exact absurd sensor (FlowSpec.no_sensor hself)
  | block left actuator at_ empty =>
      obtain ⟨hmax, -⟩ | ⟨-, -, hstep⟩ := hstop
      · omega
      have hat := h.represents.actuator self hself
      rw [at_] at hat
      have hdecode := hat.decode_eq (show _ = some (.recvCmd 0 1 2 3 4) from rfl)
      obtain ⟨events, hrun⟩ := mbProcStep_decoded hat.halted hdecode
        (Instr.not_isSend nofun) hstep
      obtain ⟨popped, -, hrun⟩ := bind_eq_ok.mp hrun
      rcases popped with _ | ⟨cmd, mb⟩
      · simp only [if_true, pure_ok, Except.ok.injEq, Prod.mk.injEq] at hrun
        obtain ⟨-, hproc, -⟩ := hrun
        rw [← hproc]
        exact fun hw => by cases hw
      · simp only [pure_ok, Except.ok.injEq, Prod.mk.injEq] at hrun
        obtain ⟨-, hproc, -⟩ := hrun
        have hstate := (quiet_received (((sys.sched.proc self).setPc
          (offset actuatorCode 1)).setMailbox mb) 0 1 2 3 4
          (if mbValidateCommand cmd = .ok then cmd else ⟨CommandType.none.code,
            (mbValidateCommand cmd).code, 0, 0, 0⟩) (mbValidateCommand cmd)).state
        rw [← hproc]
        refine fun hw => absurd (hstate.symm.trans hw) ?_
        show (sys.sched.proc self).state ≠ _
        rw [h.ready]
        decide

theorem Timed.round {rc : Option Status} (hinv : Table sys ∧ Ledgers sys) (h : Timed f sys a)
    (hslice : InSlice f self sys a) (hs : FlowStep hal f self a rc.isSome a')
    (hround : runRound hal maxReductions (sys.machine self) = .ok (rc, sys'.machine self))
    (hnext : rc = none → InSlice f self sys' a') : Timed f sys' a' := by
  obtain ⟨sys'', hm, hmoves, -⟩ := runRound_moves hslice.ready hround
  obtain rfl := System.machine_inj.mp hm
  constructor
  · intro i s hsensor
    by_cases hi : i = self
    · subst hi
      cases rc with
      | none =>
          exact (h.sensor i s hsensor).step hs hsensor hslice.ready (hnext rfl).ready
      | some rc => exact Rested.stop hslice hs hsensor hround (h.sensor i s hsensor)
    · obtain ⟨hsame, events, htrace, hquiet⟩ := hs.foreign hi
      obtain ⟨u, -, hframe⟩ := Moves.frame hinv hi hmoves
      rw [hsame, htrace]
      exact (h.sensor i s hsensor).frame hframe hquiet
  · intro i hi
    by_cases hself : i = self
    · subst hself
      cases rc with
      | none =>
          rw [(hnext rfl).ready]
          decide
      | some rc => exact hslice.actuator_awake hs hi hround
    · obtain ⟨u, -, hframe⟩ := Moves.frame hinv hself hmoves
      rcases hframe.state with hstate | ⟨-, hready, -⟩
      · rw [hstate]
        exact h.actuator i hi
      · rw [hready]
        decide

theorem Timed.pick {found : Option Slot} (h : Timed f sys a) (hrep : Represents f sys a)
    (hpick : mbSchedPick hal sys = .ok (found, sys₁)) : Timed f sys₁ (a.wake hal) := by
  have hproc := mbSchedPick_proc hpick
  constructor
  · intro i s hsensor
    rw [hproc i, hrep.trace]
    exact (h.sensor i s hsensor).wake _
  · intro i hi
    rw [hproc i]
    rcases wake_cases (hal sys.trace .monotonicMs).ms (sys.sched.proc i) with hw | ⟨hs, -⟩
    · rw [hw]
      exact h.actuator i hi
    · exact absurd hs (h.actuator i hi)

theorem Timed.startSlice (h : Timed f sys a) (self : Slot) :
    Timed f (sys.startSlice self) (a.setBudget 0) := by
  have hproc : ∀ i, ((sys.startSlice self).sched.proc i).state = (sys.sched.proc i).state ∧
      ((sys.startSlice self).sched.proc i).sleepUntilMs = (sys.sched.proc i).sleepUntilMs := by
    intro i
    rw [System.startSlice, Scheduler.proc_setProc]
    split
    · rename_i hi
      rw [hi]
      exact ⟨rfl, rfl⟩
    · exact ⟨rfl, rfl⟩
  constructor
  · intro i s hsensor
    obtain ⟨hstate, hdeadline⟩ := hproc i
    have hrest : Rested s i _ _ (a.trace ++ []) :=
      (h.sensor i s hsensor).append hstate hdeadline (by simp)
    rwa [List.append_nil] at hrest
  · intro i hi
    rw [(hproc i).1]
    exact h.actuator i hi

theorem Timed.loop {fuel : ℕ} {rc : Status} (hinv : Table sys ∧ Ledgers sys) (h : Timed f sys a)
    (hslice : InSlice f self sys a)
    (hrun : runLoop hal maxReductions fuel (sys.machine self) = .ok (rc, sys'.machine self)) :
    ∃ a', Represents f sys' a' ∧ Timed f sys' a' ∧ FlowSlice hal f self a a' := by
  induction fuel generalizing sys a with
  | zero => simp [runLoop] at hrun
  | succ fuel ih =>
      obtain ⟨⟨end?, m⟩, hround, hrun⟩ := bind_eq_ok.mp hrun
      obtain ⟨sys₁, rfl, hmoves, -⟩ := runRound_moves hslice.ready hround
      obtain ⟨a', hstep, hrep, hnext, -⟩ := hslice.round hround
      have htimed := h.round hinv hslice hstep hround hnext
      cases end? with
      | some rc' =>
          simp only [pure_ok, Except.ok.injEq, Prod.mk.injEq, System.machine_inj] at hrun
          obtain ⟨-, rfl⟩ := hrun
          exact ⟨a', hrep, htimed, .stop hstep⟩
      | none =>
          obtain ⟨a'', hrep', htimed', hrest⟩ :=
            ih (ledgers_invariant.moves hmoves hinv) htimed (hnext rfl) hrun
          exact ⟨a'', hrep', htimed', .more hstep hrest⟩

end Steps

/-! ### Every run -/

section Ticks

variable {hal : Hal} {f : FlowSpec} {self : Slot} {sys sys' sys₁ : System} {a a' : FlowState}

/-- The states of a flow right after its deployment. -/
theorem timed_deploy (f : FlowSpec) :
    Timed f ⟨deploy (f.sensors.map f.sensorProgram) compileActuator, []⟩ .initial := by
  have hspawned := deploy_spawned (f.sensors.map f.sensorProgram) compileActuator
  have hstate : ∀ i : Slot, i.val ≤ f.sensors.length →
      ((deploy (f.sensors.map f.sensorProgram) compileActuator).proc i).state = .ready := by
    intro i hi
    have hlength : i.val < (f.sensors.map f.sensorProgram ++ [compileActuator]).length := by
      simpa using Nat.lt_succ_of_le hi
    rw [hspawned i, List.getElem?_eq_getElem hlength]
    rfl
  constructor
  · intro i s hsensor
    have hready := hstate i (Nat.le_of_lt (List.getElem?_eq_some_iff.mp hsensor).1)
    exact ⟨fun _ => Separation.separated_nil, fun _ _ _ => Separation.due_nil,
      fun hne => absurd hready hne⟩
  · intro i hi
    show ((deploy (f.sensors.map f.sensorProgram) compileActuator).proc i).state ≠ _
    rw [hstate i (Nat.le_of_eq hi)]
    decide

/-- A tick of a flow is a tick of the abstract machine. -/
theorem FlowRuns.flowTick {rc : Status} (hr : Runs hal sys) (hrep : Represents f sys a)
    (h : Timed f sys a) (htick : mbSchedTick hal sys = .ok (rc, sys')) :
    ∃ found sys₁ a', mbSchedPick hal sys = .ok (found, sys₁) ∧ FlowTick hal f a found a' ∧
      Represents f sys' a' ∧ Timed f sys' a' := by
  rcases mbSchedTick_cases htick with ⟨hpick, -⟩ | ⟨self, sys₁, hpick, hrun⟩
  · exact ⟨none, sys', _, hpick, .idle, hrep.pick hpick, h.pick hrep hpick⟩
  · have hready := mbSchedPick_ready hpick
    have hinv := ledgers_invariant.moves (startSlice_moves hready)
      (ledgers_invariant.pick hpick (ledgers_invariant.runs hr))
    obtain ⟨a', hrep', htimed, hslice⟩ := ((h.pick hrep hpick).startSlice self).loop hinv
      ((hrep.pick hpick).startSlice hready) hrun
    exact ⟨some self, sys₁, a', hpick, .slice hslice, hrep', htimed⟩

/-- Every run of the deployed programs is a run of the flow, with the states of its
processes. -/
theorem flow_timed (h : FlowRuns hal (f.sensors.map f.sensorProgram) compileActuator sys) :
    ∃ a, Represents f sys a ∧ Timed f sys a ∧ FlowReach hal f none a := by
  induction h with
  | deployed => exact ⟨.initial, represents_deploy f, timed_deploy f, .start⟩
  | tick before htick ih =>
      obtain ⟨a, hrep, htimed, hreach⟩ := ih
      obtain ⟨found, sys₁, a', -, htick', hrep', htimed'⟩ :=
        FlowRuns.flowTick before.runs hrep htimed htick
      exact ⟨a', hrep', htimed', htick'.reach hreach⟩

theorem flow_timed_slice
    (h : FlowDispatched hal (f.sensors.map f.sensorProgram) compileActuator self sys) :
    ∃ a, InSlice f self sys a ∧ Timed f sys a ∧ FlowReach hal f (some self) a := by
  induction h with
  | start run pick =>
      obtain ⟨a, hrep, htimed, hreach⟩ := flow_timed run
      exact ⟨_, (hrep.pick pick).startSlice (mbSchedPick_ready pick),
        (htimed.pick hrep pick).startSlice self, .pick self hreach⟩
  | next before round ih =>
      obtain ⟨a, hslice, htimed, hreach⟩ := ih
      obtain ⟨a', hstep, -, hnext, -⟩ := hslice.round round
      exact ⟨a', hnext rfl, htimed.round (ledgers_invariant.dispatched before.dispatched) hslice
        hstep round hnext, .step hreach hstep⟩

end Ticks

/-! ### Polling -/

/-- The sensors of a compiled flow are its entries, in order. -/
theorem compile_sensors {flow : ErlTerm} {ss : List ErlTerm} {progs : List (List Byte)}
    {act : List Byte} (h : compile flow = .ok (progs, act))
    (hss : flow.key "sensors" = some (.list ss)) :
    ∃ f : FlowSpec, progs = f.sensors.map f.sensorProgram ∧ act = compileActuator ∧
      List.Forall₂ Sensor.Describes f.sensors ss := by
  obtain ⟨⟨⟩, hvalid, h⟩ := Flow.bind_ok.mp h
  obtain ⟨ss', fs, hss', -, -, hempty, hflows⟩ := compileFlow_valid hvalid
  obtain rfl : ss = ss' := by simpa [hss] using hss'
  cases fs with
  | nil =>
      rw [hempty rfl] at h
      cases h
  | cons first rest =>
      obtain ⟨f, hall, -, hok⟩ := hflows first rest rfl
      rw [hok] at h
      cases h
      exact ⟨f, rfl, rfl, hall⟩

theorem describes_entry {f : FlowSpec} {ss : List ErlTerm} {sensor : ErlTerm} {n : ℕ} {pollMs : ℤ}
    (hall : List.Forall₂ Sensor.Describes f.sensors ss) (hsensor : ss[n]? = some sensor)
    (hpoll : sensor.key "poll_ms" = some (.int pollMs)) :
    ∃ s, f.sensors[n]? = some s ∧ s.pollMs = pollMs := by
  obtain ⟨hlt, hget⟩ := List.getElem?_eq_some_iff.mp hsensor
  have hlt' : n < f.sensors.length := hall.length_eq ▸ hlt
  refine ⟨f.sensors[n], List.getElem?_eq_getElem hlt', ?_⟩
  have hkey := (hall.get hlt' hlt).pollMs
  rw [List.get_eq_getElem, List.get_eq_getElem, hget, hpoll] at hkey
  cases hkey
  rfl

/-- Between any two reads of a sensor that sleeps, in any run of its flow, it looked at the
clock and a later reading of the scheduler was past its delay, which is the `poll_ms` of the
flow exactly when that fits. -/
theorem polls_spaced {flow sensor : ErlTerm} {ss : List ErlTerm} {progs : List (List Byte)}
    {act : List Byte} {i : Slot} {pollMs : ℤ} (h : compile flow = .ok (progs, act))
    (hss : flow.key "sensors" = some (.list ss)) (hsensor : ss[i.val]? = some sensor)
    (hpoll : sensor.key "poll_ms" = some (.int pollMs)) (hpos : 0 < pollMs) {hal : Hal}
    {sys : System} (hr : FlowReached hal progs act sys) {u v w : Trace} {e e' : Event}
    (htrace : sys.trace = u ++ e :: (v ++ e' :: w)) (he : e.Reads i.pid) (he' : e'.Reads i.pid) :
    Waited i.pid (held (BitVec.ofInt 32 pollMs)) v ∧
      (((held (BitVec.ofInt 32 pollMs)).toNat : ℤ) = pollMs ↔ PollFits pollMs) := by
  obtain ⟨f, rfl, rfl, hall⟩ := compile_sensors h hss
  obtain ⟨s, hs, rfl⟩ := describes_entry hall hsensor hpoll
  obtain ⟨a, hrep, htimed⟩ : ∃ a, Represents f sys a ∧ Timed f sys a := by
    rcases hr with hr | ⟨self, hd⟩
    · obtain ⟨a, hrep, htimed, -⟩ := flow_timed hr
      exact ⟨a, hrep, htimed⟩
    · obtain ⟨a, hslice, htimed, -⟩ := flow_timed_slice hd
      exact ⟨a, hslice.represents, htimed⟩
  have hspaced := (htimed.sensor i s hs).spaced (by omega)
  rw [← hrep.trace, htrace] at hspaced
  exact ⟨hspaced.between he he', held_poll_iff hpos⟩

/-- A HAL whose clock counts the events. -/
def countingHal : Hal := fun t _ => ⟨0, 42, BitVec.ofNat 32 t.length⟩

/-- One sensor, polled every 3 milliseconds, over three ticks. -/
theorem polls_spaced_fastPoll : ∃ (sys : System) (v : Trace),
    FlowReached countingHal [compileSensor 1 0x39 0x92 3 0 2] compileActuator sys ∧
    v.length = 7 ∧ Waited 1 (held 3) v ∧ (((held 3).toNat : ℤ) = 3 ↔ PollFits 3) := by
  have hcompile : compile (fastPoll 3) =
      .ok ([compileSensor 1 0x39 0x92 3 0 2], compileActuator) := rfl
  obtain ⟨sys, hrun, hevents⟩ := exists_ok_of_map
    (runCalls countingHal ⟨deploy [compileSensor 1 0x39 0x92 3 0 2] compileActuator, []⟩
      (List.replicate 3 .tick))
    (fun sys => (sys.trace[1]?, sys.trace[1 + 1 + 7]?))
    (some (.hal 1 (.i2cReadReg 1 0x39 0x92) ⟨0, 42, 1⟩),
      some (.hal 1 (.i2cReadReg 1 0x39 0x92) ⟨0, 42, 9⟩)) (by decide +kernel)
  obtain ⟨hfirst, hsecond⟩ := Prod.mk.inj hevents
  obtain ⟨v, w, htrace, hlength⟩ := Separation.split_at hfirst hsecond
  have hreached : FlowReached countingHal [compileSensor 1 0x39 0x92 3 0 2] compileActuator sys :=
    .inl (FlowRuns.deployed.ticks hrun)
  obtain ⟨hwaited, hdelay⟩ := polls_spaced (i := 0) hcompile rfl rfl rfl (by decide)
    hreached htrace ⟨_, _, _, _, rfl⟩ ⟨_, _, _, _, rfl⟩
  exact ⟨sys, v, hreached, hlength, hwaited, hdelay⟩

end MiniBeam

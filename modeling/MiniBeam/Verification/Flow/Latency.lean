import MiniBeam.Verification.Flow.Timing

/-! How long a command waits in a deployed flow, and how often the sensors read. -/

namespace MiniBeam

/-! ### Flows between ticks -/

/-- A deployed flow between two ticks, with the abstract state it is in. -/
structure FlowAt (hal : Hal) (f : FlowSpec) (sys : System) (a : FlowState) : Prop where
  runs : Runs hal sys
  represents : Represents f sys a
  timed : Timed f sys a
  reach : FlowReach hal f none a

section Ticks

variable {hal : Hal} {f : FlowSpec} {self i : Slot} {sys sys' : System} {a a' : FlowState}

theorem FlowRuns.at
    (h : FlowRuns hal (f.sensors.map f.sensorProgram) compileActuator sys) :
    ∃ a, FlowAt hal f sys a := by
  obtain ⟨a, hrep, htimed, hreach⟩ := flow_timed h
  exact ⟨a, h.runs, hrep, htimed, hreach⟩

theorem FlowAt.tick (h : FlowAt hal f sys a) {rc : Status}
    (htick : mbSchedTick hal sys = .ok (rc, sys')) :
    ∃ found sys₁ a', mbSchedPick hal sys = .ok (found, sys₁) ∧ FlowTick hal f a found a' ∧
      FlowAt hal f sys' a' := by
  obtain ⟨found, sys₁, a', hpick, htick', hrep, htimed⟩ :=
    FlowRuns.flowTick h.runs h.represents h.timed htick
  refine ⟨found, sys₁, a', hpick, htick', ?_, hrep, htimed, htick'.reach h.reach⟩
  refine h.runs.call (c := .tick) ?_
  rw [runCall, htick]
  rfl

/-- A slice only adds to the trace. -/
theorem FlowSlice.trace (h : FlowSlice hal f self a a') : a.trace <+: a'.trace := by
  induction h with
  | stop round =>
      obtain ⟨events, htrace, -⟩ := round.events
      exact htrace ▸ List.prefix_append _ _
  | more round _ ih =>
      obtain ⟨events, htrace, -⟩ := round.events
      exact (htrace ▸ List.prefix_append _ _ : _ <+: _).trans ih

theorem FlowTick.trace {found : Option Slot} (h : FlowTick hal f a found a') :
    a.trace <+: a'.trace := by
  cases h with
  | idle => exact List.prefix_append _ _
  | slice slice => exact (List.prefix_append _ _).trans slice.trace

theorem FlowAt.ticks {n : ℕ} (h : FlowAt hal f sys a)
    (hrun : runCalls hal sys (List.replicate n .tick) = .ok sys') :
    ∃ a', FlowAt hal f sys' a' ∧ a.trace <+: a'.trace := by
  induction n generalizing sys a with
  | zero =>
      obtain rfl := Except.ok.inj hrun
      exact ⟨a, h, List.prefix_refl _⟩
  | succ n ih =>
      obtain ⟨sys₁, hcall, hrest⟩ := bind_eq_ok.mp hrun
      obtain ⟨⟨rc, sys₂⟩, htick, hcall⟩ := bind_eq_ok.mp hcall
      obtain rfl := Except.ok.inj hcall
      obtain ⟨found, sys₃, a₁, -, htick', h₁⟩ := h.tick htick
      obtain ⟨a', h', hprefix⟩ := ih h₁ hrest
      exact ⟨a', h', htick'.trace.trans hprefix⟩

/-- Ticks of a flow return. -/
theorem FlowAt.returns (h : FlowAt hal f sys a) (n : ℕ) :
    ∃ sys', runCalls hal sys (List.replicate n .tick) = .ok sys' := by
  induction n generalizing sys a with
  | zero => exact ⟨sys, rfl⟩
  | succ n ih =>
      obtain ⟨rc, sys₁, htick, -⟩ : ∃ rc sys₁, mbSchedTick hal sys = .ok (rc, sys₁) ∧ _ :=
        h.represents.tick
      obtain ⟨-, -, a₁, -, -, h₁⟩ := h.tick htick
      obtain ⟨sys', hrest⟩ := ih h₁
      refine ⟨sys', ?_⟩
      rw [List.replicate_succ, runCalls, runCall, htick]
      exact hrest

/-- A ready process has a slice within any eight ticks. -/
theorem FlowAt.dispatched (h : FlowAt hal f sys a) (hready : (sys.sched.proc i).state = .ready)
    (hrun : runCalls hal sys (List.replicate 8 .tick) = .ok sys') :
    ∃ a₁ a₂ a', FlowReach hal f none a₁ ∧ a.trace <+: a₁.trace ∧
      FlowSlice hal f i ((a₁.wake hal).setBudget 0) a₂ ∧ FlowReach hal f none a₂ ∧
      a₂.trace <+: a'.trace ∧ FlowAt hal f sys' a' := by
  have hdistance : sys.sched.distance i < 8 := Int.emod_lt_of_pos _ (by decide)
  obtain ⟨before, after, sys₁, sys₂, hcs, -, hbefore, hpick⟩ :=
    ready_dispatched h.runs hready hrun (by rw [List.count_replicate_self]; exact hdistance)
  obtain ⟨-, hb, htail⟩ := List.append_eq_replicate_iff.mp hcs.symm
  obtain ⟨-, -, ha⟩ := List.append_eq_replicate_iff.mp
    (show [Call.tick] ++ after = List.replicate _ _ from htail)
  rw [hb] at hbefore
  obtain ⟨a₁, h₁, hprefix₁⟩ := h.ticks hbefore
  rw [hcs, runCalls_append, hb, hbefore, ok_bind] at hrun
  obtain ⟨sys₃, hcall, hrest⟩ := bind_eq_ok.mp hrun
  obtain ⟨⟨rc, sys₄⟩, htick, hcall⟩ := bind_eq_ok.mp hcall
  obtain rfl := Except.ok.inj hcall
  obtain ⟨found, sys₅, a₂, hpick', htick', h₂⟩ := h₁.tick htick
  rw [hpick, Except.ok.injEq, Prod.mk.injEq] at hpick'
  obtain ⟨rfl, -⟩ := hpick'
  rw [ha] at hrest
  obtain ⟨a', h', hprefix₂⟩ := h₂.ticks hrest
  cases htick' with
  | slice slice => exact ⟨a₁, a₂, a', h₁.reach, hprefix₁, slice, h₂.reach, hprefix₂, h'⟩

end Ticks

/-! ### The actuator -/

/-- The duties that were commanded to a process. -/
def commanded (pid : Byte) (t : Trace) : List ℕ := (delivered pid t).map fun cmd => cmd.b.toNat

theorem commanded_append (pid : Byte) (t u : Trace) :
    commanded pid (t ++ u) = commanded pid t ++ commanded pid u := by
  simp [commanded]

theorem commanded_hal (pid owner : Byte) (call : HalCall) (reply : HalReply) :
    commanded pid [.hal owner call reply] = [] := rfl

theorem commanded_pop (pid owner : Byte) (cmd : Command) :
    commanded pid [.pop owner cmd] = [] := rfl

theorem commanded_mono {pid : Byte} {t u : Trace} (h : t <+: u) :
    commanded pid t <+: commanded pid u := by
  obtain ⟨v, rfl⟩ := h
  rw [commanded_append]
  exact List.prefix_append _ _

theorem dutiesOf_mono {t u : Trace} (h : t <+: u) : dutiesOf t <+: dutiesOf u := by
  obtain ⟨v, rfl⟩ := h
  rw [dutiesOf_append]
  exact List.prefix_append _ _

/-- An accepted value goes behind the others. -/
theorem DutyQueue.offer_duties (q : DutyQueue) (v : I32) :
    (q.offer v).2.duties.map Subtype.val =
      q.duties.map Subtype.val ++ if (q.offer v).1 = .ok then [v] else [] := by
  unfold DutyQueue.offer
  split
  · split <;> simp
  · simp

/-- The duties on their way to the hardware. -/
def FlowState.pending (a : FlowState) (i : Slot) : List ℕ :=
  (a.actuator.inFlight ++ (a.queue i).duties).map fun d => d.val.toNat

section Actuator

variable {hal : Hal} {f : FlowSpec} {who : Option Slot} {self i : Slot} {a a' : FlowState}

/-- What was commanded is driven or on its way, in order. -/
theorem FlowStep.handled {ends : Bool} (hi : i.val = f.sensors.length)
    (hs : FlowStep hal f self a ends a')
    (h : commanded i.pid a.trace = dutiesOf a.trace ++ a.pending i) :
    commanded i.pid a'.trace = dutiesOf a'.trace ++ a'.pending i := by
  cases hs with
  | spent | block | load | lost | yield | jump => exact h
  | @read s reply left sensor next answer =>
      have hduties : dutiesOf [.hal self.pid s.call reply] = [] := rfl
      show commanded i.pid (a.trace ++ _) = dutiesOf (a.trace ++ _) ++ a.pending i
      rw [commanded_append, commanded_hal, List.append_nil, dutiesOf_append, hduties,
        List.append_nil]
      exact h
  | @clock s reply left sensor next answer | @sleep s reply left sensor next paced answer =>
      have hduties : dutiesOf [.hal self.pid .monotonicMs reply] = [] := rfl
      show commanded i.pid (a.trace ++ _) = dutiesOf (a.trace ++ _) ++ a.pending i
      rw [commanded_append, commanded_hal, List.append_nil, dutiesOf_append, hduties,
        List.append_nil]
      exact h
  | @send s j rc q left sensor next known offered =>
      have hduties : dutiesOf [.push j.pid (f.command (a.sensor self).value) rc] = [] := rfl
      show commanded i.pid (a.trace ++ _) = dutiesOf (a.trace ++ _) ++
        (a.actuator.inFlight ++ (Function.update a.queue j q i).duties).map _
      rw [commanded_append, dutiesOf_append, hduties, List.append_nil, h, List.append_assoc]
      refine congrArg (dutiesOf a.trace ++ ·) ?_
      by_cases hj : i = j
      · subst hj
        have hoffer := (a.queue i).offer_duties (a.sensor self).value
        rw [offered] at hoffer
        have hqueue := congrArg (List.map BitVec.toNat) hoffer
        simp only [List.map_append, List.map_map] at hqueue
        rw [Function.update_self, FlowState.pending, List.map_append, List.map_append,
          List.append_assoc]
        refine congrArg (_ ++ ·) ?_
        refine Eq.trans ?_ hqueue.symm
        refine congrArg (_ ++ ·) ?_
        by_cases hrc : rc = .ok <;> simp [commanded, hrc, FlowSpec.command]
      · have hne : j.pid ≠ i.pid := fun he => hj (Slot.pid_inj he).symm
        rw [Function.update_of_ne hj, FlowState.pending]
        simp [commanded, hne]
  | @receive duty q left actuator at_ oldest =>
      obtain rfl : i = self := Fin.ext (hi.trans actuator.symm)
      have hduties : dutiesOf [.pop i.pid (f.command duty)] = [] := rfl
      show commanded i.pid (a.trace ++ _) = dutiesOf (a.trace ++ _) ++
        (ActuatorState.inFlight (.driving duty) ++ (Function.update a.queue i q i).duties).map _
      rw [commanded_append, commanded_pop, List.append_nil, dutiesOf_append, hduties,
        List.append_nil, h, Function.update_self, FlowState.pending, at_, oldest]
      rfl
  | @drive duty reply left actuator at_ answer =>
      have hduties : dutiesOf [.hal self.pid (.pwmSetDuty (BitVec.ofInt 8 f.channel)
          (duty.val.setWidth 16)) reply] = [duty.val.toNat] := by
        simp only [dutiesOf, Event.duty, List.filterMap_cons, List.filterMap_nil, List.map_cons,
          List.map_nil, duty.toNat_setWidth]
      show commanded i.pid (a.trace ++ _) = dutiesOf (a.trace ++ _) ++
        (ActuatorState.inFlight .looping ++ (a.queue i).duties).map _
      rw [commanded_append, commanded_hal, List.append_nil, dutiesOf_append, hduties, h,
        FlowState.pending, at_, List.append_assoc]
      rfl
  | loop left actuator at_ =>
      show commanded i.pid a.trace = dutiesOf a.trace ++
        (ActuatorState.inFlight .receiving ++ (a.queue i).duties).map _
      rw [h, FlowState.pending, at_]
      rfl

theorem FlowReach.handled (hi : i.val = f.sensors.length) (h : FlowReach hal f who a) :
    commanded i.pid a.trace = dutiesOf a.trace ++ a.pending i := by
  have hwake : ∀ b : FlowState, commanded i.pid b.trace = dutiesOf b.trace ++ b.pending i →
      commanded i.pid (b.wake hal).trace = dutiesOf (b.wake hal).trace ++ b.pending i := by
    intro b hb
    have hduties : dutiesOf [.hal 0 .monotonicMs (hal b.trace .monotonicMs)] = [] := rfl
    rw [FlowState.wake, FlowState.emit_trace, commanded_append, commanded_hal, List.append_nil,
      dutiesOf_append, hduties, List.append_nil]
    exact hb
  induction h with
  | start => rfl
  | idle _ ih => exact hwake _ ih
  | pick self _ ih => exact hwake _ ih
  | step _ round ih => exact round.handled hi ih
  | stop _ round ih => exact round.handled hi ih

/-- At most 33 duties are on their way. -/
theorem FlowState.pending_length (a : FlowState) (i : Slot) :
    (a.pending i).length ≤ mailboxCapacity + 1 := by
  have hqueue := (a.queue i).bounded
  have hflight : a.actuator.inFlight.length ≤ 1 := by
    cases a.actuator <;> simp [ActuatorState.inFlight]
  rw [FlowState.pending, List.length_map, List.length_append]
  omega

/-- Instructions of the actuator's loop since its last drive. -/
def ActuatorState.phase : ActuatorState → ℕ
  | looping => 0
  | receiving => 1
  | driving _ => 2

/-- The instructions that the actuator's loop has completed. -/
def FlowState.progress (a : FlowState) : ℕ :=
  3 * (dutiesOf a.trace).length + a.actuator.phase

theorem FlowStep.progress (hself : self.val = f.sensors.length)
    (hs : FlowStep hal f self a false a') :
    a'.progress = a.progress + 1 ∧ a'.budget = a.budget + 1 := by
  cases hs with
  | load _ sensor | read _ sensor | clock _ sensor | lost _ sensor | send _ sensor
  | yield _ sensor | jump _ sensor => exact absurd sensor (FlowSpec.no_sensor hself)
  | @receive duty q left actuator at_ oldest =>
      have hduties : dutiesOf [.pop self.pid (f.command duty)] = [] := rfl
      refine ⟨?_, rfl⟩
      show 3 * (dutiesOf (a.trace ++ _)).length + 2 = _
      rw [dutiesOf_append, hduties, List.append_nil, FlowState.progress, at_]
      rfl
  | @drive duty reply left actuator at_ answer =>
      refine ⟨?_, rfl⟩
      show 3 * (dutiesOf (a.trace ++ _)).length + 0 = _
      rw [dutiesOf_append, List.length_append, FlowState.progress, at_]
      rfl
  | loop left actuator at_ =>
      refine ⟨?_, rfl⟩
      show 3 * (dutiesOf a.trace).length + 1 = _
      rw [FlowState.progress, at_]
      rfl

/-- A slice of the actuator ends with an empty queue, or after all its rounds. -/
theorem FlowSlice.progress (hself : self.val = f.sensors.length)
    (h : FlowSlice hal f self a a') :
    a'.pending self = [] ∨ a.progress + maxReductions ≤ a'.progress + a.budget := by
  induction h with
  | stop round =>
      cases round with
      | spent out => exact .inr (by omega)
      | sleep _ sensor => exact absurd sensor (FlowSpec.no_sensor hself)
      | block left actuator at_ empty =>
          left
          rw [FlowState.pending, at_, empty]
          rfl
  | more round _ ih =>
      obtain ⟨hprogress, hbudget⟩ := round.progress hself
      rcases ih with hempty | hle
      · exact .inl hempty
      · exact .inr (by omega)

end Actuator

section Latency

variable {hal : Hal} {f : FlowSpec} {i : Slot} {sys sys' : System} {a a' : FlowState}

/-- A process that waits for a command has driven everything. -/
theorem FlowAt.drained (h : FlowAt hal f sys a) (hi : i.val = f.sensors.length)
    (hwait : (sys.sched.proc i).state = .waiting) : a.pending i = [] := by
  have hblocked := ((table_invariant.runs h.runs).entry i).blocked hwait
  have hat := h.represents.actuator i hi
  have hempty : (a.queue i).duties = [] := by
    have hqueue := h.represents.queue_eq i
    have hpop := Mailbox.pop_refines (h.represents.holds i)
    rw [hblocked.empty] at hpop
    split at hpop
    · rename_i hnone
      rw [Inbox.pop_none_iff, FlowSpec.inbox_queue] at hnone
      exact List.map_eq_nil_iff.mp hnone
    · obtain ⟨mb, hpop, -⟩ := hpop
      cases hpop
  obtain ⟨t, r, r', r'', r''', pc, hrecv⟩ := hblocked.recv
  have hreceiving : a.actuator.inFlight = [] := by
    cases hact : a.actuator with
    | receiving | looping => rfl
    | driving duty =>
        rw [hact] at hat
        have hdecode := hat.decode_eq (show _ = some (.callBif 2 [1, 2] 5) from rfl)
        rw [hrecv] at hdecode
        cases hdecode
  rw [FlowState.pending, hreceiving, hempty]
  rfl

theorem FlowAt.actuator_state (h : FlowAt hal f sys a) (hi : i.val = f.sensors.length) :
    (sys.sched.proc i).state = .ready ∨ (sys.sched.proc i).state = .waiting := by
  have hfree : (sys.sched.proc i).state ≠ .free := fun hf => by
    have hlt := (h.represents.free i).mp hf
    omega
  have hawake := h.timed.actuator i hi
  have hhalted : (sys.sched.proc i).state ≠ .halted := by
    rw [Ne, ← ((table_invariant.runs h.runs).entry i).halted,
      (h.represents.actuator i hi).halted]
    decide
  cases hstate : (sys.sched.proc i).state <;> simp_all

/-- In eight ticks the actuator drives all that was commanded, or 21 duties. -/
theorem FlowAt.eight (h : FlowAt hal f sys a) (hi : i.val = f.sensors.length)
    (hrun : runCalls hal sys (List.replicate 8 .tick) = .ok sys') :
    ∃ a', FlowAt hal f sys' a' ∧ a.trace <+: a'.trace ∧
      (commanded i.pid a.trace <+: dutiesOf a'.trace ∨
        (dutiesOf a.trace).length + 21 ≤ (dutiesOf a'.trace).length) := by
  rcases h.actuator_state hi with hready | hwait
  · obtain ⟨a₁, a₂, a', hreach₁, hprefix₁, hslice, hreach₂, hprefix₂, h'⟩ :=
      h.dispatched hready hrun
    have hmono : a.trace <+: a₂.trace :=
      (hprefix₁.trans (List.prefix_append _ _)).trans hslice.trace
    refine ⟨a', h', hmono.trans hprefix₂, ?_⟩
    rcases hslice.progress hi with hempty | hle
    · left
      have hall := hreach₂.handled hi
      rw [hempty, List.append_nil] at hall
      exact ((commanded_mono hmono).trans (hall ▸ List.prefix_refl _)).trans
        (dutiesOf_mono hprefix₂)
    · right
      have hfirst : dutiesOf ((a₁.wake hal).setBudget 0).trace = dutiesOf a₁.trace :=
        ((silent_clock 0 (hal a₁.trace .monotonicMs)).append a₁.trace).2.1
      have hphase : ∀ b : ActuatorState, b.phase ≤ 2 := fun b => by
        cases b <;> simp [ActuatorState.phase]
      have hlast := hphase a₂.actuator
      have hle₁ := (dutiesOf_mono hprefix₁).length_le
      have hle₂ := (dutiesOf_mono hprefix₂).length_le
      have hmax : maxReductions = 64 := rfl
      simp only [FlowState.progress, hfirst, FlowState.setBudget_budget] at hle
      omega
  · obtain ⟨a', h', hprefix⟩ := h.ticks hrun
    refine ⟨a', h', hprefix, .inl ?_⟩
    have hall := h.reach.handled hi
    rw [h.drained hi hwait, List.append_nil] at hall
    rw [hall]
    exact dutiesOf_mono hprefix

/-- Sixteen ticks after a command was accepted it has been driven. -/
theorem FlowAt.sixteen (h : FlowAt hal f sys a) (hi : i.val = f.sensors.length)
    (hrun : runCalls hal sys (List.replicate 16 .tick) = .ok sys') :
    ∃ a', FlowAt hal f sys' a' ∧ commanded i.pid a.trace <+: dutiesOf a'.trace := by
  rw [show List.replicate 16 Call.tick = List.replicate 8 .tick ++ List.replicate 8 .tick from rfl,
    runCalls_append] at hrun
  obtain ⟨sys₁, hfirst, hsecond⟩ := bind_eq_ok.mp hrun
  obtain ⟨a₁, h₁, hprefix₁, hdone₁⟩ := h.eight hi hfirst
  obtain ⟨a', h', hprefix', hdone'⟩ := h₁.eight hi hsecond
  refine ⟨a', h', ?_⟩
  have hmono : commanded i.pid a.trace <+: commanded i.pid a₁.trace := commanded_mono hprefix₁
  rcases hdone₁ with hall | hmany₁
  · exact hall.trans (dutiesOf_mono hprefix')
  rcases hdone' with hall | hmany'
  · exact hmono.trans hall
  -- two full slices drive more than ever waits
  have hlength := congrArg List.length (h.reach.handled hi)
  have hpending := a.pending_length i
  have hcapacity : mailboxCapacity = 32 := rfl
  rw [List.length_append] at hlength
  have hdriven : dutiesOf a'.trace <+: commanded i.pid a'.trace := by
    rw [h'.reach.handled hi]
    exact List.prefix_append _ _
  exact List.prefix_of_prefix_length_le (hmono.trans (commanded_mono hprefix')) hdriven
    (by omega)

/-- More ticks drive no less. -/
theorem FlowAt.drives {n : ℕ} (h : FlowAt hal f sys a) (hi : i.val = f.sensors.length)
    (hn : 16 ≤ n) (hrun : runCalls hal sys (List.replicate n .tick) = .ok sys') :
    commanded i.pid sys.trace <+: dutiesOf sys'.trace := by
  obtain ⟨k, rfl⟩ := Nat.exists_eq_add_of_le hn
  rw [List.replicate_add, runCalls_append] at hrun
  obtain ⟨sys₁, hfirst, hrest⟩ := bind_eq_ok.mp hrun
  obtain ⟨a₁, h₁, hdone⟩ := h.sixteen hi hfirst
  obtain ⟨a', h', hprefix⟩ := h₁.ticks hrest
  rw [h.represents.trace, h'.represents.trace]
  exact hdone.trans (dutiesOf_mono hprefix)

end Latency

/-- In any run of a compiled flow the duties driven are the first of those commanded to the
actuator, in order; at most 33 are on their way; and any sixteen or more ticks return and
have driven all of them, whatever the hardware answers. -/
theorem flow_latency {flow : ErlTerm} {progs : List (List Byte)} {act : List Byte}
    (h : compile flow = .ok (progs, act)) {hal : Hal} {sys : System}
    (hr : FlowRuns hal progs act sys) {i : Slot} (hi : i.val = progs.length) :
    dutiesOf sys.trace <+: commanded i.pid sys.trace ∧
    (commanded i.pid sys.trace).length ≤ (dutiesOf sys.trace).length + 33 ∧
    ∀ n, 16 ≤ n → ∃ sys', runCalls hal sys (List.replicate n .tick) = .ok sys' ∧
      commanded i.pid sys.trace <+: dutiesOf sys'.trace := by
  obtain ⟨f, rfl, rfl, -⟩ := compile_ok h
  rw [List.length_map] at hi
  obtain ⟨a, hat⟩ := hr.at
  have hall := hat.reach.handled hi
  rw [← hat.represents.trace] at hall
  refine ⟨hall ▸ List.prefix_append _ _, ?_, fun n hn => ?_⟩
  · have hpending := a.pending_length i
    rw [hall, List.length_append]
    exact Nat.add_le_add_left hpending _
  · obtain ⟨sys', hrun⟩ := hat.returns n
    exact ⟨sys', hrun, hat.drives hi hn hrun⟩

/-- One sensor that reads 42, after its first tick. -/
theorem flow_latency_fastPoll : ∃ sys sys' : System,
    FlowRuns countingHal [compileSensor 1 0x39 0x92 0 0 2] compileActuator sys ∧
    commanded 2 sys.trace = [42] ∧ dutiesOf sys.trace = [] ∧
    runCalls countingHal sys (List.replicate 16 .tick) = .ok sys' ∧
      [42] <+: dutiesOf sys'.trace := by
  have hcompile : compile (fastPoll 0) =
      .ok ([compileSensor 1 0x39 0x92 0 0 2], compileActuator) := rfl
  obtain ⟨sys, hrun, hevents⟩ := exists_ok_of_map
    (runCalls countingHal ⟨deploy [compileSensor 1 0x39 0x92 0 0 2] compileActuator, []⟩ [.tick])
    (fun sys => (commanded 2 sys.trace, dutiesOf sys.trace)) ([42], []) (by decide +kernel)
  obtain ⟨hcommanded, hduties⟩ := Prod.mk.inj hevents
  have hr : FlowRuns countingHal [compileSensor 1 0x39 0x92 0 0 2] compileActuator sys :=
    FlowRuns.deployed.ticks (n := 1) hrun
  obtain ⟨-, -, hlater⟩ := flow_latency hcompile hr (i := 1) rfl
  obtain ⟨sys', hrun', hdriven⟩ := hlater 16 (Nat.le_refl _)
  rw [show Slot.pid 1 = 2 from rfl, hcommanded] at hdriven
  exact ⟨sys, sys', hr, hcommanded, hduties, hrun', hdriven⟩

end MiniBeam

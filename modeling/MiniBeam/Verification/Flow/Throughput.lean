import MiniBeam.Verification.Flow.Latency

/-! How often the sensors of a deployed flow read. -/

namespace MiniBeam

/-- A read of any process. -/
def Event.isRead : Event → Bool
  | .hal _ (.i2cReadReg _ _ _) _ => true
  | _ => false

/-- The reads that a sensor makes in the rest of a slice. -/
def readsLeft (next budget : ℕ) : ℕ := if next ≤ 8 ∨ (next = 12 ∧ budget = 0) then 1 else 0

section Slices

variable {hal : Hal} {f : FlowSpec} {self i : Slot} {s : Sensor} {a a' : FlowState}

/-- A round of a sensor, in reads. -/
theorem FlowStep.reads (hs : FlowStep hal f self a false a')
    (hsensor : f.sensors[self.val]? = some s) (hpaced : Paced f (some self) a) :
    ∃ events, a'.trace = a.trace ++ events ∧
      events.countP Event.isRead + readsLeft (a'.sensor self).next a'.budget =
        readsLeft (a.sensor self).next a.budget ∧
      (replies self.pid events).length = events.countP Event.isRead := by
  have hlt := (List.getElem?_eq_some_iff.mp hsensor).1
  cases hs with
  | @load s' k left sensor next loading =>
      refine ⟨[], (List.append_nil _).symm, ?_, rfl⟩
      simp [readsLeft, next, show k ≤ 8 by omega, show k + 1 ≤ 8 by omega]
  | @read s' reply left sensor next answer =>
      refine ⟨[_], rfl, ?_, ?_⟩
      · simp [readsLeft, next, Event.isRead, Sensor.call]
      · simp [replies, Event.replyTo, Event.isRead, Sensor.call]
  | clock left sensor next answer =>
      refine ⟨[_], rfl, ?_, rfl⟩
      simp [readsLeft, next, Event.isRead]
  | lost left sensor next unknown =>
      refine ⟨[], (List.append_nil _).symm, ?_, rfl⟩
      simp [readsLeft, next]
  | send left sensor next known offered =>
      refine ⟨[_], rfl, ?_, rfl⟩
      simp [readsLeft, next, Event.isRead]
  | yield left sensor next tight =>
      refine ⟨[], (List.append_nil _).symm, ?_, rfl⟩
      simp [readsLeft, next]
  | jump left sensor next =>
      have hbudget : a.budget = 0 := by
        have hrunning := hpaced.running self hlt rfl
        omega
      refine ⟨[], (List.append_nil _).symm, ?_, rfl⟩
      simp [readsLeft, next, hbudget]
  | receive left actuator | drive left actuator | loop left actuator => omega

/-- A slice of a sensor, in reads: those that are left are all made. -/
theorem FlowSlice.reads (h : FlowSlice hal f self a a') (hsensor : f.sensors[self.val]? = some s)
    (hpaced : Paced f (some self) a) :
    ∃ events, a'.trace = a.trace ++ events ∧
      events.countP Event.isRead = readsLeft (a.sensor self).next a.budget ∧
      (replies self.pid events).length = events.countP Event.isRead := by
  have hlt := (List.getElem?_eq_some_iff.mp hsensor).1
  induction h with
  | @stop a a' round =>
      have hrunning := hpaced.running self hlt rfl
      have hmax : maxReductions = 64 := rfl
      cases round with
      | spent out =>
          refine ⟨[], (List.append_nil _).symm, ?_, rfl⟩
          rw [readsLeft, if_neg (by omega)]
          rfl
      | sleep left sensor next paced answer =>
          refine ⟨[_], rfl, ?_, rfl⟩
          simp [readsLeft, next, Event.isRead]
      | block left actuator => omega
  | @more a a₁ a' round rest ih =>
      obtain ⟨events, htrace, hcount, hreplies⟩ := round.reads hsensor hpaced
      obtain ⟨events', htrace', hcount', hreplies'⟩ := ih (hpaced.step round)
      refine ⟨events ++ events', by rw [htrace', htrace, List.append_assoc], ?_, ?_⟩
      · rw [List.countP_append, hcount']
        exact hcount
      · rw [replies_append, List.length_append, List.countP_append, hreplies, hreplies']

/-- A slice of the actuator reads nothing. -/
theorem FlowSlice.actuator_reads (h : FlowSlice hal f self a a')
    (hself : self.val = f.sensors.length) :
    ∃ events, a'.trace = a.trace ++ events ∧ events.countP Event.isRead = 0 := by
  induction h with
  | @stop a a' round =>
      cases round with
      | spent | block => exact ⟨[], (List.append_nil _).symm, rfl⟩
      | sleep _ sensor => exact absurd sensor (FlowSpec.no_sensor hself)
  | @more a a₁ a' round rest ih =>
      obtain ⟨events', htrace', hcount'⟩ := ih
      obtain ⟨events, htrace, hcount⟩ : ∃ events, a₁.trace = a.trace ++ events ∧
          events.countP Event.isRead = 0 := by
        cases round with
        | receive | drive => exact ⟨[_], rfl, rfl⟩
        | loop => exact ⟨[], (List.append_nil _).symm, rfl⟩
        | load _ sensor | read _ sensor | clock _ sensor | lost _ sensor | send _ sensor
        | yield _ sensor | jump _ sensor => exact absurd sensor (FlowSpec.no_sensor hself)
      refine ⟨events ++ events', by rw [htrace', htrace, List.append_assoc], ?_⟩
      rw [List.countP_append, hcount, hcount']

/-- The slice of a sensor that a tick dispatches makes one read, of this sensor. -/
theorem FlowSlice.one_read {a₀ : FlowState} (hreach : FlowReach hal f none a₀)
    (h : FlowSlice hal f self ((a₀.wake hal).setBudget 0) a')
    (hsensor : f.sensors[self.val]? = some s) :
    ∃ events, a'.trace = a₀.trace ++ events ∧ events.countP Event.isRead = 1 ∧
      (replies self.pid events).length = 1 := by
  have hlt := (List.getElem?_eq_some_iff.mp hsensor).1
  have hrest := hreach.paced.resting self hlt nofun
  obtain ⟨events, htrace, hcount, hreplies⟩ := h.reads hsensor (FlowReach.pick self hreach).paced
  have hone : readsLeft (a₀.sensor self).next 0 = 1 := if_pos (by omega)
  have hread : events.countP Event.isRead = 1 := hcount.trans hone
  refine ⟨.hal 0 .monotonicMs (hal a₀.trace .monotonicMs) :: events, ?_, ?_, ?_⟩
  · rw [htrace]
    exact List.append_assoc ..
  · rw [List.countP_cons_of_neg (by simp [Event.isRead]), hread]
  · rw [← hread, ← hreplies]
    rfl

end Slices

section Ticks

variable {hal : Hal} {f : FlowSpec} {i : Slot} {s : Sensor} {sys sys' : System}
  {a a' : FlowState} {n : ℕ}

/-- A tick makes at most one read. -/
theorem FlowTick.reads {found : Option Slot} (hreach : FlowReach hal f none a)
    (hfound : ∀ self, found = some self → self.val ≤ f.sensors.length)
    (h : FlowTick hal f a found a') :
    ∃ events, a'.trace = a.trace ++ events ∧ events.countP Event.isRead ≤ 1 := by
  cases h with
  | idle => exact ⟨[_], rfl, Nat.zero_le _⟩
  | @slice self _ slice =>
      rcases Nat.lt_or_eq_of_le (hfound self rfl) with hlt | heq
      · obtain ⟨events, htrace, hcount, -⟩ :=
          slice.one_read hreach (List.getElem?_eq_getElem hlt)
        exact ⟨events, htrace, Nat.le_of_eq hcount⟩
      · obtain ⟨events, htrace, hcount⟩ := slice.actuator_reads heq
        refine ⟨.hal 0 .monotonicMs (hal a.trace .monotonicMs) :: events, ?_, ?_⟩
        · rw [htrace]
          exact List.append_assoc ..
        · rw [List.countP_cons_of_neg (by simp [Event.isRead]), hcount]
          exact Nat.zero_le _

/-- A process that a tick dispatches is one of the flow. -/
theorem FlowAt.found {sys₁ : System} (h : FlowAt hal f sys a)
    (hpick : mbSchedPick hal sys = .ok (some i, sys₁)) : i.val ≤ f.sensors.length :=
  ((h.represents.pick hpick).startSlice (mbSchedPick_ready hpick)).le

theorem FlowAt.reads (h : FlowAt hal f sys a)
    (hrun : runCalls hal sys (List.replicate n .tick) = .ok sys') :
    ∃ events a', FlowAt hal f sys' a' ∧ a'.trace = a.trace ++ events ∧
      events.countP Event.isRead ≤ n := by
  induction n generalizing sys a with
  | zero =>
      obtain rfl := Except.ok.inj hrun
      exact ⟨[], a, h, (List.append_nil _).symm, Nat.le_refl _⟩
  | succ n ih =>
      obtain ⟨sys₁, hcall, hrest⟩ := bind_eq_ok.mp hrun
      obtain ⟨⟨rc, sys₂⟩, htick, hcall⟩ := bind_eq_ok.mp hcall
      obtain rfl := Except.ok.inj hcall
      obtain ⟨found, sys₃, a₁, hpick, htick', h₁⟩ := h.tick htick
      obtain ⟨events, htrace, hcount⟩ :=
        htick'.reads h.reach fun self hself => h.found (hself ▸ hpick)
      obtain ⟨events', a', h', htrace', hcount'⟩ := ih h₁ hrest
      refine ⟨events ++ events', a', h', by rw [htrace', htrace, List.append_assoc], ?_⟩
      rw [List.countP_append]
      omega

/-- A sensor without an interval is always ready. -/
theorem FlowAt.ready (h : FlowAt hal f sys a) (hsensor : f.sensors[i.val]? = some s)
    (htight : s.pollMs = 0) : (sys.sched.proc i).state = .ready := by
  by_contra hne
  exact ((h.timed.sensor i s hsensor).asleep hne).2.2.1 htight

/-- It reads at least once in eight ticks. -/
theorem FlowAt.eight_reads (h : FlowAt hal f sys a) (hsensor : f.sensors[i.val]? = some s)
    (htight : s.pollMs = 0) (hrun : runCalls hal sys (List.replicate 8 .tick) = .ok sys') :
    ∃ events a', FlowAt hal f sys' a' ∧ a'.trace = a.trace ++ events ∧
      1 ≤ (replies i.pid events).length := by
  obtain ⟨a₁, a₂, a', hreach, ⟨u, hu⟩, hslice, -, ⟨v, hv⟩, h'⟩ :=
    h.dispatched (h.ready hsensor htight) hrun
  obtain ⟨events, htrace, -, hone⟩ := hslice.one_read hreach hsensor
  refine ⟨u ++ (events ++ v), a', h', ?_, ?_⟩
  · rw [← hv, htrace, ← hu]
    simp only [List.append_assoc]
  · rw [replies_append, replies_append, List.length_append, List.length_append]
    omega

theorem FlowAt.tight_reads (h : FlowAt hal f sys a) (hsensor : f.sensors[i.val]? = some s)
    (htight : s.pollMs = 0) (k : ℕ)
    (hrun : runCalls hal sys (List.replicate (8 * k) .tick) = .ok sys') :
    ∃ events a', FlowAt hal f sys' a' ∧ a'.trace = a.trace ++ events ∧
      k ≤ (replies i.pid events).length := by
  induction k generalizing sys a with
  | zero =>
      obtain rfl := Except.ok.inj hrun
      exact ⟨[], a, h, (List.append_nil _).symm, Nat.zero_le _⟩
  | succ k ih =>
      rw [Nat.mul_succ, Nat.add_comm, List.replicate_add, runCalls_append] at hrun
      obtain ⟨sys₁, hfirst, hrest⟩ := bind_eq_ok.mp hrun
      obtain ⟨events, a₁, h₁, htrace, hcount⟩ := h.eight_reads hsensor htight hfirst
      obtain ⟨events', a', h', htrace', hcount'⟩ := ih h₁ hrest
      refine ⟨events ++ events', a', h', by rw [htrace', htrace, List.append_assoc], ?_⟩
      rw [replies_append, List.length_append]
      omega

end Ticks

/-- Any `n` ticks of a compiled flow return; they make at most `n` reads, and at least `n / 8`
of every sensor whose `poll_ms` is zero. -/
theorem flow_throughput {flow : ErlTerm} {ss : List ErlTerm} {progs : List (List Byte)}
    {act : List Byte} (h : compile flow = .ok (progs, act))
    (hss : flow.key "sensors" = some (.list ss)) {hal : Hal} {sys : System}
    (hr : FlowRuns hal progs act sys) (n : ℕ) :
    ∃ sys' events, runCalls hal sys (List.replicate n .tick) = .ok sys' ∧
      sys'.trace = sys.trace ++ events ∧ events.countP Event.isRead ≤ n ∧
      ∀ (i : Slot) sensor, ss[i.val]? = some sensor →
        sensor.key "poll_ms" = some (.int 0) → n / 8 ≤ (replies i.pid events).length := by
  obtain ⟨f, rfl, rfl, hall⟩ := compile_sensors h hss
  obtain ⟨a, hat⟩ := hr.at
  obtain ⟨sys', hrun⟩ := hat.returns n
  obtain ⟨events, a', h', htrace, hcount⟩ := hat.reads hrun
  refine ⟨sys', events, hrun, ?_, hcount, fun i sensor hsensor hpoll => ?_⟩
  · rw [h'.represents.trace, hat.represents.trace, htrace]
  obtain ⟨s, hs, htight⟩ := describes_entry hall hsensor hpoll
  rw [← Nat.div_add_mod n 8, List.replicate_add, runCalls_append] at hrun
  obtain ⟨sys₁, hfirst, hrest⟩ := bind_eq_ok.mp hrun
  obtain ⟨u, a₁, h₁, hu, hreads⟩ := hat.tight_reads hs htight _ hfirst
  obtain ⟨a₂, h₂, v, hv⟩ := h₁.ticks hrest
  have hsame : a.trace ++ events = a.trace ++ (u ++ v) := by
    rw [← htrace, ← h'.represents.trace, h₂.represents.trace, ← hv, hu, List.append_assoc]
  rw [List.append_cancel_left hsame, replies_append, List.length_append]
  exact hreads.trans (Nat.le_add_right _ _)

/-- The sensor of `fastPoll`, in the eight ticks after its deployment. -/
theorem flow_throughput_fastPoll : ∃ sys' events,
    runCalls countingHal ⟨deploy [compileSensor 1 0x39 0x92 0 0 2] compileActuator, []⟩
      (List.replicate 8 .tick) = .ok sys' ∧
    sys'.trace = events ∧ events.countP Event.isRead ≤ 8 ∧
    1 ≤ (replies 1 events).length := by
  have hstart : FlowRuns countingHal [compileSensor 1 0x39 0x92 0 0 2] compileActuator _ :=
    .deployed
  obtain ⟨sys', events, hrun, htrace, hcount, hreads⟩ := flow_throughput
    (show compile (fastPoll 0) = _ from rfl) rfl hstart 8
  exact ⟨sys', events, hrun, htrace, hcount, hreads 0 _ rfl rfl⟩

end MiniBeam

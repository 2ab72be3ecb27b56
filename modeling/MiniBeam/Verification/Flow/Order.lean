import MiniBeam.Verification.Flow.Runs

/-! Compiled flows drive the values they read, in order. A value is in one place at a time:
a sensor's register, the actuator's queue, the actuator's register, or driven. -/

namespace MiniBeam

/-! ### Histories -/

/-- The byte of a successful I2C read. -/
def Event.readByte : Event → Option Byte
  | .hal _ (.i2cReadReg _ _ _) reply => if reply.rc = 0 then some reply.value else none
  | _ => none

/-- The duty of a PWM call. -/
def Event.duty : Event → Option (BitVec 16)
  | .hal _ (.pwmSetDuty _ duty) _ => some duty
  | _ => none

/-- The reply to an I2C read of one process. -/
def Event.replyTo (pid : Byte) : Event → Option HalReply
  | .hal p (.i2cReadReg _ _ _) reply => if p = pid then some reply else none
  | _ => none

/-- The bytes read so far, as numbers. -/
def readsOf (t : Trace) : List ℕ := (t.filterMap Event.readByte).map BitVec.toNat

/-- The duties driven so far, as numbers. -/
def dutiesOf (t : Trace) : List ℕ := (t.filterMap Event.duty).map BitVec.toNat

/-- The replies to the I2C reads of one process so far. -/
def replies (pid : Byte) (t : Trace) : List HalReply := t.filterMap (Event.replyTo pid)

theorem readsOf_append (t u : Trace) : readsOf (t ++ u) = readsOf t ++ readsOf u := by
  simp [readsOf]

theorem dutiesOf_append (t u : Trace) : dutiesOf (t ++ u) = dutiesOf t ++ dutiesOf u := by
  simp [dutiesOf]

theorem replies_append (pid : Byte) (t u : Trace) :
    replies pid (t ++ u) = replies pid t ++ replies pid u := by
  simp [replies]

/-- An event that is neither a read nor a duty. -/
def Event.Silent (e : Event) : Prop :=
  e.readByte = none ∧ e.duty = none ∧ ∀ pid, e.replyTo pid = none

theorem Event.Silent.append {e : Event} (h : e.Silent) (t : Trace) :
    readsOf (t ++ [e]) = readsOf t ∧ dutiesOf (t ++ [e]) = dutiesOf t ∧
      ∀ pid, replies pid (t ++ [e]) = replies pid t := by
  obtain ⟨hr, hd, hp⟩ := h
  refine ⟨?_, ?_, fun pid => ?_⟩
  · simp [readsOf, hr]
  · simp [dutiesOf, hd]
  · simp [replies, hp]

theorem silent_clock (pid : Byte) (reply : HalReply) : (Event.hal pid .monotonicMs reply).Silent :=
  ⟨rfl, rfl, fun _ => rfl⟩

theorem silent_push (pid : Byte) (cmd : Command) (rc : Status) : (Event.push pid cmd rc).Silent :=
  ⟨rfl, rfl, fun _ => rfl⟩

theorem silent_pop (pid : Byte) (cmd : Command) : (Event.pop pid cmd).Silent :=
  ⟨rfl, rfl, fun _ => rfl⟩

/-! ### Pace -/

/-- A sensor that does not run stands at its start or behind its wait; one that runs makes
its read and its send in one slice. -/
structure Paced (f : FlowSpec) (who : Option Slot) (a : FlowState) : Prop where
  resting : ∀ i : Slot, i.val < f.sensors.length → who ≠ some i →
    (a.sensor i).next = 0 ∨ (a.sensor i).next = 12
  running : ∀ i : Slot, i.val < f.sensors.length → who = some i →
    ((a.sensor i).next = 12 ∧ (a.budget = 0 ∨ maxReductions ≤ a.budget)) ∨
      ((a.sensor i).next ≤ 11 ∧ a.budget ≤ (a.sensor i).next)

section Pace

variable {hal : Hal} {f : FlowSpec} {who : Option Slot} {self : Slot} {a a' : FlowState}

/-- A step of the running sensor. -/
theorem Paced.moved (h : Paced f (some self) a) {σ : SensorState}
    (hself : a'.sensor = Function.update a.sensor self σ)
    (hnext : (σ.next = 12 ∧ (a'.budget = 0 ∨ maxReductions ≤ a'.budget)) ∨
      (σ.next ≤ 11 ∧ a'.budget ≤ σ.next)) : Paced f (some self) a' := by
  constructor
  · intro i hlt hi
    have hne : i ≠ self := fun he => hi (by rw [he])
    rw [hself, Function.update_of_ne hne]
    exact h.resting i hlt hi
  · intro i _ hi
    obtain rfl := Option.some.inj hi
    rw [hself, Function.update_self]
    exact hnext

/-- A step of the actuator. -/
theorem Paced.actuated (h : Paced f (some self) a) (hself : self.val = f.sensors.length)
    (hsensors : a'.sensor = a.sensor) : Paced f (some self) a' := by
  constructor
  · intro i hlt hi
    rw [hsensors]
    exact h.resting i hlt hi
  · intro i hlt hi
    obtain rfl := Option.some.inj hi
    omega

/-- The end of a slice after which its sensor rests. -/
theorem Paced.ended (h : Paced f (some self) a)
    (hsensors : ∀ i, i ≠ self → a'.sensor i = a.sensor i)
    (hself : self.val < f.sensors.length →
      (a'.sensor self).next = 0 ∨ (a'.sensor self).next = 12) : Paced f none a' := by
  refine ⟨fun i hlt _ => ?_, nofun⟩
  by_cases hi : i = self
  · subst hi
    exact hself hlt
  · rw [hsensors i hi]
    exact h.resting i hlt (fun he => hi (Option.some.inj he).symm)

theorem Paced.step (h : Paced f (some self) a) (hs : FlowStep hal f self a false a') :
    Paced f (some self) a' := by
  have hlt : ∀ s : Sensor, f.sensors[self.val]? = some s → self.val < f.sensors.length :=
    fun s hs => (List.getElem?_eq_some_iff.mp hs).1
  cases hs with
  | load left sensor next loading =>
      have hrun := h.running self (hlt _ sensor) rfl
      refine h.moved rfl (.inr ⟨?_, ?_⟩)
      · show _ + 1 ≤ 11
        omega
      · show a.budget + 1 ≤ _ + 1
        omega
  | read left sensor next | clock left sensor next | lost left sensor next
  | send left sensor next =>
      have hrun := h.running self (hlt _ sensor) rfl
      refine h.moved rfl (.inr ⟨by simp, ?_⟩)
      show a.budget + 1 ≤ _
      simp only
      omega
  | yield left sensor next =>
      exact h.moved rfl (.inl ⟨rfl, .inr (Nat.le_succ _)⟩)
  | jump left sensor next =>
      have hrun := h.running self (hlt _ sensor) rfl
      refine h.moved rfl (.inr ⟨by simp, ?_⟩)
      show a.budget + 1 ≤ 8
      omega
  | receive _ actuator | drive _ actuator | loop _ actuator => exact h.actuated actuator rfl

theorem Paced.stop (h : Paced f (some self) a) (hs : FlowStep hal f self a true a') :
    Paced f none a' := by
  cases hs with
  | spent out =>
      refine h.ended (fun _ _ => rfl) fun hlt => ?_
      have hrun := h.running self hlt rfl
      right
      have hmax : maxReductions = 64 := rfl
      omega
  | sleep left sensor next paced answer =>
      refine h.ended (fun i hi => ?_) fun _ => .inr ?_
      · simp [hi]
      · simp
  | block _ actuator => exact h.ended (fun _ _ => rfl) fun hlt => by omega

theorem FlowReach.paced (h : FlowReach hal f who a) : Paced f who a := by
  induction h with
  | start => exact ⟨fun _ _ _ => .inl rfl, nofun⟩
  | idle _ ih => exact ⟨ih.resting, nofun⟩
  | pick self _ ih =>
      refine ⟨fun i hlt _ => ih.resting i hlt nofun, fun i hlt _ => ?_⟩
      rcases ih.resting i hlt nofun with h0 | h12
      · exact .inr ⟨h0.trans_le (by decide), Nat.zero_le _⟩
      · exact .inl ⟨h12, .inl rfl⟩
  | step _ round ih => exact ih.step round
  | stop _ round ih => exact ih.stop round

end Pace

/-! ### The value a sensor holds -/

section Latest

variable {hal : Hal} {f : FlowSpec} {who : Option Slot} {self : Slot} {a a' : FlowState}

/-- Between its read and its send a sensor holds what its last read gave. -/
def Latest (f : FlowSpec) (a : FlowState) : Prop :=
  ∀ i : Slot, i.val < f.sensors.length → (a.sensor i).next = 9 ∨ (a.sensor i).next = 10 →
    ∃ earlier reply, replies i.pid a.trace = earlier ++ [reply] ∧
      (a.sensor i).value = held (readResult reply)

theorem replies_other {i self : Slot} (hi : i ≠ self) (t : Trace) (call : HalCall)
    (reply : HalReply) : replies i.pid (t ++ [.hal self.pid call reply]) = replies i.pid t := by
  have hpid : self.pid ≠ i.pid := fun he => hi (Slot.pid_inj he).symm
  rw [replies_append]
  cases call <;> simp [replies, Event.replyTo, hpid]

/-- A step of one process: the others keep their sensors and replies, and the one that runs holds
the last of its own. -/
theorem Latest.updated (h : Latest f a)
    (hsensors : ∀ i, i ≠ self → a'.sensor i = a.sensor i)
    (hreplies : ∀ i : Slot, i ≠ self → replies i.pid a'.trace = replies i.pid a.trace)
    (hself : self.val < f.sensors.length →
      (a'.sensor self).next = 9 ∨ (a'.sensor self).next = 10 →
        ∃ earlier reply, replies self.pid a'.trace = earlier ++ [reply] ∧
          (a'.sensor self).value = held (readResult reply)) : Latest f a' := by
  intro i hlt hnext
  by_cases hi : i = self
  · subst hi
    exact hself hlt hnext
  · rw [hsensors i hi] at hnext ⊢
    rw [hreplies i hi]
    exact h i hlt hnext

/-- A step that leaves the running sensor without a value, and the other sensors as they are. -/
theorem Latest.dropped (h : Latest f a)
    (hsensors : ∀ i, i ≠ self → a'.sensor i = a.sensor i)
    (hreplies : ∀ i : Slot, i ≠ self → replies i.pid a'.trace = replies i.pid a.trace)
    (hself : self.val < f.sensors.length →
      ¬ ((a'.sensor self).next = 9 ∨ (a'.sensor self).next = 10)) : Latest f a' :=
  h.updated hsensors hreplies fun hlt hnext => absurd hnext (hself hlt)

/-- A step that no sensor notices. -/
theorem Latest.congr (h : Latest f a) (hsensors : a'.sensor = a.sensor)
    (hreplies : ∀ i : Slot, i.val < f.sensors.length →
      replies i.pid a'.trace = replies i.pid a.trace) : Latest f a' := by
  intro i hlt hnext
  rw [hsensors] at hnext ⊢
  rw [hreplies i hlt]
  exact h i hlt hnext

theorem FlowStep.latest {ends : Bool} (hs : FlowStep hal f self a ends a') (h : Latest f a) :
    Latest f a' := by
  have hother : ∀ (σ : SensorState) (i : Slot), i ≠ self →
      Function.update a.sensor self σ i = a.sensor i := by
    intro σ i hi
    rw [Function.update_of_ne hi]
  cases hs with
  | spent => exact h
  | block => exact h
  | load left sensor next loading =>
      refine h.dropped (hother _) (fun _ _ => rfl) fun _ => ?_
      simp only [FlowState.spend_sensor, FlowState.setSensor_sensor, Function.update_self]
      omega
  | lost left sensor next unknown =>
      refine h.dropped (hother _) (fun _ _ => rfl) fun _ => ?_
      simp
  | jump left sensor next =>
      refine h.dropped (hother _) (fun _ _ => rfl) fun _ => ?_
      simp
  | yield left sensor next tight =>
      refine h.dropped (hother _) (fun _ _ => rfl) fun _ => ?_
      simp
  | send left sensor next known offered =>
      refine h.dropped (hother _) (fun i _ => (silent_push _ _ _).append _ |>.2.2 _) fun _ => ?_
      simp
  | sleep left sensor next paced answer =>
      refine h.dropped (hother _) (fun i hi => replies_other hi _ _ _) fun _ => ?_
      simp
  | loop => exact h
  | receive => exact h.congr rfl fun _ _ => ((silent_pop _ _).append _).2.2 _
  | drive left actuator =>
      refine h.congr rfl fun i hlt => ?_
      have hne : i ≠ self := by
        rintro rfl
        omega
      exact replies_other hne _ _ _
  | @read s reply left sensor next answer =>
      refine h.updated (hother _) (fun i hi => replies_other hi _ _ _) fun _ _ => ?_
      refine ⟨replies self.pid a.trace, reply, ?_, ?_⟩
      · show replies self.pid (a.trace ++ [.hal self.pid s.call reply]) = _
        rw [replies_append]
        simp [replies, Event.replyTo, Sensor.call]
      · simp
  | clock left sensor next answer =>
      refine h.updated (hother _) (fun i hi => replies_other hi _ _ _) fun hlt _ => ?_
      -- The value is the one of the read before.
      obtain ⟨earlier, last, hlast, hvalue⟩ := h self hlt (.inl next)
      refine ⟨earlier, last, ?_, ?_⟩
      · exact ((silent_clock _ _).append _).2.2 _ |>.trans hlast
      · simpa using hvalue

theorem Latest.wake (h : Latest f a) : Latest f (a.wake hal) :=
  h.congr rfl fun _ _ => ((silent_clock _ _).append _).2.2 _

theorem FlowReach.latest (h : FlowReach hal f who a) : Latest f a := by
  induction h with
  | start => exact fun i _ hnext => by simp [FlowState.initial] at hnext
  | idle _ ih => exact ih.wake
  | pick self _ ih => exact ih.wake
  | step _ round ih => exact round.latest ih
  | stop _ round ih => exact round.latest ih

end Latest

/-! ### Order -/

/-- Failing I2C reads return a negative code that a register can hold. -/
def Hal.FailsNegative (hal : Hal) : Prop :=
  ∀ t bus addr reg, (hal t (.i2cReadReg bus addr reg)).rc ≠ 0 →
    -2 ^ 27 ≤ (hal t (.i2cReadReg bus addr reg)).rc.toInt ∧
      (hal t (.i2cReadReg bus addr reg)).rc.toInt < 0

/-- A byte that was read comes back from its register unchanged, and is a valid duty. -/
theorem held_byte {reply : HalReply} (h : reply.rc = 0) :
    held (readResult reply) = reply.value.setWidth 32 ∧
      mbValidatePwmDuty (reply.value.setWidth 32) = true ∧
      (reply.value.setWidth 32 : I32).toNat = reply.value.toNat := by
  have hlt := reply.value.isLt
  have hnat : (reply.value.setWidth 32 : I32).toNat = reply.value.toNat := by
    rw [BitVec.toNat_setWidth]
    omega
  have hint : (reply.value.setWidth 32 : I32).toInt = reply.value.toNat := by
    rw [BitVec.toInt_eq_toNat_cond, hnat]
    split <;> omega
  refine ⟨?_, ?_, hnat⟩
  · rw [readResult, if_pos h]
    exact held_of_range (by omega) (by omega)
  · simp only [mbValidatePwmDuty, inRange, hint, Bool.and_eq_true, decide_eq_true_eq]
    omega

/-- A negative code comes back as it is, and is no valid duty. -/
theorem held_failure {rc : I32} (hlo : -2 ^ 27 ≤ rc.toInt) (hhi : rc.toInt < 0) :
    mbValidatePwmDuty (held rc) = false := by
  rw [held_of_range hlo (by omega)]
  have hneg : ¬ 0 ≤ rc.toInt := by omega
  simp only [mbValidatePwmDuty, inRange, hneg, decide_false, Bool.false_and]

section Order

variable {hal : Hal} {f : FlowSpec} {who : Option Slot} {self : Slot} {a a' : FlowState}

/-- The slot of the actuator, if it was spawned. -/
def FlowSpec.actuatorSlot? (f : FlowSpec) : Option Slot :=
  if h : f.sensors.length < maxProcesses then some ⟨f.sensors.length, h⟩ else none

theorem FlowSpec.actuatorSlot?_eq {i : Slot} (h : i.val = f.sensors.length) :
    f.actuatorSlot? = some i := by
  have hlt := i.isLt
  rw [FlowSpec.actuatorSlot?, dif_pos (by omega)]
  exact congrArg some (Fin.ext h.symm)

/-- The duties at the actuator: the one it is about to drive, and those in its queue. -/
def FlowSpec.waiting (f : FlowSpec) (a : FlowState) : List ℕ :=
  match f.actuatorSlot? with
  | some i => (a.actuator.inFlight ++ (a.queue i).duties).map fun d => d.val.toNat
  | none => []

/-- The duty of a value, if it is one. -/
def dutyOf (v : I32) : List ℕ := if mbValidatePwmDuty v then [v.toNat] else []

/-- The value the running sensor is about to send. -/
def FlowSpec.pending (f : FlowSpec) (who : Option Slot) (a : FlowState) : List ℕ :=
  match who with
  | some i =>
    if i.val < f.sensors.length ∧ ((a.sensor i).next = 9 ∨ (a.sensor i).next = 10) then
      dutyOf (a.sensor i).value
    else []
  | none => []

/-- Every value that was driven or may still be driven, in order, was read in this order. -/
def Ordered (f : FlowSpec) (who : Option Slot) (a : FlowState) : Prop :=
  (dutiesOf a.trace ++ (f.waiting a ++ f.pending who a)).Sublist (readsOf a.trace)

theorem FlowSpec.pending_none (hnext : ¬ ((a.sensor self).next = 9 ∨ (a.sensor self).next = 10)) :
    f.pending (some self) a = [] := if_neg fun h => hnext h.2

theorem FlowSpec.pending_actuator (hself : self.val = f.sensors.length) :
    f.pending (some self) a = [] := if_neg fun h => by omega

theorem FlowSpec.pending_some (hself : self.val < f.sensors.length)
    (hnext : (a.sensor self).next = 9 ∨ (a.sensor self).next = 10) :
    f.pending (some self) a = dutyOf (a.sensor self).value := if_pos ⟨hself, hnext⟩

/-- A step that reads nothing and drives nothing. -/
theorem Ordered.silent {who' : Option Slot} (h : Ordered f who a)
    (hreads : readsOf a'.trace = readsOf a.trace) (hduties : dutiesOf a'.trace = dutiesOf a.trace)
    (hcarried : (f.waiting a' ++ f.pending who' a').Sublist (f.waiting a ++ f.pending who a)) :
    Ordered f who' a' := by
  unfold Ordered
  rw [hreads, hduties]
  exact (hcarried.append_left _).trans h

/-- A silent step after which the running sensor holds no value. -/
theorem Ordered.idle {who' : Option Slot} (h : Ordered f who a)
    (hreads : readsOf a'.trace = readsOf a.trace) (hduties : dutiesOf a'.trace = dutiesOf a.trace)
    (hwaiting : f.waiting a' = f.waiting a) (hpending : f.pending who' a' = []) :
    Ordered f who' a' := by
  refine h.silent hreads hduties ?_
  rw [hwaiting, hpending, List.append_nil]
  exact List.sublist_append_left _ _

/-- An offer moves a value from the sensor into the queue, or drops it. -/
theorem waiting_offer {i : Slot} {v : I32} {rc : Status} {q : DutyQueue}
    (ho : (a.queue i).offer v = (rc, q)) (hqueue : a'.queue = Function.update a.queue i q)
    (hactuator : a'.actuator = a.actuator) :
    (f.waiting a').Sublist (f.waiting a ++ dutyOf v) := by
  unfold FlowSpec.waiting
  cases hslot : f.actuatorSlot? with
  | none => exact List.nil_sublist _
  | some j =>
      simp only [hactuator, hqueue]
      by_cases hj : j = i
      · subst hj
        rw [Function.update_self]
        unfold DutyQueue.offer at ho
        split at ho
        · rename_i hv
          split at ho
          · obtain ⟨-, rfl⟩ := Prod.mk.inj ho
            simp [dutyOf, hv]
          · obtain ⟨-, rfl⟩ := Prod.mk.inj ho
            exact List.sublist_append_left _ _
        · obtain ⟨-, rfl⟩ := Prod.mk.inj ho
          exact List.sublist_append_left _ _
      · rw [Function.update_of_ne hj]
        exact List.sublist_append_left _ _

theorem Duty.toNat_setWidth (d : Duty) : (d.val.setWidth 16 : BitVec 16).toNat = d.val.toNat := by
  have hrange := d.range
  rw [BitVec.toInt_eq_toNat_cond] at hrange
  rw [BitVec.toNat_setWidth]
  have hlt := d.val.isLt
  split at hrange <;> omega

/-- The value of a read is the byte that was read, or a code that is no duty. -/
theorem dutyOf_read (hhal : hal.FailsNegative) {s : Sensor} {reply : HalReply} {t : Trace}
    (answer : reply = hal t s.call) (pid : Byte) :
    (dutyOf (held (readResult reply))).Sublist (readsOf [.hal pid s.call reply]) := by
  by_cases hrc : reply.rc = 0
  · obtain ⟨hheld, hvalid, hnat⟩ := held_byte hrc
    simp [dutyOf, hheld, hvalid, readsOf, Event.readByte, Sensor.call, hrc, hnat]
  · have hfail := hhal t (BitVec.ofInt 8 s.bus) (BitVec.ofInt 8 s.addr) (BitVec.ofInt 8 s.reg)
    rw [show HalCall.i2cReadReg (BitVec.ofInt 8 s.bus) (BitVec.ofInt 8 s.addr)
      (BitVec.ofInt 8 s.reg) = s.call from rfl, ← answer] at hfail
    obtain ⟨hlo, hhi⟩ := hfail hrc
    rw [readResult, if_neg hrc, dutyOf, held_failure hlo hhi]
    exact List.nil_sublist _

/-- A read puts its value behind everything that is on the way. -/
theorem Ordered.read {who' : Option Slot} {event : Event} {v : I32} (h : Ordered f who a)
    (hbefore : f.pending who a = []) (htrace : a'.trace = a.trace ++ [event])
    (hduties : dutiesOf [event] = []) (hwaiting : f.waiting a' = f.waiting a)
    (hpending : f.pending who' a' = dutyOf v) (hvalue : (dutyOf v).Sublist (readsOf [event])) :
    Ordered f who' a' := by
  unfold Ordered at h ⊢
  rw [hbefore, List.append_nil] at h
  rw [htrace, dutiesOf_append, hduties, List.append_nil, readsOf_append, hwaiting, hpending,
    ← List.append_assoc]
  exact h.append hvalue

/-- A duty that is driven was the first of those that waited. -/
theorem Ordered.drive {who' : Option Slot} {event : Event} {d : ℕ} (h : Ordered f who a)
    (hbefore : f.pending who a = []) (htrace : a'.trace = a.trace ++ [event])
    (hreads : readsOf [event] = []) (hduties : dutiesOf [event] = [d])
    (hwaiting : f.waiting a = d :: f.waiting a') (hpending : f.pending who' a' = []) :
    Ordered f who' a' := by
  unfold Ordered at h ⊢
  rw [hbefore, hwaiting, List.append_nil] at h
  rw [htrace, dutiesOf_append, hduties, readsOf_append, hreads, hpending, List.append_nil,
    List.append_nil, List.append_assoc, List.singleton_append]
  exact h

theorem FlowStep.ordered {ends : Bool} (hs : FlowStep hal f self a ends a')
    (hhal : hal.FailsNegative) (h : Ordered f (some self) a) : Ordered f (some self) a' := by
  cases hs with
  | spent => exact h
  | block => exact h
  | load left sensor next loading =>
      refine h.idle rfl rfl rfl (FlowSpec.pending_none ?_)
      simp only [FlowState.spend_sensor, FlowState.setSensor_sensor, Function.update_self]
      omega
  | @read s reply left sensor next answer =>
      have hlt := (List.getElem?_eq_some_iff.mp sensor).1
      have hduties : dutiesOf [.hal self.pid s.call reply] = [] := by
        simp [dutiesOf, Event.duty, Sensor.call]
      refine h.read (FlowSpec.pending_none (by rw [next]; decide)) rfl hduties rfl ?_
        (dutyOf_read hhal answer self.pid)
      rw [FlowSpec.pending_some hlt (by simp)]
      simp
  | clock left sensor next answer =>
      have hlt := (List.getElem?_eq_some_iff.mp sensor).1
      obtain ⟨hreads, hduties, -⟩ := (silent_clock self.pid _).append a.trace
      refine h.silent hreads hduties ?_
      rw [FlowSpec.pending_some hlt (.inl next), FlowSpec.pending_some hlt (by simp)]
      simp only [FlowState.spend_sensor, FlowState.emit_sensor, FlowState.setSensor_sensor,
        Function.update_self]
      exact List.Sublist.refl _
  | lost left sensor next unknown =>
      refine h.idle rfl rfl rfl (FlowSpec.pending_none ?_)
      simp
  | @send s i rc q left sensor next known offered =>
      have hlt := (List.getElem?_eq_some_iff.mp sensor).1
      obtain ⟨hreads, hduties, -⟩ :=
        (silent_push i.pid (f.command (a.sensor self).value) rc).append a.trace
      refine h.silent hreads hduties ?_
      rw [FlowSpec.pending_some hlt (.inr next), FlowSpec.pending_none (by simp), List.append_nil]
      exact waiting_offer offered rfl rfl
  | yield left sensor next tight =>
      refine h.idle rfl rfl rfl (FlowSpec.pending_none ?_)
      simp
  | sleep left sensor next paced answer =>
      obtain ⟨hreads, hduties, -⟩ := (silent_clock self.pid _).append a.trace
      refine h.idle hreads hduties rfl (FlowSpec.pending_none ?_)
      simp
  | jump left sensor next =>
      refine h.idle rfl rfl rfl (FlowSpec.pending_none ?_)
      simp
  | @receive duty q left actuator at_ oldest =>
      obtain ⟨hreads, hduties, -⟩ := (silent_pop self.pid (f.command duty)).append a.trace
      refine h.idle hreads hduties ?_ (FlowSpec.pending_actuator actuator)
      simp [FlowSpec.waiting, FlowSpec.actuatorSlot?_eq actuator,
        at_, oldest, ActuatorState.inFlight]
  | @drive duty reply left actuator at_ answer =>
      have hduties : dutiesOf [.hal self.pid (.pwmSetDuty (BitVec.ofInt 8 f.channel)
          (duty.val.setWidth 16)) reply] = [duty.val.toNat] := by
        simp only [dutiesOf, Event.duty, List.filterMap_cons, List.filterMap_nil, List.map_cons,
          List.map_nil, duty.toNat_setWidth]
      refine h.drive (FlowSpec.pending_actuator actuator) rfl rfl hduties ?_
        (FlowSpec.pending_actuator actuator)
      simp [FlowSpec.waiting, FlowSpec.actuatorSlot?_eq actuator, at_, ActuatorState.inFlight]
  | loop left actuator at_ =>
      refine h.idle rfl rfl ?_ (FlowSpec.pending_actuator actuator)
      simp [FlowSpec.waiting, FlowSpec.actuatorSlot?_eq actuator, at_, ActuatorState.inFlight]

theorem FlowReach.ordered (h : FlowReach hal f who a) (hhal : hal.FailsNegative) :
    Ordered f who a := by
  induction h with
  | start =>
      have hwaiting : f.waiting .initial = [] := by
        unfold FlowSpec.waiting
        split <;> rfl
      unfold Ordered
      rw [hwaiting]
      exact List.nil_sublist _
  | @idle a before ih =>
      obtain ⟨hreads, hduties, -⟩ := (silent_clock 0 (hal a.trace .monotonicMs)).append a.trace
      exact ih.idle hreads hduties rfl rfl
  | @pick a self before ih =>
      obtain ⟨hreads, hduties, -⟩ := (silent_clock 0 (hal a.trace .monotonicMs)).append a.trace
      refine ih.idle hreads hduties rfl ?_
      by_cases hlt : self.val < f.sensors.length
      · have hrest := before.paced.resting self hlt nofun
        refine FlowSpec.pending_none ?_
        simp only [FlowState.setBudget, FlowState.wake, FlowState.emit]
        omega
      · exact if_neg fun hc => hlt hc.1
  | step _ round ih => exact round.ordered hhal ih
  | stop _ round ih =>
      refine (round.ordered hhal ih).silent rfl rfl ?_
      exact (List.Sublist.refl _).append (List.nil_sublist _)

end Order

/-! ### Calls -/

/-- A PWM call goes to the channel of the flow. -/
def Event.OnChannel (f : FlowSpec) : Event → Prop
  | .hal _ (.pwmSetDuty ch _) _ => ch = BitVec.ofInt 8 f.channel
  | _ => True

/-- A reply is the hardware's. -/
def Event.FromHal (hal : Hal) : Event → Prop
  | .hal _ call reply => ∃ t, reply = hal t call
  | _ => True

section Calls

variable {hal : Hal} {f : FlowSpec} {who : Option Slot} {self : Slot} {a a' : FlowState}

/-- A step adds events to the trace. -/
theorem FlowStep.events {ends : Bool} (hs : FlowStep hal f self a ends a') :
    ∃ events, a'.trace = a.trace ++ events ∧ ∀ e ∈ events, e.OnChannel f ∧ e.FromHal hal := by
  cases hs with
  | spent | block | load | lost | yield | jump | loop => exact ⟨[], (List.append_nil _).symm, nofun⟩
  | read _ _ _ answer | clock _ _ _ answer | sleep _ _ _ _ answer =>
      refine ⟨[_], rfl, fun e he => ?_⟩
      obtain rfl := List.mem_singleton.mp he
      exact ⟨trivial, _, answer⟩
  | drive _ _ _ answer =>
      refine ⟨[_], rfl, fun e he => ?_⟩
      obtain rfl := List.mem_singleton.mp he
      exact ⟨rfl, _, answer⟩
  | send | receive =>
      refine ⟨[_], rfl, fun e he => ?_⟩
      obtain rfl := List.mem_singleton.mp he
      exact ⟨trivial, trivial⟩

theorem FlowReach.events (h : FlowReach hal f who a) :
    ∀ e ∈ a.trace, e.OnChannel f ∧ e.FromHal hal := by
  have hwake : ∀ b : FlowState, (∀ e ∈ b.trace, e.OnChannel f ∧ e.FromHal hal) →
      ∀ e ∈ (b.wake hal).trace, e.OnChannel f ∧ e.FromHal hal := by
    intro b hb e he
    rcases List.mem_append.mp he with he | he
    · exact hb e he
    · obtain rfl := List.mem_singleton.mp he
      exact ⟨trivial, _, rfl⟩
  have hstep : ∀ {b b' : FlowState} {i : Slot} {ends : Bool},
      (∀ e ∈ b.trace, e.OnChannel f ∧ e.FromHal hal) → FlowStep hal f i b ends b' →
      ∀ e ∈ b'.trace, e.OnChannel f ∧ e.FromHal hal := by
    intro b b' i ends hb hs e he
    obtain ⟨events, htrace, hevents⟩ := hs.events
    rw [htrace] at he
    rcases List.mem_append.mp he with he | he
    · exact hb e he
    · exact hevents e he
  induction h with
  | start => exact nofun
  | idle _ ih => exact hwake _ ih
  | pick _ _ ih => exact hwake _ ih
  | step _ round ih => exact hstep ih round
  | stop _ round ih => exact hstep ih round

/-- A reply to an I2C read is the hardware's. -/
theorem FlowReach.reply_eq {pid : Byte} {reply : HalReply} (h : FlowReach hal f who a)
    (hr : reply ∈ replies pid a.trace) :
    ∃ t bus addr reg, reply = hal t (.i2cReadReg bus addr reg) := by
  obtain ⟨e, he, hreply⟩ := List.mem_filterMap.mp hr
  have hfrom := (h.events e he).2
  unfold Event.replyTo at hreply
  split at hreply
  · split at hreply
    · obtain rfl := Option.some.inj hreply
      obtain ⟨t, ht⟩ := hfrom
      exact ⟨t, _, _, _, ht⟩
    · cases hreply
  · cases hreply

end Calls

/-! ### Sends -/

section Sends

variable {hal : Hal} {f : FlowSpec} {self : Slot} {sys sys' : System} {a a' : FlowState}
  {s : Sensor} {i : Slot} {p : Process} {rPid rType rA rB rC rD : Reg} {pc : ℕ}

theorem ActuatorAt.sends {σ : ActuatorState} (h : ActuatorAt f i p σ) :
    decode p.program p.pc ≠ (.ok (.send rPid rType rA rB rC rD), pc) := by
  intro hd
  cases σ with
  | receiving =>
      cases hd.symm.trans
        (h.decode_eq (show actuatorCode[_]? = some (.recvCmd 0 1 2 3 4) from rfl))
  | driving duty =>
      cases hd.symm.trans
        (h.decode_eq (show actuatorCode[_]? = some (.callBif 2 [1, 2] 5) from rfl))
  | looping =>
      cases hd.symm.trans
        (h.decode_eq (show actuatorCode[_]? = some (.jmp (.ofInt 32 (-17))) from rfl))

/-- A process about to execute a send is a sensor. -/
theorem InSlice.sender (h : InSlice f self sys a)
    (hd : decode (sys.sched.proc self).program (sys.sched.proc self).pc =
      (.ok (.send rPid rType rA rB rC rD), pc)) :
    self.val < f.sensors.length ∧ (a.sensor self).next = 10 := by
  have hle : self.val ≤ f.sensors.length := Nat.le_of_not_lt fun hlt => by
    have hfree := (h.represents.free self).mpr hlt
    rw [h.ready] at hfree
    cases hfree
  rcases Nat.lt_or_eq_of_le hle with hlt | heq
  · exact ⟨hlt, (h.represents.sensor self _ (List.getElem?_eq_getElem hlt)).sends hd⟩
  · exact absurd hd (h.represents.actuator self heq).sends

theorem Represents.queue_eq (h : Represents f sys a) (j : Slot) :
    (sys.sched.proc j).mailbox.queue = (a.queue j).duties.map fun d => f.command d.val :=
  (h.holds j).queue_eq

/-- A sensor that sends a value no actuator takes leaves every queue as it is. -/
theorem FlowStep.refused {ends : Bool} (hs : FlowStep hal f self a ends a')
    (hself : self.val < f.sensors.length)
    (hvalue : mbValidatePwmDuty (a.sensor self).value = false) : a'.queue = a.queue := by
  cases hs with
  | send left sensor next known offered =>
      rw [DutyQueue.offer, dif_neg (by rw [hvalue]; decide)] at offered
      obtain ⟨-, rfl⟩ := Prod.mk.inj offered
      exact Function.update_eq_self _ _
  | receive _ actuator => omega
  | spent | load | read | clock | lost | yield | sleep | jump | block | drive | loop => rfl

end Sends

/-- In every run of a flow that compiles, on hardware whose failing reads return a negative
code a register can hold: the duties driven so far are, in order, among the bytes read so
far; they all go to the compiled channel; and after a failed read the send of a sensor
leaves every mailbox as it is. -/
theorem flow_actuates_in_order {flow : ErlTerm} {progs : List (List Byte)} {act : List Byte}
    (h : compile flow = .ok (progs, act)) {hal : Hal} (hhal : hal.FailsNegative) :
    (∀ sys, FlowReached hal progs act sys →
      (dutiesOf sys.trace).Sublist (readsOf sys.trace) ∧
      ∀ pid ch duty reply, Event.hal pid (.pwmSetDuty ch duty) reply ∈ sys.trace →
        compiledChannel flow = .ok (.int ch.toNat)) ∧
    (∀ self sys rc sys', FlowDispatched hal progs act self sys →
      runRound hal maxReductions (sys.machine self) = .ok (rc, System.machine sys' self) →
      ∀ rPid rType rA rB rC rD pc, decode (sys.sched.proc self).program (sys.sched.proc self).pc =
        (.ok (.send rPid rType rA rB rC rD), pc) →
      ∀ earlier reply, replies self.pid sys.trace = earlier ++ [reply] → reply.rc ≠ 0 →
      ∀ j, (sys'.sched.proc j).mailbox.queue = (sys.sched.proc j).mailbox.queue) := by
  obtain ⟨f, rfl, rfl, hchannel⟩ := compile_ok h
  refine ⟨?_, ?_⟩
  · intro sys hr
    obtain ⟨who, a, hrep, hreach⟩ : ∃ who a, Represents f sys a ∧ FlowReach hal f who a := by
      rcases hr with hr | ⟨self, hd⟩
      · obtain ⟨a, hrep, hreach⟩ := flow_refines hr
        exact ⟨none, a, hrep, hreach⟩
      · obtain ⟨a, hslice, hreach⟩ := flow_refines_slice hd
        exact ⟨some self, a, hslice.represents, hreach⟩
    rw [hrep.trace]
    refine ⟨(List.sublist_append_left _ _).trans (hreach.ordered hhal), ?_⟩
    intro pid ch duty reply hmem
    have hon : ch = BitVec.ofInt 8 f.channel := (hreach.events _ hmem).1
    have hrange := f.channel_range
    have hnat : (ch.toNat : ℤ) = f.channel := by
      rw [hon, BitVec.toNat_ofInt]
      omega
    rw [hchannel, hnat]
  · intro self sys rc sys' hd hround rPid rType rA rB rC rD pc hsend earlier reply hlast hrc j
    obtain ⟨a, hslice, hreach⟩ := flow_refines_slice hd
    obtain ⟨hlt, hnext⟩ := hslice.sender hsend
    obtain ⟨a', hstep, hrep', -⟩ := hslice.round hround
    have hvalue : mbValidatePwmDuty (a.sensor self).value = false := by
      obtain ⟨earlier', reply', hlast', hvalue⟩ := hreach.latest self hlt (.inr hnext)
      obtain ⟨t, bus, addr, reg, rfl⟩ := hreach.reply_eq (show reply' ∈ replies self.pid a.trace by
        rw [hlast']
        exact List.mem_append_right _ (List.mem_singleton_self _))
      rw [hslice.represents.trace, hlast'] at hlast
      obtain ⟨-, hreply⟩ := List.append_inj' hlast rfl
      obtain rfl := (List.cons.inj hreply).1
      obtain ⟨hlo, hhi⟩ := hhal t bus addr reg hrc
      rw [hvalue, readResult, if_neg hrc]
      exact held_failure hlo hhi
    have hqueue := hstep.refused hlt hvalue
    rw [hrep'.queue_eq, hslice.represents.queue_eq, hqueue]

/-- One sensor, two ticks: the byte it reads is driven. -/
theorem flow_actuates_in_order_fastPoll :
    ∃ sys, FlowReached (fun _ _ => ⟨0, 42, 0⟩) [compileSensor 1 0x39 0x92 0 0 2] compileActuator
      sys ∧ dutiesOf sys.trace = [42] ∧ (dutiesOf sys.trace).Sublist (readsOf sys.trace) := by
  have hcompile : compile (fastPoll 0) =
      .ok ([compileSensor 1 0x39 0x92 0 0 2], compileActuator) := rfl
  obtain ⟨sys, hrun, hduties⟩ := exists_ok_of_map
    (runCalls (fun _ _ => ⟨0, 42, 0⟩)
      ⟨deploy [compileSensor 1 0x39 0x92 0 0 2] compileActuator, []⟩ (List.replicate 2 .tick))
    (fun sys => dutiesOf sys.trace) [42] (by decide +kernel)
  have hreached : FlowReached (fun _ _ => ⟨0, 42, 0⟩) [compileSensor 1 0x39 0x92 0 0 2]
      compileActuator sys := .inl (FlowRuns.deployed.ticks hrun)
  have hhal : Hal.FailsNegative fun _ _ => ⟨0, 42, 0⟩ := fun _ _ _ _ hne => absurd rfl hne
  exact ⟨sys, hreached, hduties, ((flow_actuates_in_order hcompile hhal).1 sys hreached).1⟩

end MiniBeam

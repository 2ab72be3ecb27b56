import MiniBeam.Verification.Flow.Order

/-! Which sends of a sensor reach the actuator. The result code of a send takes the place
of the target pid, so after its first send a sensor hardly ever aims at the actuator. -/

namespace MiniBeam

/-- A read whose value is no duty. -/
def HalReply.Refused (r : HalReply) : Prop := mbValidatePwmDuty (held (readResult r)) = false

/-- What a sensor has sent so far leaves its target at the actuator: it sent nothing, or
every value was refused and the code of the refusal, 8, is the actuator's pid. -/
def Aims (n : ℕ) (sent : List HalReply) : Prop :=
  sent = [] ∨ (n = 7 ∧ ∀ r ∈ sent, r.Refused)

/-- The reads whose value was sent. -/
def SensorState.sent (σ : SensorState) (rs : List HalReply) : List HalReply :=
  if σ.next = 9 ∨ σ.next = 10 then rs.dropLast else rs

/-- Where a sensor aims, by what it has sent. -/
structure Aimed (f : FlowSpec) (σ : SensorState) (rs : List HalReply) : Prop where
  loading : σ.next < 8 → rs = []
  aims : 4 ≤ σ.next → Aims f.sensors.length (σ.sent rs) →
    f.resolve (σ.target.setWidth 8) = f.actuatorSlot?
  strays : 4 ≤ σ.next → ¬ Aims f.sensors.length (σ.sent rs) →
    f.resolve (σ.target.setWidth 8) = none

section Aim

variable {hal : Hal} {f : FlowSpec} {who : Option Slot} {self : Slot} {a a' : FlowState}
  {σ : SensorState} {rs : List HalReply}

theorem resolve_eq_none {pid : Byte} (h : pid.toNat = 0 ∨ maxProcesses < pid.toNat ∨
    f.sensors.length + 1 < pid.toNat) : f.resolve pid = none := by
  refine dif_neg ?_
  rintro ⟨hne, hle, hlt⟩
  have hpos : pid.toNat ≠ 0 := fun hz => hne (BitVec.eq_of_toNat_eq hz)
  omega

/-- The pid of the actuator. -/
theorem resolve_actuator {pid : Byte} (hn : f.sensors.length ≤ 7)
    (h : pid.toNat = f.sensors.length + 1) : f.resolve pid = f.actuatorSlot? := by
  have hmax : maxProcesses = 8 := rfl
  have hne : pid ≠ 0 := fun hz => by
    rw [hz] at h
    simp at h
  rw [FlowSpec.resolve, dif_pos ⟨hne, by omega, by omega⟩, FlowSpec.actuatorSlot?,
    dif_pos (by omega)]
  exact congrArg some (Fin.ext (by simp only; omega))

/-- The pid loaded at the start is the actuator's. -/
theorem resolve_actPid (hn : f.sensors.length ≤ 7) :
    f.resolve ((held (BitVec.ofInt 32 f.actPid)).setWidth 8) = f.actuatorSlot? := by
  rw [FlowSpec.actPid, held_ofInt (by omega) (by omega), setWidth_ofInt]
  refine resolve_actuator hn ?_
  rw [BitVec.toNat_ofInt]
  omega

/-- The code of a send, as a pid: only the code of a refused value may name the actuator. -/
theorem resolve_code (hn : f.sensors.length ≤ 7) :
    f.resolve ((held Status.ok.code).setWidth 8) = none ∧
      f.resolve ((held Status.mailboxFull.code).setWidth 8) = none ∧
      f.resolve ((held Status.badPid.code).setWidth 8) = none ∧
      (f.sensors.length = 7 → f.resolve ((held Status.badArgument.code).setWidth 8) =
        f.actuatorSlot?) ∧
      (f.sensors.length ≠ 7 → f.resolve ((held Status.badArgument.code).setWidth 8) = none) := by
  have hok : ((held Status.ok.code).setWidth 8 : Byte).toNat = 0 := by decide
  have hfull : ((held Status.mailboxFull.code).setWidth 8 : Byte).toNat = 9 := by decide
  have hpid : ((held Status.badPid.code).setWidth 8 : Byte).toNat = 11 := by decide
  have harg : ((held Status.badArgument.code).setWidth 8 : Byte).toNat = 8 := by decide
  refine ⟨resolve_eq_none (.inl hok), resolve_eq_none (.inr (.inl ?_)),
    resolve_eq_none (.inr (.inl ?_)), fun h7 => resolve_actuator hn ?_,
    fun h7 => resolve_eq_none (.inr (.inr ?_))⟩
  · rw [hfull]
    decide
  · rw [hpid]
    decide
  · rw [harg, h7]
  · rw [harg]
    omega

/-- A further send that was refused keeps the aim, and nothing else does. -/
theorem aims_append {n : ℕ} {r : HalReply} :
    Aims n (rs ++ [r]) ↔ n = 7 ∧ Aims n rs ∧ r.Refused := by
  constructor
  · rintro (h | ⟨h7, h⟩)
    · exact absurd h (by simp)
    · exact ⟨h7, .inr ⟨h7, fun r' hr' => h r' (by simp [hr'])⟩, h r (by simp)⟩
  · rintro ⟨h7, h, hr⟩
    refine .inr ⟨h7, fun r' hr' => ?_⟩
    rcases List.mem_append.mp hr' with hr' | hr'
    · rcases h with rfl | ⟨-, h⟩
      · cases hr'
      · exact h r' hr'
    · rw [List.mem_singleton.mp hr']
      exact hr

/-- A step that neither loads the target nor sends. -/
theorem Aimed.keep {σ' : SensorState} {rs' : List HalReply} (h : Aimed f σ rs)
    (htarget : σ'.target = σ.target) (hsent : σ'.sent rs' = σ.sent rs) (hnext : 8 ≤ σ.next)
    (hnext' : 8 ≤ σ'.next) : Aimed f σ' rs' := by
  refine ⟨fun hlt => by omega, fun _ haims => ?_, fun _ hstrays => ?_⟩
  · rw [htarget]
    exact h.aims (by omega) (hsent ▸ haims)
  · rw [htarget]
    exact h.strays (by omega) (hsent ▸ hstrays)

end Aim

section Aiming

variable {hal : Hal} {f : FlowSpec} {who : Option Slot} {self : Slot} {a a' : FlowState}

/-- Where the sensors aim. -/
def Aiming (f : FlowSpec) (a : FlowState) : Prop :=
  ∀ i : Slot, i.val < f.sensors.length → Aimed f (a.sensor i) (replies i.pid a.trace)

/-- A step of the running sensor. -/
theorem Aiming.moved (h : Aiming f a) {σ : SensorState}
    (hsensor : a'.sensor = Function.update a.sensor self σ)
    (hreplies : ∀ i : Slot, i ≠ self → replies i.pid a'.trace = replies i.pid a.trace)
    (hself : Aimed f σ (replies self.pid a'.trace)) : Aiming f a' := by
  intro i hlt
  rw [hsensor]
  by_cases hi : i = self
  · subst hi
    rw [Function.update_self]
    exact hself
  · rw [Function.update_of_ne hi, hreplies i hi]
    exact h i hlt

/-- A step that moves no sensor and reads nothing. -/
theorem Aiming.still (h : Aiming f a) (hsensor : a'.sensor = a.sensor)
    (hreplies : ∀ i : Slot, i.val < f.sensors.length →
      replies i.pid a'.trace = replies i.pid a.trace) : Aiming f a' := by
  intro i hlt
  rw [hsensor, hreplies i hlt]
  exact h i hlt

theorem Aimed.load {σ : SensorState} {rs : List HalReply} {k : ℕ} (hn : f.sensors.length ≤ 7)
    (h : Aimed f σ rs) (hk : σ.next = k) (hlt : k < 8) :
    Aimed f { σ with
      next := k + 1
      target := if k = 3 then held (BitVec.ofInt 32 f.actPid) else σ.target } rs := by
  have hempty : rs = [] := h.loading (by omega)
  subst hempty
  have hsent : ∀ σ' : SensorState, σ'.sent [] = [] := fun σ' => by simp [SensorState.sent]
  refine ⟨fun _ => rfl, fun h4 _ => ?_, fun _ hstrays => absurd (.inl (hsent _)) hstrays⟩
  by_cases h3 : k = 3
  · rw [if_pos h3]
    exact resolve_actPid hn
  · rw [if_neg h3]
    exact h.aims (by simp only at h4; omega) (.inl (hsent _))

/-- The result code of a send decides where the next one goes. -/
theorem Aimed.answered {σ : SensorState} {earlier : List HalReply} {r : HalReply} {rc : Status}
    (hn : f.sensors.length ≤ 7)
    (hok : rc = .ok ∨ rc = .mailboxFull → ¬ r.Refused)
    (harg : rc = .badArgument → r.Refused ∧ Aims f.sensors.length earlier)
    (hpid : rc = .badPid → ¬ Aims f.sensors.length earlier)
    (hcodes : rc = .ok ∨ rc = .mailboxFull ∨ rc = .badArgument ∨ rc = .badPid) :
    Aimed f { σ with next := 11, target := held rc.code } (earlier ++ [r]) := by
  obtain ⟨h0, h9, h11, h8, h8'⟩ := resolve_code hn
  have hsent : ({ σ with next := 11, target := held rc.code } : SensorState).sent
      (earlier ++ [r]) = earlier ++ [r] := by simp [SensorState.sent]
  refine ⟨fun hlt => by simp at hlt, fun _ haims => ?_, fun _ hstrays => ?_⟩
  · rw [hsent, aims_append] at haims
    obtain ⟨h7, hbefore, hr⟩ := haims
    rcases hcodes with rfl | rfl | rfl | rfl
    · exact absurd hr (hok (.inl rfl))
    · exact absurd hr (hok (.inr rfl))
    · exact h8 h7
    · exact absurd hbefore (hpid rfl)
  · rw [hsent, aims_append] at hstrays
    rcases hcodes with rfl | rfl | rfl | rfl
    · exact h0
    · exact h9
    · obtain ⟨hr, hbefore⟩ := harg rfl
      exact h8' fun h7 => hstrays ⟨h7, hbefore, hr⟩
    · exact h11

/-- What an offer answers. -/
theorem offer_codes {q q' : DutyQueue} {v : I32} {rc : Status} (h : q.offer v = (rc, q')) :
    (mbValidatePwmDuty v = true ∧ (rc = .ok ∨ rc = .mailboxFull)) ∨
      (mbValidatePwmDuty v = false ∧ rc = .badArgument) := by
  unfold DutyQueue.offer at h
  split at h
  · rename_i hv
    split at h
    · exact .inl ⟨hv, .inl (Prod.mk.inj h).1.symm⟩
    · exact .inl ⟨hv, .inr (Prod.mk.inj h).1.symm⟩
  · rename_i hv
    exact .inr ⟨Bool.eq_false_iff.mpr hv, (Prod.mk.inj h).1.symm⟩

theorem FlowSpec.actuatorSlot?_isSome (hn : f.sensors.length ≤ 7) : f.actuatorSlot? ≠ none := by
  have hmax : maxProcesses = 8 := rfl
  rw [FlowSpec.actuatorSlot?, dif_pos (by omega)]
  simp

/-- A sensor about to send: where its value goes depends on what it sent before the last read. -/
theorem Aiming.resolved (h : Aiming f a) (hl : Latest f a) (hlt : self.val < f.sensors.length)
    (hnext : (a.sensor self).next = 10) :
    ∃ earlier r, replies self.pid a.trace = earlier ++ [r] ∧
      (a.sensor self).value = held (readResult r) ∧
      (Aims f.sensors.length earlier →
        f.resolve ((a.sensor self).target.setWidth 8) = f.actuatorSlot?) ∧
      (¬ Aims f.sensors.length earlier →
        f.resolve ((a.sensor self).target.setWidth 8) = none) := by
  obtain ⟨earlier, r, hlast, hvalue⟩ := hl self hlt (.inr hnext)
  have haim := h self hlt
  rw [hlast] at haim
  have hsent : (a.sensor self).sent (earlier ++ [r]) = earlier := by
    simp [SensorState.sent, hnext]
  refine ⟨earlier, r, hlast, hvalue, fun haims => ?_, fun hstrays => ?_⟩
  · exact haim.aims (by omega) (hsent.symm ▸ haims)
  · exact haim.strays (by omega) (hsent.symm ▸ hstrays)

theorem FlowStep.aiming {ends : Bool} (hs : FlowStep hal f self a ends a')
    (hn : f.sensors.length ≤ 7) (hl : Latest f a) (h : Aiming f a) : Aiming f a' := by
  have hlt : ∀ s : Sensor, f.sensors[self.val]? = some s → self.val < f.sensors.length :=
    fun s hs => (List.getElem?_eq_some_iff.mp hs).1
  cases hs with
  | spent => exact h
  | block => exact h
  | load left sensor next loading =>
      exact h.moved rfl (fun _ _ => rfl) ((h self (hlt _ sensor)).load hn next loading)
  | @read s reply left sensor next answer =>
      refine h.moved rfl (fun i hi => replies_other hi _ _ _) ?_
      refine (h self (hlt _ sensor)).keep rfl ?_ (by omega) (by simp)
      have hreplies : replies self.pid (a.trace ++ [.hal self.pid s.call reply]) =
          replies self.pid a.trace ++ [reply] := by
        rw [replies_append]
        simp [replies, Event.replyTo, Sensor.call]
      simp [SensorState.sent, next, hreplies]
  | @clock s reply left sensor next answer =>
      refine h.moved rfl (fun i hi => replies_other hi _ _ _) ?_
      refine (h self (hlt _ sensor)).keep rfl ?_ (by omega) (by simp)
      have hreplies := ((silent_clock self.pid reply).append a.trace).2.2 self.pid
      simp [SensorState.sent, next, hreplies]
  | lost left sensor next unknown =>
      obtain ⟨earlier, r, hlast, hvalue, haims, -⟩ := h.resolved hl (hlt _ sensor) next
      refine h.moved rfl (fun _ _ => rfl) ?_
      show Aimed f _ (replies self.pid a.trace)
      rw [hlast]
      refine Aimed.answered hn (by simp) (by simp) (fun _ hbefore => ?_) (by simp)
      have hresolve := haims hbefore
      rw [unknown] at hresolve
      exact FlowSpec.actuatorSlot?_isSome hn hresolve.symm
  | @send s i rc q left sensor next known offered =>
      obtain ⟨earlier, r, hlast, hvalue, -, hstrays⟩ := h.resolved hl (hlt _ sensor) next
      have haims : Aims f.sensors.length earlier := by
        by_contra hnot
        have hnone := hstrays hnot
        rw [known] at hnone
        cases hnone
      refine h.moved rfl (fun i _ => ((silent_push _ _ _).append a.trace).2.2 i.pid) ?_
      have hreplies := ((silent_push i.pid (f.command (a.sensor self).value) rc).append
        a.trace).2.2 self.pid
      show Aimed f _ (replies self.pid (a.trace ++ [_]))
      rw [hreplies, hlast]
      rw [hvalue] at offered
      rcases offer_codes offered with ⟨hvalid, hrc⟩ | ⟨hinvalid, rfl⟩
      · have hnot : ¬ r.Refused := fun hr => by
          rw [HalReply.Refused, hvalid] at hr
          cases hr
        refine Aimed.answered hn (fun _ => hnot) ?_ ?_ ?_
        · rintro rfl
          simp at hrc
        · rintro rfl
          simp at hrc
        · rcases hrc with rfl | rfl <;> simp
      · exact Aimed.answered hn (by simp) (fun _ => ⟨hinvalid, haims⟩) (by simp) (by simp)
  | yield left sensor next tight =>
      refine h.moved rfl (fun _ _ => rfl) ?_
      refine (h self (hlt _ sensor)).keep rfl ?_ (by omega) (by simp)
      simp [SensorState.sent, next]
  | @sleep s reply left sensor next paced answer =>
      refine h.moved rfl (fun i hi => replies_other hi _ _ _) ?_
      refine (h self (hlt _ sensor)).keep rfl ?_ (by omega) (by simp)
      have hreplies := ((silent_clock self.pid reply).append a.trace).2.2 self.pid
      simp [SensorState.sent, next, hreplies]
  | jump left sensor next =>
      refine h.moved rfl (fun _ _ => rfl) ?_
      refine (h self (hlt _ sensor)).keep rfl ?_ (by omega) (by simp)
      simp [SensorState.sent, next]
  | loop => exact h
  | receive => exact h.still rfl fun i _ => ((silent_pop _ _).append a.trace).2.2 i.pid
  | drive left actuator =>
      refine h.still rfl fun i hi => replies_other ?_ _ _ _
      rintro rfl
      omega

theorem FlowReach.aiming (h : FlowReach hal f who a) (hn : f.sensors.length ≤ 7) :
    Aiming f a := by
  induction h with
  | start =>
      intro i _
      refine ⟨fun _ => rfl, fun h4 => ?_, fun h4 => ?_⟩ <;> simp [FlowState.initial] at h4
  | idle _ ih => exact ih.still rfl fun i _ => ((silent_clock _ _).append _).2.2 i.pid
  | pick _ _ ih => exact ih.still rfl fun i _ => ((silent_clock _ _).append _).2.2 i.pid
  | step before round ih => exact round.aiming hn before.latest ih
  | stop before round ih => exact round.aiming hn before.latest ih

end Aiming

/-! ### Delivery -/

/-- A sensor about to send the byte it read, while the actuator's queue has room: the value
is appended exactly when the sensor still aims at the actuator. -/
theorem InSlice.delivers {hal : Hal} {f : FlowSpec} {self : Slot} {sys : System} {a : FlowState}
    (hn : f.sensors.length ≤ 7) (h : InSlice f self sys a) (hreach : FlowReach hal f (some self) a)
    (hlt : self.val < f.sensors.length) (hnext : (a.sensor self).next = 10)
    {earlier : List HalReply} {reply : HalReply}
    (hlast : replies self.pid sys.trace = earlier ++ [reply]) (hok : reply.rc = 0)
    {actuator : Slot} (hact : actuator.val = f.sensors.length)
    (hroom : (sys.sched.proc actuator).mailbox.queue.length < mailboxCapacity) :
    ∃ sys', runRound hal maxReductions (sys.machine self) = .ok (none, System.machine sys' self) ∧
      ((sys'.sched.proc actuator).mailbox.queue = (sys.sched.proc actuator).mailbox.queue ++
        [f.command (reply.value.setWidth 32)] ↔ Aims f.sensors.length earlier) := by
  have hslot := FlowSpec.actuatorSlot?_eq hact
  obtain ⟨earlier', reply', hlast', hvalue, hresolved, hunresolved⟩ :=
    (hreach.aiming hn).resolved hreach.latest hlt hnext
  rw [h.represents.trace, hlast'] at hlast
  obtain ⟨rfl, hreply⟩ := List.append_inj' hlast rfl
  obtain rfl := (List.cons.inj hreply).1
  obtain ⟨hheld, hvalid, -⟩ := held_byte hok
  rw [hheld] at hvalue
  have hbudget : a.budget < maxReductions := by
    have hpace := hreach.paced.running self hlt rfl
    have hmax : maxReductions = 64 := rfl
    omega
  rw [h.represents.queue_eq, List.length_map] at hroom
  obtain ⟨ends, sys', a', hrun, hstep, hrep, -⟩ := h.simulated hal
  by_cases haims : Aims f.sensors.length earlier'
  · have hresolve := hresolved haims
    rw [hslot] at hresolve
    have hoffer : (a.queue actuator).offer (a.sensor self).value = (.ok,
        ⟨(a.queue actuator).duties ++ [⟨reply'.value.setWidth 32, hvalid⟩], by
          simpa using Nat.succ_le_of_lt hroom⟩) := by
      rw [hvalue, DutyQueue.offer, dif_pos hvalid, dif_pos hroom]
    cases hstep with
    | send left sensor next known offered =>
        rw [hresolve] at known
        obtain rfl := Option.some.inj known
        rw [hoffer] at offered
        obtain ⟨rfl, rfl⟩ := Prod.mk.inj offered
        refine ⟨sys', hrun, ⟨fun _ => haims, fun _ => ?_⟩⟩
        rw [hrep.queue_eq, h.represents.queue_eq]
        simp
    | lost left sensor next unknown =>
        rw [hresolve] at unknown
        cases unknown
    | spent out => omega
    | load | read | clock | yield | sleep | jump => omega
    | block _ heq | receive _ heq | drive _ heq | loop _ heq => omega
  · have hresolve := hunresolved haims
    cases hstep with
    | send left sensor next known offered =>
        rw [hresolve] at known
        cases known
    | lost left sensor next unknown =>
        refine ⟨sys', hrun, ⟨fun hqueue => ?_, fun h => absurd h haims⟩⟩
        rw [hrep.queue_eq, h.represents.queue_eq] at hqueue
        have hlen := congrArg List.length hqueue
        simp at hlen
    | spent out => omega
    | load | read | clock | yield | sleep | jump => omega
    | block _ heq | receive _ heq | drive _ heq | loop _ heq => omega

/-- In every run of a flow with at most seven sensors: a sensor that is about to send after
a successful read of a value, while the actuator's mailbox has room, appends its command
there exactly when it sends for the first time, or when there are seven sensors and every
value it sent before was refused. -/
theorem flow_delivery_iff {flow : ErlTerm} {progs : List (List Byte)} {act : List Byte}
    (h : compile flow = .ok (progs, act)) (hn : progs.length ≤ 7) {hal : Hal} {self : Slot}
    {sys : System} (hd : FlowDispatched hal progs act self sys) {rPid rType rA rB rC rD : Reg}
    {pc : ℕ} (hsend : decode (sys.sched.proc self).program (sys.sched.proc self).pc =
      (.ok (.send rPid rType rA rB rC rD), pc))
    {earlier : List HalReply} {reply : HalReply}
    (hlast : replies self.pid sys.trace = earlier ++ [reply]) (hok : reply.rc = 0)
    {actuator : Slot} (hact : actuator.val = progs.length)
    (hroom : (sys.sched.proc actuator).mailbox.queue.length < mailboxCapacity) {ch : ℤ}
    (hch : compiledChannel flow = .ok (.int ch)) :
    ∃ sys', runRound hal maxReductions (sys.machine self) = .ok (none, System.machine sys' self) ∧
      ((sys'.sched.proc actuator).mailbox.queue = (sys.sched.proc actuator).mailbox.queue ++
          [⟨CommandType.pwmSetDuty.code, BitVec.ofInt 32 ch, reply.value.setWidth 32, 0, 0⟩] ↔
        earlier = [] ∨ (progs.length = 7 ∧
          ∀ r ∈ earlier, mbValidatePwmDuty (held (readResult r)) = false)) := by
  obtain ⟨f, rfl, rfl, hchannel⟩ := compile_ok h
  rw [hchannel, Except.ok.injEq, ErlTerm.int.injEq] at hch
  obtain rfl := hch
  rw [List.length_map] at hn hact ⊢
  obtain ⟨a, hslice, hreach⟩ := flow_refines_slice hd
  obtain ⟨hlt, hnext⟩ := hslice.sender hsend
  exact hslice.delivers hn hreach hlt hnext hlast hok hact hroom

/-- One sensor that polls without a pause reads 42 twice, and is about to send it again. -/
theorem fastPoll_resends :
    ∃ sys, FlowDispatched (fun _ _ => ⟨0, 42, 0⟩) [compileSensor 1 0x39 0x92 0 0 2]
        compileActuator 0 sys ∧
      decode (sys.sched.proc 0).program (sys.sched.proc 0).pc = (.ok (.send 3 4 5 7 8 8), 66) ∧
      replies (Slot.pid 0) sys.trace = [⟨0, 42, 0⟩] ++ [⟨0, 42, 0⟩] ∧
      (sys.sched.proc 1).mailbox.queue = [] ∧
      (runRound (fun _ _ => ⟨0, 42, 0⟩) maxReductions (sys.machine 0)).map
        (fun r => ((r.2.system sys).sched.proc 1).mailbox.queue) = .ok [] := by
  obtain ⟨sys, hstate, hfacts⟩ := exists_ok_of_map
    (stateAt (fun _ _ => ⟨0, 42, 0⟩) [compileSensor 1 0x39 0x92 0 0 2] compileActuator 2 0 3)
    (fun sys => decide (
      decode (sys.sched.proc 0).program (sys.sched.proc 0).pc = (.ok (.send 3 4 5 7 8 8), 66) ∧
      replies (Slot.pid 0) sys.trace = [⟨0, 42, 0⟩] ++ [⟨0, 42, 0⟩] ∧
      (sys.sched.proc 1).mailbox.queue = [] ∧
      (runRound (fun _ _ => ⟨0, 42, 0⟩) maxReductions (sys.machine 0)).map
        (fun r => ((r.2.system sys).sched.proc 1).mailbox.queue) = .ok [])) true
    (by decide +kernel)
  exact ⟨sys, .at hstate, of_decide_eq_true hfacts⟩

/-- The second send of the sensor is lost. -/
theorem flow_delivery_iff_fastPoll :
    ∃ sys sys', FlowDispatched (fun _ _ => ⟨0, 42, 0⟩) [compileSensor 1 0x39 0x92 0 0 2]
        compileActuator 0 sys ∧
      runRound (fun _ _ => ⟨0, 42, 0⟩) maxReductions (System.machine sys 0) =
        .ok (none, System.machine sys' 0) ∧
      (sys'.sched.proc 1).mailbox.queue ≠
        (sys.sched.proc 1).mailbox.queue ++ [⟨2, 0, 42, 0, 0⟩] := by
  have hcompile : compile (fastPoll 0) =
      .ok ([compileSensor 1 0x39 0x92 0 0 2], compileActuator) := rfl
  have hchannel : compiledChannel (fastPoll 0) = .ok (.int 0) := rfl
  obtain ⟨sys, hd, hsend, hreplies, hqueue, -⟩ := fastPoll_resends
  obtain ⟨sys', hrun, hiff⟩ := flow_delivery_iff hcompile (by decide) hd hsend hreplies rfl
    (show (1 : Slot).val = 1 from rfl) (by rw [hqueue]; decide) hchannel
  refine ⟨sys, sys', hd, hrun, fun happended => ?_⟩
  rcases hiff.mp happended with h | ⟨h, -⟩
  · cases h
  · cases h

/-- The sends of a sensor do not all reach the actuator. -/
theorem flow_delivery_loses :
    ¬ ∀ (self : Slot) (sys : System) (earlier : List HalReply) (reply : HalReply)
        (rPid rType rA rB rC rD : Reg) (pc : ℕ),
      FlowDispatched (fun _ _ => ⟨0, 42, 0⟩) [compileSensor 1 0x39 0x92 0 0 2] compileActuator
        self sys →
      decode (sys.sched.proc self).program (sys.sched.proc self).pc =
        (.ok (.send rPid rType rA rB rC rD), pc) →
      replies self.pid sys.trace = earlier ++ [reply] → reply.rc = 0 →
      (sys.sched.proc 1).mailbox.queue.length < mailboxCapacity →
      ∃ sys', runRound (fun _ _ => ⟨0, 42, 0⟩) maxReductions (sys.machine self) =
          .ok (none, System.machine sys' self) ∧
        (sys'.sched.proc 1).mailbox.queue = (sys.sched.proc 1).mailbox.queue ++
          [⟨CommandType.pwmSetDuty.code, 0, reply.value.setWidth 32, 0, 0⟩] := by
  intro hall
  obtain ⟨sys, hd, hsend, hreplies, hqueue, hround⟩ := fastPoll_resends
  obtain ⟨sys', hrun, happended⟩ := hall 0 sys _ _ _ _ _ _ _ _ _ hd hsend hreplies rfl
    (by rw [hqueue]; decide)
  rw [hrun, Except.map, Except.ok.injEq] at hround
  have hempty : (sys'.sched.proc 1).mailbox.queue = [] := hround
  rw [hempty, hqueue] at happended
  cases happended

end MiniBeam

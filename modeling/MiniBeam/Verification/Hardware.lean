import MiniBeam.Verification.Scheduler.Runs
import MiniBeam.Verification.Step.Encode
import MiniBeam.Verification.Compat.Runs
import Mathlib.Algebra.Group.Nat.Defs

/-! The calls into the GPIO, PWM and I2C drivers. Only `CALL_BIF` makes them, and only with
arguments that passed the range checks before they were narrowed. -/

namespace MiniBeam

/-- The BIF behind a driver call; the clock and the delay are no drivers. -/
def HalCall.driver? : HalCall → Option Bif
  | .gpioWrite _ _ => some .gpioWrite
  | .gpioRead _ => some .gpioRead
  | .pwmSetDuty _ _ => some .pwmSetDuty
  | .pwmConfig _ _ => some .pwmConfig
  | .i2cReadReg _ _ _ => some .i2cReadReg
  | .i2cWriteReg _ _ _ _ => some .i2cWriteReg
  | .monotonicMs => none
  | .delayMs _ => none

/-- The values a driver is called with. -/
def HalCall.values : HalCall → List ℤ
  | .gpioWrite pin level => [pin.toNat, level.toNat]
  | .gpioRead pin => [pin.toNat]
  | .pwmSetDuty channel permille => [channel.toNat, permille.toNat]
  | .pwmConfig channel frequencyHz => [channel.toNat, frequencyHz.toNat]
  | .i2cReadReg bus addr reg => [bus.toNat, addr.toNat, reg.toNat]
  | .i2cWriteReg bus addr reg value => [bus.toNat, addr.toNat, reg.toNat, value.toNat]
  | .monotonicMs => []
  | .delayMs ms => [ms.toInt]

/-- The ranges of the drivers. -/
def HalCall.InRange : HalCall → Prop
  | .gpioWrite pin level => pin.toNat ≤ 39 ∧ (level.toNat = 0 ∨ level.toNat = 1)
  | .gpioRead pin => pin.toNat ≤ 39
  | .pwmSetDuty channel permille => channel.toNat ≤ 7 ∧ permille.toNat ≤ 1000
  | .pwmConfig channel frequencyHz =>
    channel.toNat ≤ 7 ∧ 0 < frequencyHz.toNat ∧ frequencyHz.toNat ≤ 40000
  | .i2cReadReg bus addr reg => bus.toNat ≤ 3 ∧ addr.toNat ≤ 127 ∧ reg.toNat ≤ 255
  | .i2cWriteReg bus addr reg value =>
    bus.toNat ≤ 3 ∧ addr.toNat ≤ 127 ∧ reg.toNat ≤ 255 ∧ value.toNat ≤ 255
  | .monotonicMs => True
  | .delayMs _ => True

/-- The instruction at the pc is a `CALL_BIF` of this call, on the integers its source
registers read as. -/
structure Process.Commands (p : Process) (call : HalCall) : Prop where
  inRange : call.InRange
  source : ∃ bifId args dst pc, decode p.program p.pc = (.ok (.callBif bifId args dst), pc) ∧
    call.driver? = Bif.ofCode? bifId ∧ call.values = args.map fun r => (p.int r).toInt

/-! ### Narrowing -/

/-- A value in the unsigned range of a narrower type survives the cast. -/
theorem toNat_narrow {v : I32} (w hi : ℕ) (hw : hi < 2 ^ w) (h : 0 ≤ v.toInt ∧ v.toInt ≤ hi) :
    ((v.setWidth w).toNat : ℤ) = v.toInt ∧ (v.setWidth w).toNat ≤ hi := by
  have hnat : v.toInt = v.toNat := by
    have hcond := BitVec.toInt_eq_toNat_cond v
    split at hcond <;> omega
  have hlt : v.toNat < 2 ^ w := by omega
  rw [BitVec.toNat_setWidth, Nat.mod_eq_of_lt hlt, hnat]
  omega

theorem narrowed {v : I32} (w hi : ℕ) (hw : hi < 2 ^ w) (h : inRange 0 hi v = true) :
    ((v.setWidth w).toNat : ℤ) = v.toInt ∧ (v.setWidth w).toNat ≤ hi := by
  simp only [inRange, Bool.and_eq_true, decide_eq_true_eq] at h
  exact toNat_narrow w hi hw h

theorem narrowed_level {level : I32} (h : (level == 0 || level == 1) = true) :
    ((level.setWidth 8).toNat : ℤ) = level.toInt ∧
      ((level.setWidth 8).toNat = 0 ∨ (level.setWidth 8).toNat = 1) := by
  simp only [Bool.or_eq_true, beq_iff_eq] at h
  rcases h with rfl | rfl
  · decide
  · decide

theorem narrowed_frequency {freq : I32} (h : mbValidatePwmFrequency freq = true) :
    (freq.toNat : ℤ) = freq.toInt ∧ 0 < freq.toNat ∧ freq.toNat ≤ 40000 := by
  simp only [mbValidatePwmFrequency, Bool.and_eq_true, decide_eq_true_eq] at h
  have hword := toNat_narrow 32 40000 (by decide) ⟨h.1.le, h.2⟩
  rw [BitVec.setWidth_eq] at hword
  omega

/-! ### One instruction -/

theorem checked_eq_ok {α : Type} {ok : Bool} {e : Status} {a b : α} :
    checked ok e a = .ok b ↔ ok = true ∧ a = b := by
  cases ok <;> simp [checked]

/-- A request that passes its checks: the driver, and arguments in its range that are the
integers given. -/
theorem Bif.request_spec {b : Bif} {args : List I32} {call : HalCall} {load : HalReply → I32}
    (h : b.request args = .ok (call, load)) :
    (b = .monotonicMs ∧ call = .monotonicMs) ∨
      (call.driver? = some b ∧ call.InRange ∧ call.values = args.map BitVec.toInt) := by
  have hlen : args.length = b.arity := by
    by_contra hne
    rw [Bif.request_of_ne hne] at h
    cases h
  cases b with
  | monotonicMs =>
      obtain rfl := List.length_eq_zero_iff.mp hlen
      cases h
      exact .inl ⟨rfl, rfl⟩
  | gpioRead =>
      obtain ⟨pin, rfl⟩ := List.length_eq_one_iff.mp hlen
      obtain ⟨hpin, hcall⟩ := checked_eq_ok.mp (show checked (mbValidateGpioPin pin) _ _ = _ from h)
      cases hcall
      have hp := narrowed 8 39 (by decide) hpin
      exact .inr ⟨rfl, hp.2, by simp only [HalCall.values, List.map, hp.1]⟩
  | gpioWrite =>
      obtain ⟨pin, level, rfl⟩ := List.length_eq_two.mp hlen
      obtain ⟨hok, hcall⟩ := checked_eq_ok.mp
        (show checked (mbValidateGpioPin pin && (level == 0 || level == 1)) _ _ = _ from h)
      cases hcall
      rw [Bool.and_eq_true] at hok
      have hp := narrowed 8 39 (by decide) hok.1
      have hl := narrowed_level hok.2
      exact .inr ⟨rfl, ⟨hp.2, hl.2⟩, by simp only [HalCall.values, List.map, hp.1, hl.1]⟩
  | pwmSetDuty =>
      obtain ⟨ch, duty, rfl⟩ := List.length_eq_two.mp hlen
      obtain ⟨hok, hcall⟩ := checked_eq_ok.mp
        (show checked (mbValidatePwmChannel ch && mbValidatePwmDuty duty) _ _ = _ from h)
      cases hcall
      rw [Bool.and_eq_true] at hok
      have hc := narrowed 8 7 (by decide) hok.1
      have hd := narrowed 16 1000 (by decide) hok.2
      exact .inr ⟨rfl, ⟨hc.2, hd.2⟩, by simp only [HalCall.values, List.map, hc.1, hd.1]⟩
  | pwmConfig =>
      obtain ⟨ch, freq, rfl⟩ := List.length_eq_two.mp hlen
      obtain ⟨hok, hcall⟩ := checked_eq_ok.mp
        (show checked (mbValidatePwmChannel ch && mbValidatePwmFrequency freq) _ _ = _ from h)
      cases hcall
      rw [Bool.and_eq_true] at hok
      have hc := narrowed 8 7 (by decide) hok.1
      have hf := narrowed_frequency hok.2
      exact .inr ⟨rfl, ⟨hc.2, hf.2⟩, by simp only [HalCall.values, List.map, hc.1, hf.1]⟩
  | i2cReadReg =>
      obtain ⟨bus, addr, reg, rfl⟩ := List.length_eq_three.mp hlen
      obtain ⟨hok, hcall⟩ := checked_eq_ok.mp (show checked
        (mbValidateI2cBus bus && mbValidateI2cAddr addr && mbValidateU8Value reg) _ _ = _ from h)
      cases hcall
      simp only [Bool.and_eq_true] at hok
      have hb := narrowed 8 3 (by decide) hok.1.1
      have ha := narrowed 8 127 (by decide) hok.1.2
      have hr := narrowed 8 255 (by decide) hok.2
      exact .inr ⟨rfl, ⟨hb.2, ha.2, hr.2⟩,
        by simp only [HalCall.values, List.map, hb.1, ha.1, hr.1]⟩
  | i2cWriteReg =>
      obtain ⟨bus, addr, reg, value, rfl⟩ :
          ∃ bus addr reg value, args = [bus, addr, reg, value] := by
        rcases args with _ | ⟨x, _ | ⟨y, _ | ⟨z, _ | ⟨v, _ | ⟨_, _⟩⟩⟩⟩⟩ <;>
          simp [Bif.arity] at hlen ⊢
      obtain ⟨hok, hcall⟩ := checked_eq_ok.mp (show checked (mbValidateI2cBus bus &&
        mbValidateI2cAddr addr && mbValidateU8Value reg && mbValidateU8Value value) _ _ = _ from h)
      cases hcall
      simp only [Bool.and_eq_true] at hok
      have hb := narrowed 8 3 (by decide) hok.1.1.1
      have ha := narrowed 8 127 (by decide) hok.1.1.2
      have hr := narrowed 8 255 (by decide) hok.1.2
      have hv := narrowed 8 255 (by decide) hok.2
      exact .inr ⟨rfl, ⟨hb.2, ha.2, hr.2, hv.2⟩,
        by simp only [HalCall.values, List.map, hb.1, ha.1, hr.1, hv.1]⟩

/-- Events among which no driver is called. -/
def Undriven (events : List Event) : Prop :=
  ∀ pid call reply, .hal pid call reply ∈ events → call.driver? = none

theorem Undriven.nil : Undriven [] := nofun

theorem Undriven.hal {call : HalCall} (h : call.driver? = none) (pid : Byte) (reply : HalReply) :
    Undriven [.hal pid call reply] := by
  intro pid' call' reply' hmem
  cases List.mem_singleton.mp hmem
  exact h

section Step

variable {hal : Hal} {scheduled : Bool} {preOpPc : ℕ} {trace : Trace} {p p' : Process}
  {rc : Status} {events : List Event}

/-- A `CALL_BIF` that decodes: an error and no call, or `MB_OK` and the one call of its BIF. -/
theorem callBif_calls {bifId dst : Byte} {args : List Reg}
    (h : Instr.run hal scheduled preOpPc p trace (.callBif bifId args dst) =
      .ok (rc, p', events)) :
    (rc ≠ .ok ∧ events = []) ∨ (rc = .ok ∧ ∃ b call load, Bif.ofCode? bifId = some b ∧
      b.request (args.map p.int) = .ok (call, load) ∧
      events = [.hal p.pid call (hal trace call)]) := by
  simp only [Instr.run] at h
  split at h
  · cases hb : Bif.ofCode? bifId with
    | none =>
        simp only [bifRequest, hb, pure_ok, Except.ok.injEq, Prod.mk.injEq] at h
        obtain ⟨rfl, -, rfl⟩ := h
        exact .inl ⟨by decide, rfl⟩
    | some b =>
        simp only [bifRequest, hb] at h
        cases hreq : b.request (args.map p.int) with
        | error e =>
            simp only [hreq, pure_ok, Except.ok.injEq, Prod.mk.injEq] at h
            obtain ⟨rfl, -, rfl⟩ := h
            exact .inl ⟨fun hok => b.request_ne_ok _ (hok ▸ hreq), rfl⟩
        | ok made =>
            simp only [hreq, pure_ok, Except.ok.injEq, Prod.mk.injEq] at h
            obtain ⟨rfl, -, rfl⟩ := h
            exact .inr ⟨rfl, b, made.1, made.2, rfl, hreq, rfl⟩
  · simp only [pure_ok, Except.ok.injEq, Prod.mk.injEq] at h
    obtain ⟨rfl, -, rfl⟩ := h
    exact .inl ⟨by decide, rfl⟩

/-- The other instructions call no driver. -/
theorem Instr.run_undriven {i : Instr} (hi : ∀ bifId args dst, i ≠ .callBif bifId args dst)
    (h : i.run hal scheduled preOpPc p trace = .ok (rc, p', events)) : Undriven events := by
  cases i with
  | callBif bifId args dst => exact absurd rfl (hi bifId args dst)
  | recvCmd t a b c d =>
      obtain ⟨popped, -, h⟩ := bind_eq_ok.mp h
      rcases popped with _ | ⟨cmd, mb⟩
      · dsimp only at h
        split at h <;> cases h <;> exact .nil
      · cases h
        simp [Undriven]
  | sleepMs r =>
      simp only [Instr.run] at h
      split at h <;> cases h <;> exact .hal rfl _ _
  | jmpIfZero r offset =>
      simp only [Instr.run] at h
      split at h <;> cases h <;> exact .nil
  | makeTuple dst elems | cons dst hd tl =>
      obtain ⟨⟨rc', q⟩, -, h⟩ := bind_eq_ok.mp h
      cases h
      exact .nil
  | tupleElem dst tuple index =>
      simp only [Instr.run] at h
      split at h
      · obtain ⟨hdr, -, h⟩ := bind_eq_ok.mp h
        split at h
        · cases h
          exact .nil
        · split at h
          · obtain ⟨w, -, h⟩ := bind_eq_ok.mp h
            cases h
            exact .nil
          · cases h
            exact .nil
      · cases h
        exact .nil
  | head dst cell | tail dst cell =>
      simp only [Instr.run] at h
      split at h
      · obtain ⟨w, -, h⟩ := bind_eq_ok.mp h
        cases h
        exact .nil
      · cases h
        exact .nil
  | _ =>
      cases h
      exact .nil

theorem sendFrom_undriven {s s' : Scheduler} {self : Slot} {rPid rType rA rB rC rD : Reg}
    (h : sendFrom s self rPid rType rA rB rC rD = .ok (s', events)) : Undriven events := by
  obtain ⟨found, -, h⟩ := bind_eq_ok.mp h
  cases found with
  | none =>
      cases h
      exact .nil
  | some target =>
      obtain ⟨⟨rc, after⟩, -, h⟩ := bind_eq_ok.mp h
      cases h
      simp [Undriven]

theorem execInstr_undriven {m m' : Machine} {i : Instr}
    (hi : ∀ bifId args dst, i ≠ .callBif bifId args dst)
    (h : execInstr hal preOpPc m i = .ok (rc, m')) :
    ∃ events, m'.trace = m.trace ++ events ∧ Undriven events := by
  by_cases hsend : i.IsSend
  · obtain ⟨a, b, c, d, e, f, rfl⟩ := hsend
    rcases m with ⟨p | ⟨s, self⟩, t⟩
    · cases h
      exact ⟨[], (List.append_nil _).symm, .nil⟩
    · obtain ⟨⟨after, events⟩, hsend, h⟩ := bind_eq_ok.mp h
      cases h
      exact ⟨events, rfl, sendFrom_undriven hsend⟩
  · obtain ⟨q, events, hrun, rfl⟩ := execInstr_ok hal _ hsend h
    exact ⟨events, rfl, Instr.run_undriven hi hrun⟩

/-- A step calls no driver, or executes a `CALL_BIF` and makes its one call. -/
theorem mbProcStep_calls {m m' : Machine} (h : mbProcStep hal m = .ok (rc, m')) :
    ∃ events, m'.trace = m.trace ++ events ∧ (Undriven events ∨ ∃ call,
      m.proc.Commands call ∧ events = [.hal m.proc.pid call (hal m.trace call)]) := by
  rw [mbProcStep_eq] at h
  split at h
  · cases h
    exact ⟨[], (List.append_nil _).symm, .inl .nil⟩
  · split at h
    · cases h
      exact ⟨[], (List.append_nil _).symm, .inl .nil⟩
    · rename_i i pc hd
      by_cases hi : ∀ bifId args dst, i ≠ .callBif bifId args dst
      · obtain ⟨events, htrace, hquiet⟩ := execInstr_undriven hi h
        exact ⟨events, htrace, .inl hquiet⟩
      · simp only [not_forall, not_not] at hi
        obtain ⟨bifId, args, dst, rfl⟩ := hi
        have hsend : ¬ (Instr.callBif bifId args dst).IsSend := Instr.not_isSend nofun
        obtain ⟨q, events, hrun, rfl⟩ := execInstr_ok hal _ hsend h
        rw [Machine.proc_setProc] at hrun
        refine ⟨events, rfl, ?_⟩
        rcases callBif_calls hrun with ⟨-, rfl⟩ | ⟨-, b, call, load, hb, hreq, rfl⟩
        · exact .inl .nil
        · rcases b.request_spec hreq with ⟨rfl, rfl⟩ | ⟨hdriver, hrange, hvalues⟩
          · exact .inl (.hal rfl _ _)
          · refine .inr ⟨call, ⟨hrange, bifId, args, dst, pc, hd, hdriver.trans hb.symm, ?_⟩, rfl⟩
            rw [hvalues, List.map_map]
            rfl

/-- A step whose opcode is `CALL_BIF`: an error and no call, or `MB_OK` and the one call of
its BIF. -/
theorem mbProcStep_callBif {m m' : Machine} (hrun : m.proc.halted = false)
    (hop : m.proc.program[m.proc.pc]? = some 0x10) (h : mbProcStep hal m = .ok (rc, m')) :
    (rc ≠ .ok ∧ m'.trace = m.trace) ∨ (rc = .ok ∧ ∃ bifId args dst pc b call,
      decode m.proc.program m.proc.pc = (.ok (.callBif bifId args dst), pc) ∧
      Bif.ofCode? bifId = some b ∧
      m'.trace = m.trace ++ [.hal m.proc.pid call (hal m.trace call)] ∧
      ((b = .monotonicMs ∧ call = .monotonicMs) ∨ call.driver? = some b)) := by
  rw [mbProcStep_eq, if_neg (by simp [hrun])] at h
  rcases hd : decode m.proc.program m.proc.pc with ⟨e | i, pc⟩
  · rw [hd] at h
    cases h
    have herror := decode_proper _ m.proc.pc rc (by rw [hd])
    exact .inl ⟨Status.isError_ne_ok herror, rfl⟩
  · obtain ⟨op, hbyte, hopcode, -⟩ := decode_opcode hd
    obtain rfl : op = 0x10 := Option.some.inj (hbyte.symm.trans hop)
    obtain ⟨bifId, args, dst, rfl⟩ : ∃ bifId args dst, i = .callBif bifId args dst := by
      cases i <;> first | exact ⟨_, _, _, rfl⟩ | cases hopcode
    rw [hd] at h
    have hsend : ¬ (Instr.callBif bifId args dst).IsSend := Instr.not_isSend nofun
    obtain ⟨q, events, hexec, rfl⟩ := execInstr_ok hal _ hsend h
    rw [Machine.proc_setProc] at hexec
    rcases callBif_calls hexec with ⟨hne, rfl⟩ | ⟨rfl, b, call, load, hb, hreq, rfl⟩
    · exact .inl ⟨hne, List.append_nil _⟩
    · refine .inr ⟨rfl, bifId, args, dst, pc, b, call, rfl, hb, rfl, ?_⟩
      rcases b.request_spec hreq with hclock | ⟨hdriver, -⟩
      · exact .inl hclock
      · exact .inr hdriver

end Step

/-! ### Runs -/

/-- Every driver call of a trace was made by a `CALL_BIF` executed in one of the states `S`. -/
def Commanded (S : Machine → Prop) (t : Trace) : Prop :=
  ∀ before pid call reply after, t = before ++ .hal pid call reply :: after →
    call.driver? ≠ none →
      ∃ m, S m ∧ m.trace = before ∧ m.proc.pid = pid ∧ m.proc.Commands call

namespace Commanded

variable {hal : Hal} {S : Machine → Prop} {t : Trace} {m m' : Machine}

theorem nil : Commanded S [] := by
  intro before pid call reply after h
  simp at h

theorem undriven {events : List Event} (h : Commanded S t) (hu : Undriven events) :
    Commanded S (t ++ events) := by
  intro before pid call reply after hsplit hdriver
  rcases List.append_eq_append_iff.mp hsplit with ⟨rest, rfl, hevents⟩ | ⟨rest, rfl, hafter⟩
  · exact absurd (hu pid call reply (by simp [hevents])) hdriver
  · cases rest with
    | nil =>
        rw [List.nil_append] at hafter
        exact absurd (hu pid call reply (hafter ▸ List.mem_cons_self)) hdriver
    | cons e rest =>
        obtain ⟨rfl, -⟩ := List.cons.inj hafter
        exact h before pid call reply rest rfl hdriver

theorem step {rc : Status} (h : Commanded S m.trace) (hm : S m)
    (hstep : mbProcStep hal m = .ok (rc, m')) : Commanded S m'.trace := by
  obtain ⟨events, htrace, hu | ⟨call, hcall, rfl⟩⟩ := mbProcStep_calls hstep
  · rw [htrace]
    exact h.undriven hu
  · rw [htrace]
    intro before pid call' reply after hsplit hdriver
    rcases List.append_eq_append_iff.mp hsplit with ⟨rest, rfl, hevents⟩ | ⟨rest, htr, hafter⟩
    · cases rest with
      | nil =>
          rw [List.nil_append, List.cons.injEq, Event.hal.injEq] at hevents
          obtain ⟨⟨rfl, rfl, -⟩, -⟩ := hevents
          exact ⟨m, hm, (List.append_nil _).symm, rfl, hcall⟩
      | cons e rest => simp at hevents
    · cases rest with
      | nil =>
          rw [List.nil_append, List.cons.injEq, Event.hal.injEq] at hafter
          obtain ⟨⟨rfl, rfl, -⟩, -⟩ := hafter
          exact ⟨m, hm, htr.trans (List.append_nil _), rfl, hcall⟩
      | cons e rest =>
          obtain ⟨rfl, -⟩ := List.cons.inj hafter
          exact h before pid call' reply rest htr hdriver

theorem round {maxSteps : ℕ} {rc : Option Status} (h : Commanded S m.trace) (hm : S m)
    (hround : runRound hal maxSteps m = .ok (rc, m')) : Commanded S m'.trace := by
  unfold runRound at hround
  split at hround
  · cases hround
    exact h
  · obtain ⟨⟨rc', m₁⟩, hstep, hround⟩ := bind_eq_ok.mp hround
    have hnext := h.step hm hstep
    dsimp only at hround
    split at hround
    · cases hround
      exact hnext
    · split at hround
      · cases hround
        exact hnext
      · cases hround
        exact hnext

/-- The loop of `mb_proc_run`, when the states `S` are closed under its rounds. -/
theorem loop {maxSteps fuel : ℕ} {rc : Status}
    (hnext : ∀ m m', S m → runRound hal maxSteps m = .ok (none, m') → S m')
    (h : Commanded S m.trace) (hm : S m) (hloop : runLoop hal maxSteps fuel m = .ok (rc, m')) :
    Commanded S m'.trace := by
  induction fuel generalizing m with
  | zero => cases hloop
  | succ fuel ih =>
      obtain ⟨⟨ends, m₁⟩, hround, hloop⟩ := bind_eq_ok.mp hloop
      cases ends with
      | some rc' =>
          cases hloop
          exact h.round hm hround
      | none => exact ih (h.round hm hround) (hnext m m₁ hm hround) hloop

end Commanded

section Runs

variable {hal : Hal}

/-- The states in which a process of the scheduler is about to execute an instruction. -/
def SchedExecuting (hal : Hal) (m : Machine) : Prop :=
  ∃ self sys, Dispatched hal self sys ∧ m = sys.machine self

theorem SchedExecuting.next {m m' : Machine} (h : SchedExecuting hal m)
    (hround : runRound hal maxReductions m = .ok (none, m')) : SchedExecuting hal m' := by
  obtain ⟨self, sys, hd, rfl⟩ := h
  obtain ⟨sys', rfl, -⟩ := runRound_moves hd.ready hround
  exact ⟨self, sys', hd.next hround, rfl⟩

theorem Commanded.pick {sys sys₁ : System} {found : Option Slot}
    (h : Commanded (SchedExecuting hal) sys.trace)
    (hpick : mbSchedPick hal sys = .ok (found, sys₁)) :
    Commanded (SchedExecuting hal) sys₁.trace := by
  obtain ⟨found', current, hpick', -⟩ := mbSchedPick_ok hal sys
  rw [hpick] at hpick'
  cases hpick'
  exact h.undriven (.hal rfl _ _)

theorem Runs.commanded {sys : System} (h : Runs hal sys) :
    Commanded (SchedExecuting hal) sys.trace := by
  apply Runs.induct (P := fun sys => Commanded (SchedExecuting hal) sys.trace) .nil ?_ h
  intro sys c sys' hruns ih hcall
  cases c with
  | spawn program =>
      cases hcall
      exact ih
  | send dst cmd =>
      obtain ⟨⟨rc, sys₁⟩, hsend, hcall⟩ := bind_eq_ok.mp hcall
      cases hcall
      rcases mbSchedSend_push hsend with rfl | ⟨-, hd⟩
      · exact ih
      · exact ih.undriven (by simp [Undriven])
  | tick =>
      obtain ⟨⟨rc, sys₁⟩, htick, hcall⟩ := bind_eq_ok.mp hcall
      cases hcall
      rcases mbSchedTick_cases htick with ⟨hpick, -⟩ | ⟨self, sys₂, hpick, hrun⟩
      · exact ih.pick hpick
      · exact Commanded.loop (fun _ _ hm => hm.next) (ih.pick hpick)
          ⟨self, _, .start hruns hpick, rfl⟩ hrun

theorem Reached.commanded {sys : System} (h : Reached hal sys) :
    Commanded (SchedExecuting hal) sys.trace := by
  rcases h with h | ⟨self, hd⟩
  · exact h.commanded
  · induction hd with
    | @start sys sys₁ run pick =>
        have hpicked : Commanded (SchedExecuting hal) sys₁.trace := run.commanded.pick pick
        exact hpicked
    | next before round ih => exact ih.round ⟨self, _, before, rfl⟩ round

theorem VmRuns.commanded {vm₀ vm : VmState} {t : Trace} (h : VmRuns hal vm₀ vm t) :
    Commanded (VmDispatched hal vm₀) t := by
  apply VmRuns.induct (P := fun _ t => Commanded (VmDispatched hal vm₀) t) .nil ?_ h
  intro vm t c vm' t' hruns ih hcall
  have hstart : VmDispatched hal vm₀ ⟨.compat (mbVmToProc vm), t⟩ := .start hruns
  cases c with
  | push cmd =>
      obtain ⟨⟨rc, vm₁⟩, -, hcall⟩ := bind_eq_ok.mp hcall
      cases hcall
      exact ih
  | pop =>
      obtain ⟨⟨cmd, vm₁⟩, -, hcall⟩ := bind_eq_ok.mp hcall
      cases hcall
      exact ih
  | step =>
      obtain ⟨⟨rc, vm₁, t₁⟩, hvm, hcall⟩ := bind_eq_ok.mp hcall
      obtain ⟨⟨rc', m⟩, hstep, hend⟩ := bind_eq_ok.mp hvm
      cases hend
      cases hcall
      exact Commanded.step (m := ⟨.compat (mbVmToProc vm), t⟩) ih hstart hstep
  | run fuel maxSteps =>
      obtain ⟨⟨rc, vm₁, t₁⟩, hvm, hcall⟩ := bind_eq_ok.mp hcall
      obtain ⟨⟨rc', m⟩, hrun, hend⟩ := bind_eq_ok.mp hvm
      cases hend
      cases hcall
      exact Commanded.loop (m := ⟨.compat (mbVmToProc vm), t⟩) (fun _ _ hm => hm.next)
        ih hstart hrun

end Runs

/-- On any machine, a step calls a driver only by a `CALL_BIF` in range on its untagged source
registers, and a `CALL_BIF` makes one call when it succeeds and none when it does not. In
every run, of the scheduler or of a single VM, all driver calls were made by such steps. -/
theorem drivers_stay_in_range (hal : Hal) :
    (∀ m rc m', mbProcStep hal m = .ok (rc, m') →
      (∃ events, m'.trace = m.trace ++ events ∧ (Undriven events ∨ ∃ call,
        m.proc.Commands call ∧ events = [.hal m.proc.pid call (hal m.trace call)])) ∧
      (m.proc.halted = false → m.proc.program[m.proc.pc]? = some 0x10 →
        (rc ≠ .ok ∧ m'.trace = m.trace) ∨ (rc = .ok ∧ ∃ bifId args dst pc b call,
          decode m.proc.program m.proc.pc = (.ok (.callBif bifId args dst), pc) ∧
          Bif.ofCode? bifId = some b ∧
          m'.trace = m.trace ++ [.hal m.proc.pid call (hal m.trace call)] ∧
          ((b = .monotonicMs ∧ call = .monotonicMs) ∨ call.driver? = some b)))) ∧
    (∀ sys, Reached hal sys → Commanded (SchedExecuting hal) sys.trace) ∧
    ∀ vm₀ vm t, VmRuns hal vm₀ vm t → Commanded (VmDispatched hal vm₀) t :=
  ⟨fun _ _ _ h => ⟨mbProcStep_calls h, fun hrun hop => mbProcStep_callBif hrun hop h⟩,
    fun _ h => h.commanded, fun _ _ _ h => h.commanded⟩

/-- `CALL_BIF PWM_SET_DUTY` on 0 and 500, and then on channel 500. -/
def twoDuties : List Byte :=
  [0x01, 0, 0, 0, 0, 0, 0x01, 1, 0xF4, 1, 0, 0, 0x10, 2, 2, 0, 1, 5, 0x10, 2, 2, 1, 1, 5]

/-- The first call is made, on the integers of its registers, and the second is refused. -/
theorem drivers_stay_in_range_twoDuties : ∃ (sys : System) (m₁ m₂ : Machine),
    runCalls idleHal System.init [.spawn twoDuties, .tick] = .ok sys ∧
    sys.trace = [.hal 0 .monotonicMs ⟨0, 0, 0⟩, .hal 1 (.pwmSetDuty 0 500) ⟨0, 0, 0⟩] ∧
    (∃ m, SchedExecuting idleHal m ∧ m.trace = [.hal 0 .monotonicMs ⟨0, 0, 0⟩] ∧
      m.proc.pid = 1 ∧ m.proc.Commands (.pwmSetDuty 0 500)) ∧
    mbProcStep idleHal ⟨.compat ((((mbProcInit 1 twoDuties).setReg 0 (makeSmallint 0)).setReg 1
      (makeSmallint 500)).setPc 12), []⟩ = .ok (.ok, m₁) ∧
    m₁.trace = [.hal 1 (.pwmSetDuty 0 500) ⟨0, 0, 0⟩] ∧
    mbProcStep idleHal m₁ = .ok (.badArgument, m₂) ∧ m₂.trace = m₁.trace := by
  obtain ⟨sys, hrun, htrace⟩ := exists_ok_of_map
    (runCalls idleHal System.init [.spawn twoDuties, .tick]) System.trace
    [.hal 0 .monotonicMs ⟨0, 0, 0⟩, .hal 1 (.pwmSetDuty 0 500) ⟨0, 0, 0⟩] (by decide +kernel)
  obtain ⟨⟨rc₁, m₁⟩, hstep₁, hend₁⟩ := exists_ok_of_map
    (mbProcStep idleHal ⟨.compat ((((mbProcInit 1 twoDuties).setReg 0 (makeSmallint 0)).setReg 1
      (makeSmallint 500)).setPc 12), []⟩)
    (fun r => (r.1, decide (r.2.trace = [.hal 1 (.pwmSetDuty 0 500) ⟨0, 0, 0⟩] ∧
        r.2.proc.halted = false ∧ r.2.proc.program[r.2.proc.pc]? = some 0x10),
      (mbProcStep idleHal r.2).map Prod.fst))
    (.ok, true, .ok .badArgument) (by decide +kernel)
  simp only [Prod.mk.injEq, decide_eq_true_eq] at hend₁
  obtain ⟨rfl, ⟨htrace₁, hhalted₁, hopcode₁⟩, hstep₂⟩ := hend₁
  obtain ⟨⟨rc₂, m₂⟩, hstep₂, hrc₂⟩ := exists_ok_of_map _ _ _ hstep₂
  obtain rfl : rc₂ = .badArgument := hrc₂
  obtain ⟨hsteps, hsched, -⟩ := drivers_stay_in_range idleHal
  have hcommanded := hsched sys (.inl ⟨_, hrun⟩) [.hal 0 .monotonicMs ⟨0, 0, 0⟩] 1
    (.pwmSetDuty 0 500) ⟨0, 0, 0⟩ [] htrace (by decide)
  have hrefused : m₂.trace = m₁.trace := by
    rcases (hsteps m₁ _ m₂ hstep₂).2 hhalted₁ hopcode₁ with ⟨-, hsame⟩ | ⟨hrc, -⟩
    · exact hsame
    · cases hrc
  exact ⟨sys, m₁, m₂, hrun, htrace, hcommanded, hstep₁, htrace₁, hstep₂, hrefused⟩

end MiniBeam

import MiniBeam.Verification.Heap.Terms
import MiniBeam.Verification.Step.Encode

/-! Commands and the registers that carry them: the two validators, and what `RECV_CMD`
loads. -/

namespace MiniBeam

/-! ### Commands and BIFs -/

/-- The BIF that carries out a command. -/
def CommandType.bif : CommandType → Option Bif
  | .none => Option.none
  | .gpioWrite => some .gpioWrite
  | .pwmSetDuty => some .pwmSetDuty
  | .i2cRead => some .i2cReadReg
  | .gpioRead => some .gpioRead
  | .i2cWrite => some .i2cWriteReg
  | .pwmConfig => some .pwmConfig

/-- The number of a BIF in `CALL_BIF`. -/
def Bif.code : Bif → Byte
  | .gpioWrite => 1
  | .pwmSetDuty => 2
  | .i2cReadReg => 3
  | .monotonicMs => 4
  | .gpioRead => 5
  | .i2cWriteReg => 6
  | .pwmConfig => 7

/-- The fields of a command that its BIF takes, in the order of the arguments. -/
def Bif.fields {α : Type} (a b c d : α) : Bif → List α
  | .gpioWrite | .pwmSetDuty | .pwmConfig => [a, b]
  | .gpioRead => [a]
  | .i2cReadReg => [a, b, c]
  | .i2cWriteReg => [a, b, c, d]
  | .monotonicMs => []

theorem Bif.fields_map {α β : Type} (f : α → β) (a b c d : α) (n : Bif) :
    (n.fields a b c d).map f = n.fields (f a) (f b) (f c) (f d) := by
  cases n <;> rfl

@[simp] theorem Bif.ofCode?_code (b : Bif) : Bif.ofCode? b.code = some b := by
  cases b <;> rfl

@[simp] theorem CommandType.ofCode?_code (type : CommandType) :
    CommandType.ofCode? type.code = some type := by
  cases type <;> rfl

theorem CommandType.code_range (type : CommandType) :
    0 ≤ type.code.toInt ∧ type.code.toInt ≤ 6 := by
  cases type <;> decide

/-- A valid command has a type. -/
theorem type_of_valid {cmd : Command} (h : mbValidateCommand cmd = .ok) :
    ∃ type : CommandType, cmd.type = type.code := by
  have hcode : ∀ n : I32, ∀ type, CommandType.ofCode? n = some type → n = type.code := by
    intro n type hn
    apply BitVec.eq_of_toNat_eq
    unfold CommandType.ofCode? at hn
    split at hn <;> cases hn <;> assumption
  cases htype : CommandType.ofCode? cmd.type with
  | none =>
      simp only [mbValidateCommand, htype] at h
      cases h
  | some type => exact ⟨type, hcode _ _ htype⟩

section Validators

variable {type : CommandType} {b : Bif} {cmd : Command}

/-- Both validators make the same test. -/
theorem request_fields (hbif : type.bif = some b) (htype : cmd.type = type.code) :
    ∃ ok made, mbValidateCommand cmd = (if ok then .ok else .badArgument) ∧
      b.request (b.fields cmd.a cmd.b cmd.c cmd.d) = checked ok .badArgument made := by
  unfold mbValidateCommand
  rw [htype, CommandType.ofCode?_code]
  cases type with
  | none => cases hbif
  | gpioWrite =>
      cases hbif
      exact ⟨mbValidateGpioPin cmd.a && (cmd.b == 0 || cmd.b == 1), _, rfl, rfl⟩
  | gpioRead =>
      cases hbif
      exact ⟨mbValidateGpioPin cmd.a, _, rfl, rfl⟩
  | pwmSetDuty =>
      cases hbif
      exact ⟨mbValidatePwmChannel cmd.a && mbValidatePwmDuty cmd.b, _, rfl, rfl⟩
  | pwmConfig =>
      cases hbif
      exact ⟨mbValidatePwmChannel cmd.a && mbValidatePwmFrequency cmd.b, _, rfl, rfl⟩
  | i2cRead =>
      cases hbif
      exact ⟨mbValidateI2cBus cmd.a && mbValidateI2cAddr cmd.b && mbValidateU8Value cmd.c, _, rfl,
        rfl⟩
  | i2cWrite =>
      cases hbif
      exact ⟨mbValidateI2cBus cmd.a && mbValidateI2cAddr cmd.b && mbValidateU8Value cmd.c &&
        mbValidateU8Value cmd.d, _, rfl, rfl⟩

theorem inRange_fits {lo hi : ℤ} {v : I32} (hlo : -2 ^ 27 ≤ lo) (hhi : hi < 2 ^ 27)
    (h : inRange lo hi v = true) : held v = v := by
  simp only [inRange, Bool.and_eq_true, decide_eq_true_eq] at h
  exact held_of_range (by omega) (by omega)

theorem level_fits {v : I32} (h : (v == 0 || v == 1) = true) : held v = v := by
  simp only [Bool.or_eq_true, beq_iff_eq] at h
  rcases h with rfl | rfl <;> decide

theorem frequency_fits {v : I32} (h : mbValidatePwmFrequency v = true) : held v = v := by
  simp only [mbValidatePwmFrequency, Bool.and_eq_true, decide_eq_true_eq] at h
  exact held_of_range (by omega) (by omega)

/-- The fields that a valid command uses fit into registers. -/
theorem fields_held (hbif : type.bif = some b) (htype : cmd.type = type.code)
    (hvalid : mbValidateCommand cmd = .ok) :
    (b.fields cmd.a cmd.b cmd.c cmd.d).map held = b.fields cmd.a cmd.b cmd.c cmd.d := by
  have hpin : ∀ {v}, mbValidateGpioPin v = true → held v = v :=
    inRange_fits (by decide) (by decide)
  have hchannel : ∀ {v}, mbValidatePwmChannel v = true → held v = v :=
    inRange_fits (by decide) (by decide)
  have hduty : ∀ {v}, mbValidatePwmDuty v = true → held v = v :=
    inRange_fits (by decide) (by decide)
  have hbus : ∀ {v}, mbValidateI2cBus v = true → held v = v :=
    inRange_fits (by decide) (by decide)
  have haddr : ∀ {v}, mbValidateI2cAddr v = true → held v = v :=
    inRange_fits (by decide) (by decide)
  have hbyte : ∀ {v}, mbValidateU8Value v = true → held v = v :=
    inRange_fits (by decide) (by decide)
  unfold mbValidateCommand at hvalid
  rw [htype, CommandType.ofCode?_code] at hvalid
  cases type with
  | none => cases hbif
  | gpioWrite =>
      cases hbif
      simp only [ite_eq_left_iff, reduceCtorEq, imp_false, not_not, Bool.and_eq_true] at hvalid
      simp only [Bif.fields, List.map, hpin hvalid.1, level_fits hvalid.2]
  | gpioRead =>
      cases hbif
      simp only [ite_eq_left_iff, reduceCtorEq, imp_false, not_not] at hvalid
      simp only [Bif.fields, List.map, hpin hvalid]
  | pwmSetDuty =>
      cases hbif
      simp only [ite_eq_left_iff, reduceCtorEq, imp_false, not_not, Bool.and_eq_true] at hvalid
      simp only [Bif.fields, List.map, hchannel hvalid.1, hduty hvalid.2]
  | pwmConfig =>
      cases hbif
      simp only [ite_eq_left_iff, reduceCtorEq, imp_false, not_not, Bool.and_eq_true] at hvalid
      simp only [Bif.fields, List.map, hchannel hvalid.1, frequency_fits hvalid.2]
  | i2cRead =>
      cases hbif
      simp only [ite_eq_left_iff, reduceCtorEq, imp_false, not_not, Bool.and_eq_true] at hvalid
      simp only [Bif.fields, List.map, hbus hvalid.1.1, haddr hvalid.1.2, hbyte hvalid.2]
  | i2cWrite =>
      cases hbif
      simp only [ite_eq_left_iff, reduceCtorEq, imp_false, not_not, Bool.and_eq_true] at hvalid
      simp only [Bif.fields, List.map, hbus hvalid.1.1.1, haddr hvalid.1.1.2, hbyte hvalid.1.2,
        hbyte hvalid.2]

end Validators

/-! ### The two instructions -/

section Step

variable (hal : Hal) {m : Machine} {next : ℕ}

/-- A `CALL_BIF` with a register for its result returns the status of its request. -/
theorem mbProcStep_request {bifId : Byte} {args : List Reg} {dst : Reg}
    (hh : m.proc.halted = false)
    (hd : decode m.proc.program m.proc.pc = (.ok (.callBif bifId args (regByte dst)), next)) :
    ∃ m', mbProcStep hal m = .ok (match bifRequest bifId (args.map m.proc.int) with
      | .error e => e
      | .ok _ => .ok, m') := by
  have hdst : (regByte dst).toNat < regCount := by
    rw [regByte_toNat]
    exact dst.isLt
  have hint : (m.proc.setPc next).int = m.proc.int := rfl
  have hsend : ¬ (Instr.callBif bifId args (regByte dst)).IsSend := Instr.not_isSend nofun
  rw [mbProcStep_exec hal hh hd, execInstr_run hal _ hsend, Machine.proc_setProc,
    Instr.run, dif_pos hdst, hint]
  cases bifRequest bifId (args.map m.proc.int) with
  | error e => exact ⟨_, rfl⟩
  | ok made => exact ⟨_, rfl⟩

/-- What the registers give back of the fields of a command. -/
def Command.held (cmd : Command) : Command :=
  ⟨MiniBeam.held cmd.type, MiniBeam.held cmd.a, MiniBeam.held cmd.b, MiniBeam.held cmd.c,
    MiniBeam.held cmd.d⟩

theorem Process.int_fail (p : Process) (rc : Status) : (p.fail rc).int = p.int := rfl

theorem Process.reg_fail (p : Process) (rc : Status) : (p.fail rc).reg = p.reg := rfl

theorem Process.command_fail (p : Process) (rc : Status) :
    (p.fail rc).command = p.command := rfl

theorem Process.command_loadCommand {p : Process} {rType rA rB rC rD : Reg}
    (hnodup : [rType, rA, rB, rC, rD].Nodup) (cmd : Command) :
    (p.loadCommand rType rA rB rC rD cmd).command rType rA rB rC rD = cmd.held := by
  simp only [List.nodup_cons, List.mem_cons, List.not_mem_nil, or_false, not_or] at hnodup
  obtain ⟨⟨hta, htb, htc, htd⟩, ⟨hab, hac, had⟩, ⟨hbc, hbd⟩, hcd, -⟩ := hnodup
  simp only [Process.command, Process.int, Process.loadCommand, Process.reg_setReg]
  simp only [Ne.symm hta, Ne.symm htb, Ne.symm htc, Ne.symm htd, Ne.symm hab, Ne.symm hac,
    Ne.symm had, Ne.symm hbc, Ne.symm hbd, Ne.symm hcd, if_true, if_false]
  rfl

/-- A `RECV_CMD` that finds a command loads it, or the status of its validation. -/
theorem mbProcStep_recv {rType rA rB rC rD : Reg} {cmd : Command} {mb : Mailbox}
    (hh : m.proc.halted = false)
    (hd : decode m.proc.program m.proc.pc = (.ok (.recvCmd rType rA rB rC rD), next))
    (hpop : mbMailboxPopRaw m.proc.mailbox = .ok (some (cmd, mb))) :
    mbProcStep hal m = .ok (.ok, (m.setProc ((((m.proc.setPc next).setMailbox mb).loadCommand
      rType rA rB rC rD (if mbValidateCommand cmd = .ok then cmd
        else ⟨CommandType.none.code, (mbValidateCommand cmd).code, 0, 0, 0⟩)).fail
        (mbValidateCommand cmd))).emit [.pop m.proc.pid cmd]) := by
  have hpop' : mbMailboxPopRaw (m.proc.setPc next).mailbox = .ok (some (cmd, mb)) := hpop
  have hsend : ¬ (Instr.recvCmd rType rA rB rC rD).IsSend := Instr.not_isSend nofun
  rw [mbProcStep_exec hal hh hd, execInstr_run hal _ hsend, Machine.proc_setProc, Instr.run, hpop']
  simp only [ok_bind, pure_ok, if_true, Machine.setProc_setProc, Process.setPc_pid]

end Step

theorem CommandType.code_inj {type type' : CommandType} (h : type.code = type'.code) :
    type = type' := by
  have hcode := congrArg CommandType.ofCode? h
  rwa [CommandType.ofCode?_code, CommandType.ofCode?_code, Option.some.injEq] at hcode

theorem held_code (type : CommandType) : held type.code = type.code := by
  have hrange := type.code_range
  exact held_of_range (by omega) (by omega)

theorem held_eq_iff (v : I32) : held v = v ↔ -2 ^ 27 ≤ v.toInt ∧ v.toInt < 2 ^ 27 := by
  constructor
  · intro h
    have hint := congrArg BitVec.toInt h
    rw [held_toInt] at hint
    have hlo := Int.le_bmod (x := v.toInt) (m := 2 ^ 28) (by decide)
    have hhi := Int.bmod_lt (x := v.toInt) (m := 2 ^ 28) (by decide)
    rw [hint] at hlo hhi
    exact ⟨by simpa using hlo, by simpa using hhi⟩
  · exact fun h => held_of_range h.1 h.2

/-- The registers give back a command: its type, the fields its type uses, and of any other
field the low 28 bits. -/
structure Process.Carries (p : Process) (rType rA rB rC rD : Reg) (cmd : Command) : Prop where
  type : p.int rType = cmd.type
  used : ∀ (type : CommandType) (b : Bif), type.bif = some b → cmd.type = type.code →
    b.fields (p.int rA) (p.int rB) (p.int rC) (p.int rD) = b.fields cmd.a cmd.b cmd.c cmd.d
  field : ∀ f ∈ [(rA, cmd.a), (rB, cmd.b), (rC, cmd.c), (rD, cmd.d)],
    (p.int f.1).toInt = f.2.toInt.bmod (2 ^ 28) ∧
      (p.int f.1 = f.2 ↔ -2 ^ 27 ≤ f.2.toInt ∧ f.2.toInt < 2 ^ 27)

theorem Process.carries_of_held {p : Process} {rType rA rB rC rD : Reg} {cmd : Command}
    (hvalid : mbValidateCommand cmd = .ok) (h : p.command rType rA rB rC rD = cmd.held) :
    p.Carries rType rA rB rC rD cmd := by
  injection h with ht ha hb hc hd
  have hfield : ∀ {r : Reg} {v : I32}, p.int r = held v → (p.int r).toInt = v.toInt.bmod (2 ^ 28) ∧
      (p.int r = v ↔ -2 ^ 27 ≤ v.toInt ∧ v.toInt < 2 ^ 27) := by
    intro r v hr
    rw [hr]
    exact ⟨held_toInt v, held_eq_iff v⟩
  refine ⟨?_, fun type b hbif htype => ?_, fun f hf => ?_⟩
  · obtain ⟨type, htype⟩ := type_of_valid hvalid
    rw [ht, htype, held_code]
  · rw [ha, hb, hc, hd, ← Bif.fields_map, fields_held hbif htype hvalid]
  · simp only [List.mem_cons, List.not_mem_nil, or_false] at hf
    rcases hf with rfl | rfl | rfl | rfl
    · exact hfield ha
    · exact hfield hb
    · exact hfield hc
    · exact hfield hd

/-- A `RECV_CMD` that takes a valid command carries it. -/
theorem mbProcStep_carries (hal : Hal) {m : Machine} {rType rA rB rC rD : Reg} {next : ℕ}
    {cmd : Command} {mb : Mailbox} (hh : m.proc.halted = false)
    (hd : decode m.proc.program m.proc.pc = (.ok (.recvCmd rType rA rB rC rD), next))
    (hnodup : [rType, rA, rB, rC, rD].Nodup) (hvalid : mbValidateCommand cmd = .ok)
    (hpop : mbMailboxPopRaw m.proc.mailbox = .ok (some (cmd, mb))) :
    ∃ p', mbProcStep hal m = .ok (.ok, (m.setProc p').emit [.pop m.proc.pid cmd]) ∧
      p'.command rType rA rB rC rD = cmd.held ∧ p'.Carries rType rA rB rC rD cmd := by
  have hstep := mbProcStep_recv hal hh hd hpop
  rw [if_pos hvalid] at hstep
  have hcommand := Process.command_loadCommand (p := (m.proc.setPc next).setMailbox mb) hnodup cmd
  rw [← Process.command_fail _ (mbValidateCommand cmd)] at hcommand
  exact ⟨_, hstep, hcommand, Process.carries_of_held hvalid hcommand⟩

/-- The command whose registers a BIF finds after a `RECV_CMD` is one that was accepted. -/
theorem loaded_valid {p : Process} {rType rA rB rC rD : Reg} {cmd : Command} {type : CommandType}
    {b : Bif} (hnodup : [rType, rA, rB, rC, rD].Nodup) (hbif : type.bif = some b)
    (htype : ((p.loadCommand rType rA rB rC rD (if mbValidateCommand cmd = .ok then cmd
        else ⟨CommandType.none.code, (mbValidateCommand cmd).code, 0, 0, 0⟩)).int rType) =
      type.code) :
    mbValidateCommand cmd = .ok ∧ cmd.type = type.code := by
  have hheld := congrArg Command.type (p.command_loadCommand hnodup
    (if mbValidateCommand cmd = .ok then cmd
      else ⟨CommandType.none.code, (mbValidateCommand cmd).code, 0, 0, 0⟩))
  change Process.int _ rType = _ at hheld
  rw [htype] at hheld
  by_cases hvalid : mbValidateCommand cmd = .ok
  · obtain ⟨type', htype'⟩ := type_of_valid hvalid
    rw [if_pos hvalid] at hheld
    change type.code = held cmd.type at hheld
    rw [htype', held_code] at hheld
    exact ⟨hvalid, htype'.trans hheld.symm⟩
  · rw [if_neg hvalid] at hheld
    change type.code = held CommandType.none.code at hheld
    rw [held_code] at hheld
    obtain rfl := CommandType.code_inj hheld
    cases hbif

/-- What the registers give back of integers that they hold whole. -/
theorem Process.map_int {p : Process} {rs : List Reg} {vs : List I32}
    (hregs : rs.map p.reg = vs.map makeSmallint) (hheld : ∀ v ∈ vs, held v = v) :
    rs.map p.int = vs := by
  calc rs.map p.int
      = (rs.map p.reg).map getSmallint := (List.map_map ..).symm
    _ = vs.map held := by rw [hregs, List.map_map]; rfl
    _ = vs := by rw [List.map_congr_left hheld, List.map_id']

theorem Bif.mem_of_mem_fields {b : Bif} {cmd : Command} {v : I32}
    (h : v ∈ b.fields cmd.a cmd.b cmd.c cmd.d) : v ∈ [cmd.a, cmd.b, cmd.c, cmd.d] := by
  cases b <;> simp only [Bif.fields, List.mem_cons, List.not_mem_nil, or_false] at h ⊢ <;> tauto

section Checked

variable {m : Machine} {rA rB rC rD dst : Reg} {next : ℕ} {cmd : Command} {type : CommandType}
  {b : Bif}

/-- A `CALL_BIF` on the fields of a command makes the check of `mb_validate_command`. -/
theorem mbProcStep_checks (hal : Hal) (hbif : type.bif = some b) (htype : cmd.type = type.code)
    (hh : m.proc.halted = false)
    (hd : decode m.proc.program m.proc.pc =
      (.ok (.callBif b.code (b.fields rA rB rC rD) (regByte dst)), next))
    (hints : (b.fields rA rB rC rD).map m.proc.int = b.fields cmd.a cmd.b cmd.c cmd.d) :
    ∃ rc m', mbProcStep hal m = .ok (rc, m') ∧
      (mbValidateCommand cmd = .ok ↔ rc ≠ .badArgument) ∧
      (mbValidateCommand cmd = .ok → rc = .ok) := by
  obtain ⟨m', hstep⟩ := mbProcStep_request hal hh hd
  obtain ⟨ok, made, hvalid, hrequest⟩ := request_fields hbif htype
  refine ⟨_, m', hstep, ?_⟩
  rw [hints, hvalid, bifRequest, Bif.ofCode?_code]
  dsimp only
  rw [hrequest]
  cases ok <;> simp [checked]

end Checked

/-- Mailbox validation accepts a hardware command exactly when `CALL_BIF` of its BIF, with the
fields in the argument registers, does not refuse its arguments; so a command that `RECV_CMD`
loads is never refused by its own BIF. -/
theorem validators_agree (hal : Hal) :
    (∀ (type : CommandType) (b : Bif) (cmd : Command), type.bif = some b →
      cmd.type = type.code →
      (∀ v ∈ [cmd.a, cmd.b, cmd.c, cmd.d], -2 ^ 27 ≤ v.toInt ∧ v.toInt < 2 ^ 27) →
      ∀ (m : Machine) (rA rB rC rD dst : Reg) (next : ℕ), m.proc.halted = false →
        decode m.proc.program m.proc.pc =
          (.ok (.callBif b.code (b.fields rA rB rC rD) (regByte dst)), next) →
        (b.fields rA rB rC rD).map m.proc.reg =
          (b.fields cmd.a cmd.b cmd.c cmd.d).map makeSmallint →
        ∃ rc m', mbProcStep hal m = .ok (rc, m') ∧
          (mbValidateCommand cmd = .ok ↔ rc ≠ .badArgument)) ∧
    ∀ (m m₁ : Machine) (rc : Status) (rType rA rB rC rD : Reg) (next : ℕ) (cmd : Command)
      (mb : Mailbox), m.proc.halted = false →
      decode m.proc.program m.proc.pc = (.ok (.recvCmd rType rA rB rC rD), next) →
      [rType, rA, rB, rC, rD].Nodup →
      mbMailboxPopRaw m.proc.mailbox = .ok (some (cmd, mb)) →
      mbProcStep hal m = .ok (rc, m₁) →
      ∀ (type : CommandType) (b : Bif), type.bif = some b → m₁.proc.int rType = type.code →
      ∀ (m₂ : Machine) (dst : Reg) (next₂ : ℕ), m₂.proc.halted = false →
        decode m₂.proc.program m₂.proc.pc =
          (.ok (.callBif b.code (b.fields rA rB rC rD) (regByte dst)), next₂) →
        (b.fields rA rB rC rD).map m₂.proc.reg = (b.fields rA rB rC rD).map m₁.proc.reg →
        ∃ m₃, mbProcStep hal m₂ = .ok (.ok, m₃) := by
  constructor
  · intro type b cmd hbif htype hrange m rA rB rC rD dst next hh hd hregs
    have hheld : ∀ v ∈ b.fields cmd.a cmd.b cmd.c cmd.d, held v = v := by
      intro v hv
      obtain ⟨hlo, hhi⟩ := hrange v (Bif.mem_of_mem_fields hv)
      exact held_of_range hlo hhi
    obtain ⟨rc, m', hstep, hchecks, -⟩ :=
      mbProcStep_checks hal hbif htype hh hd (Process.map_int hregs hheld)
    exact ⟨rc, m', hstep, hchecks⟩
  · intro m m₁ rc rType rA rB rC rD next cmd mb hh hd hnodup hpop hstep type b hbif htype m₂ dst
      next₂ hh₂ hd₂ hregs
    rw [mbProcStep_recv hal hh hd hpop] at hstep
    cases hstep
    rw [Machine.proc_emit, Machine.proc_setProc, Process.int_fail] at htype
    rw [Machine.proc_emit, Machine.proc_setProc, Process.reg_fail] at hregs
    obtain ⟨hvalid, hcode⟩ := loaded_valid hnodup hbif htype
    have hcommand := Process.command_loadCommand (p := (m.proc.setPc next).setMailbox mb) hnodup cmd
    rw [if_pos hvalid] at hregs
    have hints : (b.fields rA rB rC rD).map m₂.proc.int = b.fields cmd.a cmd.b cmd.c cmd.d := by
      calc (b.fields rA rB rC rD).map m₂.proc.int
          = ((b.fields rA rB rC rD).map m₂.proc.reg).map getSmallint := (List.map_map ..).symm
        _ = (b.fields rA rB rC rD).map (((m.proc.setPc next).setMailbox mb).loadCommand rType rA rB
              rC rD cmd).int := by
            rw [hregs, List.map_map]
            rfl
        _ = b.fields (held cmd.a) (held cmd.b) (held cmd.c) (held cmd.d) := by
            rw [Bif.fields_map]
            injection hcommand with _ ha hb hc hd
            rw [ha, hb, hc, hd]
        _ = b.fields cmd.a cmd.b cmd.c cmd.d := by
            rw [← Bif.fields_map, fields_held hbif hcode hvalid]
    obtain ⟨rc, m₃, hstep₃, -, haccepts⟩ := mbProcStep_checks hal hbif hcode hh₂ hd₂ hints
    rw [haccepts hvalid] at hstep₃
    exact ⟨m₃, hstep₃⟩

/-- `RECV_CMD`, and `CALL_BIF PWM_SET_DUTY` on the fields it loaded. -/
def recvDuty : List Byte := [0x20, 0, 1, 2, 3, 4, 0x10, 2, 2, 1, 2, 5]

/-- A mailbox that holds a duty of 500. -/
def oneDuty : Mailbox :=
  { Mailbox.zero with items := Mailbox.zero.items.set 0 ⟨2, 0, 500, 0, 0⟩, tail := 1, count := 1 }

/-- The `CALL_BIF` is next, with 1500 in every register. -/
def badDuty : Process :=
  { mbProcInit 1 recvDuty with pc := 6, regs := .replicate regCount (makeSmallint 1500) }

/-- A duty of 500 is received and not refused by its BIF; 1500 is refused by both validators. -/
theorem validators_agree_recvDuty : ∃ m₁ m₂ m₃,
    mbMailboxPushRaw Mailbox.zero ⟨2, 0, 500, 0, 0⟩ = .ok (.ok, oneDuty) ∧
    mbProcStep idleHal ⟨.compat ((mbProcInit 1 recvDuty).setMailbox oneDuty), []⟩ =
      .ok (.ok, m₁) ∧
    mbProcStep idleHal m₁ = .ok (.ok, m₂) ∧
    mbValidateCommand ⟨2, 1500, 1500, 0, 0⟩ ≠ .ok ∧
    mbProcStep idleHal ⟨.compat badDuty, []⟩ = .ok (.badArgument, m₃) := by
  obtain ⟨⟨rc₁, m₁⟩, hstep₁, hend₁⟩ := exists_ok_of_map
    (mbProcStep idleHal ⟨.compat ((mbProcInit 1 recvDuty).setMailbox oneDuty), []⟩)
    (fun r => (r.1, decide (r.2.proc.halted = false ∧ r.2.proc.program = recvDuty ∧
      r.2.proc.pc = 6 ∧ r.2.proc.int 0 = 2)))
    (.ok, true) (by decide +kernel)
  simp only [Prod.mk.injEq, decide_eq_true_eq] at hend₁
  obtain ⟨rfl, hhalted, hprogram, hpc, htype⟩ := hend₁
  have hrecv : decode recvDuty 0 = (.ok (.recvCmd 0 1 2 3 4), 6) := rfl
  have hcall : decode recvDuty 6 = (.ok (.callBif 2 [1, 2] 5), 12) := rfl
  have hcall₁ : decode m₁.proc.program m₁.proc.pc = (.ok (.callBif 2 [1, 2] 5), 12) := by
    rw [hprogram, hpc, hcall]
  have hpush : mbMailboxPushRaw Mailbox.zero ⟨2, 0, 500, 0, 0⟩ = .ok (.ok, oneDuty) := rfl
  have hpop : mbMailboxPopRaw oneDuty =
      .ok (some (⟨2, 0, 500, 0, 0⟩, { oneDuty with head := 1, count := 0 })) := rfl
  have hregs : [1, 2].map badDuty.reg = [makeSmallint 1500, makeSmallint 1500] := by
    decide +kernel
  have hrange : ∀ v ∈ [(1500 : I32), 1500, 0, 0], -2 ^ 27 ≤ v.toInt ∧ v.toInt < 2 ^ 27 := by
    simp
  obtain ⟨hagree, haccept⟩ := validators_agree idleHal
  obtain ⟨m₂, hstep₂⟩ := haccept ⟨.compat ((mbProcInit 1 recvDuty).setMailbox oneDuty), []⟩ m₁ .ok
    0 1 2 3 4 6 ⟨2, 0, 500, 0, 0⟩ _ rfl hrecv (by decide) hpop hstep₁ .pwmSetDuty .pwmSetDuty rfl
    htype m₁ 5 12 hhalted hcall₁ rfl
  obtain ⟨rc, m₃, hstep₃, hiff⟩ := hagree .pwmSetDuty .pwmSetDuty ⟨2, 1500, 1500, 0, 0⟩ rfl rfl
    hrange ⟨.compat badDuty, []⟩ 1 2 3 4 5 12 rfl hcall hregs
  have hrefused : mbValidateCommand ⟨2, 1500, 1500, 0, 0⟩ ≠ .ok := by decide
  obtain rfl : rc = .badArgument := not_not.mp (mt hiff.mpr hrefused)
  exact ⟨m₁, m₂, m₃, hpush, hstep₁, hstep₂, hrefused, hstep₃⟩

end MiniBeam

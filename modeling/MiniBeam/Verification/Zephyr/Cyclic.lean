import MiniBeam.Verification.App
import MiniBeam.Verification.Program.Annotation
import MiniBeam.Verification.Zephyr.Emit

/-! The cyclic program of the Zephyr application under the scheduler: every command is served by
one turn of the loop, in the order of arrival, and its event registers tell the last turn. -/

namespace MiniBeam

attribute [local instance] regCount_neZero

/-! ### Turns -/

/-- The event registers of the cyclic program. -/
@[ext] structure Published where
  type : Term
  id : Term
  bus : Term
  addr : Term
  reg : Term
  value : Term
  ts : Term

/-- The event registers in the register file: `OS2_REG_EVENT_MARK`, `OS2_REG_SENSOR_ID`,
`OS2_REG_EVT_BUS`, `OS2_REG_EVT_ADDR`, `OS2_REG_EVT_REG`, `OS2_REG_VALUE` and `OS2_REG_TS`. -/
def Regs.published (r : Regs) : Published := ⟨r 10, r 9, r 11, r 12, r 13, r 7, r 8⟩

/-- The I/O of a command in the cyclic program: a duty for `MB_CMD_PWM_SET_DUTY`, and an I2C read
for every other type, whatever it asks for. -/
def Command.service (cmd : Command) : Except Status (HalCall × (HalReply → I32)) :=
  if cmd.type = CommandType.pwmSetDuty.code then
    bifRequest 2 [MiniBeam.held cmd.a, MiniBeam.held cmd.b]
  else bifRequest 3 [MiniBeam.held cmd.a, MiniBeam.held cmd.b, MiniBeam.held cmd.c]

/-- The event of a served command. The id of a duty is the third field of its command. -/
def Published.mark (cmd : Command) (value : Term) (clock : HalReply) : Published where
  type := makeSmallint cmd.type
  id := makeSmallint (if cmd.type = CommandType.pwmSetDuty.code then cmd.c else cmd.d)
  bus := makeSmallint cmd.a
  addr := makeSmallint cmd.b
  reg := makeSmallint (if cmd.type = CommandType.pwmSetDuty.code then 0 else cmd.c)
  value := value
  ts := makeSmallint clock.ms

/-- The histories of the cyclic program at the start of its loop, with the event registers: a
turn for each command received. A turn without an I/O leaves the value of an earlier one. -/
inductive Served (pid : Byte) : Trace → Published → Prop
  | start : Served pid [] ⟨makeSmallint 0, 0, 0, 0, 0, 0, 0⟩
  | idle {h : Trace} {pub : Published} {cmd : Command} (clock : HalReply)
    (before : Served pid h pub)
      (none : cmd.type = CommandType.none.code) :
      Served pid (h ++ [.pop pid cmd] ++ [.hal pid .monotonicMs clock]) pub
  | acted {h : Trace} {pub : Published} {cmd : Command} {call : HalCall} {load : HalReply → I32}
      (reply clock : HalReply) (before : Served pid h pub) (some : cmd.type ≠ CommandType.none.code)
      (service : cmd.service = .ok (call, load)) :
      Served pid (h ++ [.pop pid cmd] ++ [.hal pid call reply] ++ [.hal pid .monotonicMs clock])
        (.mark cmd (makeSmallint (load reply)) clock)
  | refused {h : Trace} {pub : Published} {cmd : Command} {e : Status} (clock : HalReply)
      (before : Served pid h pub) (some : cmd.type ≠ CommandType.none.code)
      (service : cmd.service = .error e) :
      Served pid (h ++ [.pop pid cmd] ++ [.hal pid .monotonicMs clock]) (.mark cmd pub.value clock)

/-- The HAL calls of the turn of a command. -/
def Command.turn (cmd : Command) : List HalCall :=
  if cmd.type = CommandType.none.code then [.monotonicMs]
  else match cmd.service with
    | .ok (call, _) => [call, .monotonicMs]
    | .error _ => [.monotonicMs]

theorem halCalls_append (t u : Trace) : halCalls (t ++ u) = halCalls t ++ halCalls u :=
  List.filterMap_append ..

@[simp] theorem halCalls_hal (pid : Byte) (call : HalCall) (reply : HalReply) :
    halCalls [.hal pid call reply] = [call] := rfl

@[simp] theorem halCalls_pop (pid : Byte) (cmd : Command) : halCalls [.pop pid cmd] = [] := rfl

/-- The calls of a history are the turns of the commands received, in order. -/
theorem Served.calls {pid : Byte} {h : Trace} {pub : Published} (hs : Served pid h pub) :
    halCalls h = (received pid h).flatMap Command.turn := by
  have hpop : ∀ cmd, received pid [.pop pid cmd] = [cmd] := fun cmd => by simp
  induction hs with
  | start => rfl
  | idle clock _ hnone ih =>
      simp only [halCalls_append, received_append, halCalls_hal, halCalls_pop, received_hal, hpop,
        ih, List.append_nil, List.flatMap_append, List.flatMap_cons, List.flatMap_nil,
        Command.turn, hnone, if_true]
  | acted reply clock _ hsome hservice ih =>
      simp only [halCalls_append, received_append, halCalls_hal, halCalls_pop, received_hal, hpop,
        ih, List.append_nil, List.flatMap_append, List.flatMap_cons, List.flatMap_nil,
        Command.turn, hsome, if_false, hservice]
      rw [List.append_assoc]
      rfl
  | refused clock _ hsome hservice ih =>
      simp only [halCalls_append, received_append, halCalls_hal, halCalls_pop, received_hal, hpop,
        ih, List.append_nil, List.flatMap_append, List.flatMap_cons, List.flatMap_nil,
        Command.turn, hsome, if_false, hservice]

/-- A duty and a read are served by the call they ask for. -/
theorem turn_of_valid {cmd : Command} {type : CommandType} (hvalid : mbValidateCommand cmd = .ok)
    (htype : cmd.type = type.code) (hserved : type = .pwmSetDuty ∨ type = .i2cRead) :
    ∃ call, cmd.call? = some call ∧ cmd.turn = [call, .monotonicMs] := by
  have hheld := fun b (hbif : type.bif = some b) => fields_held hbif htype hvalid
  unfold mbValidateCommand at hvalid
  rw [htype, CommandType.ofCode?_code] at hvalid
  rcases hserved with rfl | rfl
  · refine ⟨_, by rw [Command.call?, htype]; rfl, ?_⟩
    have hfits := hheld _ rfl
    simp only [Bif.fields, List.map, List.cons.injEq, and_true] at hfits
    simp only [ite_eq_left_iff, reduceCtorEq, imp_false, not_not] at hvalid
    have hservice : cmd.service =
        checked (mbValidatePwmChannel cmd.a && mbValidatePwmDuty cmd.b) .badArgument
          (.pwmSetDuty (cmd.a.setWidth 8) (cmd.b.setWidth 16), HalReply.rc) := by
      rw [Command.service, if_pos htype, hfits.1, hfits.2]
      rfl
    rw [hvalid, checked, if_pos rfl] at hservice
    rw [Command.turn, if_neg (by rw [htype]; decide), hservice]
  · refine ⟨_, by rw [Command.call?, htype]; rfl, ?_⟩
    have hfits := hheld _ rfl
    simp only [Bif.fields, List.map, List.cons.injEq, and_true] at hfits
    simp only [ite_eq_left_iff, reduceCtorEq, imp_false, not_not] at hvalid
    have hservice : cmd.service = checked (mbValidateI2cBus cmd.a && mbValidateI2cAddr cmd.b &&
        mbValidateU8Value cmd.c) .badArgument
          (.i2cReadReg (cmd.a.setWidth 8) (cmd.b.setWidth 8) (cmd.c.setWidth 8), readResult) := by
      rw [Command.service, if_neg (by rw [htype]; decide), hfits.1, hfits.2.1, hfits.2.2]
      rfl
    rw [hvalid, checked, if_pos rfl] at hservice
    rw [Command.turn, if_neg (by rw [htype]; decide), hservice]

/-! ### The annotation -/

/-- The constants of the loop. -/
structure Regs.Constants (r : Regs) : Prop where
  idle : r 6 = makeSmallint 20
  pwm : r 14 = makeSmallint CommandType.pwmSetDuty.code

/-- The registers of the command in service. -/
structure Regs.Loaded (r : Regs) (cmd : Command) : Prop where
  type : r 0 = makeSmallint cmd.type
  a : r 1 = makeSmallint cmd.a
  b : r 2 = makeSmallint cmd.b
  c : r 3 = makeSmallint cmd.c
  d : r 4 = makeSmallint cmd.d

/-- A command was received and not served yet. -/
structure Took (pid : Byte) (r : Regs) (h : Trace) (cmd : Command) : Prop where
  constants : r.Constants
  loaded : r.Loaded cmd
  valid : mbValidateCommand cmd = .ok
  before : ∃ h₀, h = h₀ ++ [.pop pid cmd] ∧ Served pid h₀ r.published

/-- A turn is over but for its event registers, which it will fill as told. -/
def Turned (pid : Byte) (r : Regs) (h : Trace) (pub : Published) : Prop :=
  r.Constants ∧ Served pid h pub

/-- The assertion at each instruction of the cyclic program. -/
def cyclicAt (pid : Byte) : Annotation
  | 0, r, h => h = [] ∧ r = fun _ => 0
  | 1, r, h => h = [] ∧ r = Function.update (fun _ => 0) 6 (makeSmallint 20)
  | 2, r, h => h = [] ∧ r = Function.update (Function.update (fun _ => 0) 6 (makeSmallint 20)) 10
      (makeSmallint 0)
  | 3, r, h => Turned pid r h r.published
  | 4, r, h => ∃ cmd, Took pid r h cmd
  | 5, r, h => ∃ cmd, Took pid r h cmd ∧ cmd.type ≠ CommandType.none.code
  | 6, r, h => ∃ cmd, Took pid r h cmd ∧ cmd.type ≠ CommandType.none.code ∧
      (r 15 = makeSmallint 0 ↔ cmd.type = CommandType.pwmSetDuty.code)
  | 7, r, h => ∃ cmd, Took pid r h cmd ∧ cmd.type ≠ CommandType.none.code ∧
      cmd.type ≠ CommandType.pwmSetDuty.code
  | 8, r, h => r.Constants ∧ ∀ clock : HalReply, Served pid (h ++ [.hal pid .monotonicMs clock])
      ⟨r 0, r 4, r 1, r 2, r 3, r 7, makeSmallint clock.ms⟩
  | 9, r, h => Turned pid r h ⟨r 0, r 4, r 1, r 2, r 3, r 7, r 8⟩
  | 10, r, h => Turned pid r h ⟨r 0, r 4, r 11, r 2, r 3, r 7, r 8⟩
  | 11, r, h => Turned pid r h ⟨r 0, r 4, r 11, r 12, r 3, r 7, r 8⟩
  | 12, r, h => Turned pid r h ⟨r 0, r 4, r 11, r 12, r 13, r 7, r 8⟩
  | 13, r, h => Turned pid r h ⟨r 0, r 9, r 11, r 12, r 13, r 7, r 8⟩
  | 14, r, h => Turned pid r h r.published
  | 15, r, h => ∃ cmd, Took pid r h cmd ∧ cmd.type = CommandType.pwmSetDuty.code
  | 16, r, h => r.Constants ∧ ∀ clock : HalReply, Served pid (h ++ [.hal pid .monotonicMs clock])
      ⟨r 0, r 3, r 1, r 2, makeSmallint 0, r 7, makeSmallint clock.ms⟩
  | 17, r, h => Turned pid r h ⟨r 0, r 3, r 1, r 2, makeSmallint 0, r 7, r 8⟩
  | 18, r, h => Turned pid r h ⟨r 0, r 3, r 11, r 2, makeSmallint 0, r 7, r 8⟩
  | 19, r, h => Turned pid r h ⟨r 0, r 3, r 11, r 12, makeSmallint 0, r 7, r 8⟩
  | 20, r, h => Turned pid r h ⟨r 0, r 3, r 11, r 12, r 13, r 7, r 8⟩
  | 21, r, h => Turned pid r h ⟨r 0, r 9, r 11, r 12, r 13, r 7, r 8⟩
  | 22, r, h => Turned pid r h r.published
  | 23, r, h => ∃ cmd, Took pid r h cmd ∧ cmd.type = CommandType.none.code
  | 24, r, h => Turned pid r h r.published
  | _, _, _ => False

section Conditions

variable {pid : Byte} {r : Regs} {h : Trace} {cmd : Command}

/-- The constants are out of the way of the other registers. -/
theorem Regs.Constants.update (hr : r.Constants) {x : Reg} (t : Term) (h6 : x ≠ 6) (h14 : x ≠ 14) :
    Regs.Constants (Function.update r x t) :=
  ⟨by rw [Function.update_of_ne h6.symm, hr.idle], by rw [Function.update_of_ne h14.symm, hr.pwm]⟩

theorem Turned.update {pub pub' : Published} (hr : Turned pid r h pub) {x : Reg} (t : Term)
    (h6 : x ≠ 6) (h14 : x ≠ 14) (hpub : pub' = pub) : Turned pid (Function.update r x t) h pub' :=
  ⟨hr.1.update t h6 h14, hpub ▸ hr.2⟩

/-- The register that an instruction between the receipt and the I/O of a command uses. -/
theorem Took.update (hr : Took pid r h cmd) (t : Term) :
    Took pid (Function.update r 15 t) h cmd where
  constants := hr.constants.update t (by decide) (by decide)
  loaded := ⟨by simp [hr.loaded.type], by simp [hr.loaded.a], by simp [hr.loaded.b],
    by simp [hr.loaded.c], by simp [hr.loaded.d]⟩
  valid := hr.valid
  before := by simpa [Regs.published] using hr.before

theorem Took.type_code (hr : Took pid r h cmd) : ∃ type : CommandType, cmd.type = type.code :=
  type_of_valid hr.valid

theorem Took.zero_iff (hr : Took pid r h cmd) :
    r 0 = makeSmallint 0 ↔ cmd.type = CommandType.none.code := by
  obtain ⟨type, htype⟩ := hr.type_code
  rw [hr.loaded.type, htype]
  cases type <;> decide

/-- The difference that the program tests tells a duty from the rest. -/
theorem Took.difference_iff (hr : Took pid r h cmd) :
    makeSmallint (getSmallint (r 0) - getSmallint (r 14)) = makeSmallint 0 ↔
      cmd.type = CommandType.pwmSetDuty.code := by
  obtain ⟨type, htype⟩ := hr.type_code
  rw [hr.loaded.type, hr.constants.pwm, htype]
  cases type <;> decide

theorem cyclic_recv (hr : Turned pid r h r.published) (hvalid : mbValidateCommand cmd = .ok) :
    Took pid (Regs.load r 0 1 2 3 4 cmd) (h ++ [.pop pid cmd]) cmd where
  constants := ⟨by simp [Regs.load, hr.1.idle], by simp [Regs.load, hr.1.pwm]⟩
  loaded := ⟨by simp [Regs.load], by simp [Regs.load], by simp [Regs.load], by simp [Regs.load],
    by simp [Regs.load]⟩
  valid := hvalid
  before := ⟨h, rfl, by simpa [Regs.load, Regs.published] using hr.2⟩

/-- The I2C path, with the value it loads or the one it leaves. -/
theorem Took.read (hr : Took pid r h cmd) (hsome : cmd.type ≠ CommandType.none.code)
    (hpwm : cmd.type ≠ CommandType.pwmSetDuty.code) :
    match bifRequest 3 [getSmallint (r 1), getSmallint (r 2), getSmallint (r 3)] with
    | .error _ => cyclicAt pid 8 r h
    | .ok (call, load) => ∀ reply : HalReply, cyclicAt pid 8
        (Function.update r 7 (makeSmallint (load reply))) (h ++ [.hal pid call reply]) := by
  obtain ⟨h₀, rfl, hs⟩ := hr.before
  have hservice : cmd.service =
      bifRequest 3 [getSmallint (r 1), getSmallint (r 2), getSmallint (r 3)] := by
    rw [Command.service, if_neg hpwm, hr.loaded.a, hr.loaded.b, hr.loaded.c]
    rfl
  have hmark : ∀ value clock, Published.mark cmd value clock =
      ⟨r 0, r 4, r 1, r 2, r 3, value, makeSmallint clock.ms⟩ := fun value clock => by
    rw [Published.mark, if_neg hpwm, if_neg hpwm, hr.loaded.type, hr.loaded.a, hr.loaded.b,
      hr.loaded.c, hr.loaded.d]
  rw [← hservice]
  split
  · rename_i e herror
    refine ⟨hr.constants, fun clock => ?_⟩
    have hturn := Served.refused clock hs hsome herror
    rwa [hmark] at hturn
  · rename_i call load hok
    refine fun reply => ⟨hr.constants.update _ (by decide) (by decide), fun clock => ?_⟩
    have hturn := Served.acted reply clock hs hsome hok
    rwa [hmark] at hturn

/-- The PWM path. -/
theorem Took.drive (hr : Took pid r h cmd) (hpwm : cmd.type = CommandType.pwmSetDuty.code) :
    match bifRequest 2 [getSmallint (r 1), getSmallint (r 2)] with
    | .error _ => cyclicAt pid 16 r h
    | .ok (call, load) => ∀ reply : HalReply, cyclicAt pid 16
        (Function.update r 7 (makeSmallint (load reply))) (h ++ [.hal pid call reply]) := by
  obtain ⟨h₀, rfl, hs⟩ := hr.before
  have hsome : cmd.type ≠ CommandType.none.code := by
    rw [hpwm]
    decide
  have hservice : cmd.service = bifRequest 2 [getSmallint (r 1), getSmallint (r 2)] := by
    rw [Command.service, if_pos hpwm, hr.loaded.a, hr.loaded.b]
    rfl
  have hmark : ∀ value clock, Published.mark cmd value clock =
      ⟨r 0, r 3, r 1, r 2, makeSmallint 0, value, makeSmallint clock.ms⟩ := fun value clock => by
    rw [Published.mark, if_pos hpwm, if_pos hpwm, hr.loaded.type, hr.loaded.a, hr.loaded.b,
      hr.loaded.c]
  rw [← hservice]
  split
  · rename_i e herror
    refine ⟨hr.constants, fun clock => ?_⟩
    have hturn := Served.refused clock hs hsome herror
    rwa [hmark] at hturn
  · rename_i call load hok
    refine fun reply => ⟨hr.constants.update _ (by decide) (by decide), fun clock => ?_⟩
    have hturn := Served.acted reply clock hs hsome hok
    rwa [hmark] at hturn

/-- The jumps back to the `RECV_CMD`. -/
theorem cyclic_back {k : ℕ} {distance : I32} (hr : Turned pid r h r.published)
    (hto : (offset cyclicCode (k + 1) : ℤ) + distance.toInt = offset cyclicCode 3) :
    (cyclicAt pid).At cyclicCode r h ((offset cyclicCode (k + 1) : ℤ) + distance.toInt) :=
  ⟨3, by decide, hto, hr⟩

/-- Every instruction keeps the annotation. -/
theorem cyclic_step {k : ℕ} {i : Instr} (hi : cyclicCode[k]? = some i) (hA : cyclicAt pid k r h) :
    i.pre pid cyclicCode (cyclicAt pid) k r h := by
  have hk : k < 25 := (List.getElem?_eq_some_iff.mp hi).1
  match k, hi, hA with
  | 0, hi, ⟨hh, hr⟩ =>
      obtain rfl := Option.some.inj hi
      subst hh hr
      exact ⟨rfl, rfl⟩
  | 1, hi, ⟨hh, hr⟩ =>
      obtain rfl := Option.some.inj hi
      subst hh hr
      exact ⟨rfl, rfl⟩
  | 2, hi, ⟨hh, hr⟩ =>
      obtain rfl := Option.some.inj hi
      subst hh hr
      exact ⟨⟨by simp, rfl⟩, by simpa [Regs.published] using Served.start⟩
  | 3, hi, hA =>
      obtain rfl := Option.some.inj hi
      exact fun cmd hvalid => ⟨cmd, cyclic_recv hA hvalid⟩
  | 4, hi, ⟨cmd, hA⟩ =>
      obtain rfl := Option.some.inj hi
      simp only [Instr.pre]
      split
      · rename_i hzero
        exact ⟨by decide, 23, by decide, by decide, cmd, hA, hA.zero_iff.mp hzero⟩
      · rename_i hzero
        exact ⟨cmd, hA, fun hnone => hzero (hA.zero_iff.mpr hnone)⟩
  | 5, hi, ⟨cmd, hA, hsome⟩ =>
      obtain rfl := Option.some.inj hi
      refine ⟨cmd, hA.update _, hsome, ?_⟩
      rw [Function.update_self]
      exact hA.difference_iff
  | 6, hi, ⟨cmd, hA, hsome, hpwm⟩ =>
      obtain rfl := Option.some.inj hi
      simp only [Instr.pre]
      split
      · rename_i hzero
        exact ⟨by decide, 15, by decide, by decide, cmd, hA, hpwm.mp hzero⟩
      · rename_i hzero
        exact ⟨cmd, hA, hsome, fun htype => hzero (hpwm.mpr htype)⟩
  | 7, hi, ⟨cmd, hA, hsome, hpwm⟩ =>
      obtain rfl := Option.some.inj hi
      exact hA.read hsome hpwm
  | 8, hi, ⟨hconst, hA⟩ =>
      obtain rfl := Option.some.inj hi
      exact fun reply => ⟨hconst.update _ (by decide) (by decide), hA reply⟩
  | 9, hi, hA =>
      obtain rfl := Option.some.inj hi
      exact hA.update _ (by decide) (by decide) (by simp)
  | 10, hi, hA =>
      obtain rfl := Option.some.inj hi
      exact hA.update _ (by decide) (by decide) (by simp)
  | 11, hi, hA =>
      obtain rfl := Option.some.inj hi
      exact hA.update _ (by decide) (by decide) (by simp)
  | 12, hi, hA =>
      obtain rfl := Option.some.inj hi
      exact hA.update _ (by decide) (by decide) (by simp)
  | 13, hi, hA =>
      obtain rfl := Option.some.inj hi
      exact hA.update _ (by decide) (by decide) (by simp [Regs.published])
  | 14, hi, hA =>
      obtain rfl := Option.some.inj hi
      exact ⟨by decide, cyclic_back hA (by decide)⟩
  | 15, hi, ⟨cmd, hA, hpwm⟩ =>
      obtain rfl := Option.some.inj hi
      exact hA.drive hpwm
  | 16, hi, ⟨hconst, hA⟩ =>
      obtain rfl := Option.some.inj hi
      exact fun reply => ⟨hconst.update _ (by decide) (by decide), hA reply⟩
  | 17, hi, hA =>
      obtain rfl := Option.some.inj hi
      exact hA.update _ (by decide) (by decide) (by simp)
  | 18, hi, hA =>
      obtain rfl := Option.some.inj hi
      exact hA.update _ (by decide) (by decide) (by simp)
  | 19, hi, hA =>
      obtain rfl := Option.some.inj hi
      exact hA.update _ (by decide) (by decide) (by simp)
  | 20, hi, hA =>
      obtain rfl := Option.some.inj hi
      exact hA.update _ (by decide) (by decide) (by simp)
  | 21, hi, hA =>
      obtain rfl := Option.some.inj hi
      exact hA.update _ (by decide) (by decide) (by simp [Regs.published])
  | 22, hi, hA =>
      obtain rfl := Option.some.inj hi
      exact ⟨by decide, cyclic_back hA (by decide)⟩
  | 23, hi, ⟨cmd, hA, hnone⟩ =>
      obtain rfl := Option.some.inj hi
      intro reply
      obtain ⟨h₀, rfl, hs⟩ := hA.before
      exact ⟨hA.constants, .idle reply hs hnone⟩
  | 24, hi, hA =>
      obtain rfl := Option.some.inj hi
      exact ⟨by decide, cyclic_back hA (by decide +kernel)⟩
  | k + 25, _, _ => exact absurd hk (by omega)

theorem cyclic_annotated : Annotated cyclicCode cyclicAt where
  encodable := by simp [cyclicCode, Instr.Encodable]
  entry pid := ⟨rfl, rfl⟩
  step pid k i r h hi hA := cyclic_step hi hA

end Conditions

/-! ### Every run -/

/-- What is left of a turn: no receipt, and at most two calls. -/
structure Rest (pid : Byte) (rest : Trace) : Prop where
  calls : ∀ e ∈ rest, ∃ call reply, e = .hal pid call reply
  short : rest.length ≤ 2

theorem Rest.none (pid : Byte) : Rest pid [] := ⟨by simp, by simp⟩

theorem Rest.one (pid : Byte) (call : HalCall) (reply : HalReply) :
    Rest pid [.hal pid call reply] := ⟨by simp, by simp⟩

theorem Rest.two (pid : Byte) (call call' : HalCall) (reply reply' : HalReply) :
    Rest pid [.hal pid call reply, .hal pid call' reply'] := ⟨by simp, by simp⟩

section Run

variable {pid : Byte} {r : Regs} {h : Trace} {cmd : Command}

/-- The turn of a received command can be finished. -/
theorem Took.completes (hr : Took pid r h cmd) :
    ∃ rest pub, Rest pid rest ∧ Served pid (h ++ rest) pub := by
  obtain ⟨h₀, rfl, hs⟩ := hr.before
  by_cases hnone : cmd.type = CommandType.none.code
  · exact ⟨_, _, .one pid _ ⟨0, 0, 0⟩, .idle _ hs hnone⟩
  · cases hservice : cmd.service with
    | error e => exact ⟨_, _, .one pid _ ⟨0, 0, 0⟩, .refused _ hs hnone hservice⟩
    | ok made =>
        have hturn := Served.acted ⟨0, 0, 0⟩ ⟨0, 0, 0⟩ hs hnone hservice
        rw [List.append_assoc] at hturn
        exact ⟨_, _, .two pid _ _ _ _, hturn⟩

/-- At every instruction, the history is a served one but for the end of a turn. -/
theorem cyclicAt_completes {k : ℕ} (hA : cyclicAt pid k r h) : ∃ rest pub, Rest pid rest ∧
    Served pid (h ++ rest) pub ∧ (k = 3 → rest = [] ∧ pub = r.published) := by
  have hdone : ∀ {pub}, (k = 3 → pub = r.published) → Served pid h pub → ∃ rest pub,
      Rest pid rest ∧ Served pid (h ++ rest) pub ∧ (k = 3 → rest = [] ∧ pub = r.published) :=
    fun hpub hs => ⟨[], _, .none pid, by rwa [List.append_nil], fun h3 => ⟨rfl, hpub h3⟩⟩
  have htaken : ∀ {cmd}, k ≠ 3 → Took pid r h cmd → ∃ rest pub, Rest pid rest ∧
      Served pid (h ++ rest) pub ∧ (k = 3 → rest = [] ∧ pub = r.published) := fun hk hr => by
    obtain ⟨rest, pub, hrest, hs⟩ := hr.completes
    exact ⟨rest, pub, hrest, hs, fun h3 => absurd h3 hk⟩
  match k, hA with
  | 0, ⟨hh, _⟩ | 1, ⟨hh, _⟩ | 2, ⟨hh, _⟩ => exact hdone (by simp) (hh ▸ Served.start)
  | 3, hs => exact hdone (fun _ => rfl) hs.2
  | 4, ⟨_, hr⟩ | 5, ⟨_, hr, _⟩ | 6, ⟨_, hr, _⟩ | 7, ⟨_, hr, _⟩ | 15, ⟨_, hr, _⟩ | 23, ⟨_, hr, _⟩ =>
      exact htaken (by decide) hr
  | 8, ⟨_, hs⟩ | 16, ⟨_, hs⟩ =>
      exact ⟨_, _, .one pid .monotonicMs ⟨0, 0, 0⟩, hs ⟨0, 0, 0⟩, fun h3 => absurd h3 (by decide)⟩
  | 9, hs | 10, hs | 11, hs | 12, hs | 13, hs | 14, hs | 17, hs | 18, hs | 19, hs | 20, hs | 21, hs
  | 22, hs | 24, hs => exact hdone (by simp) hs.2

end Run

/-- What a process received, in its own history. -/
theorem received_history (pid : Byte) (t : Trace) :
    received pid (history pid t) = received pid t := by
  rw [received, history, List.filterMap_filter, received]
  congr 1
  funext e
  cases e <;> simp [Event.isOf, Event.received]

theorem Rest.received {pid : Byte} {rest : Trace} (h : Rest pid rest) : received pid rest = [] :=
  received_calls h.calls

/-- In every run of the scheduler, among any other processes, a process spawned with the built
program has served its commands in the order of their receipt, one turn for each, up to at most
two calls of the last turn; and at its `RECV_CMD` the event registers are those of the last turn. -/
theorem cyclic_serves {hal : Hal} {sys : System} {i : Slot} {v v' : DemoProgram} {n : ℕ}
    (hbuild : os2BuildCyclicProgram v = .ok (n, v')) (hr : Reached hal sys)
    (hocc : (sys.sched.proc i).state ≠ .free)
    (hprogram : (sys.sched.proc i).program = v'.toList.take n) :
    ∃ rest pub, Rest i.pid rest ∧ Served i.pid (history i.pid sys.trace ++ rest) pub ∧
      halCalls (history i.pid sys.trace) ++ halCalls rest =
        (received i.pid sys.trace).flatMap Command.turn ∧
      ((sys.sched.proc i).pc = 18 →
        rest = [] ∧ pub = Regs.published (sys.sched.proc i).reg) := by
  have hcode : (sys.sched.proc i).program = assemble cyclicCode := by
    obtain ⟨v'', hrun, hholds⟩ := cyclic_emits v ⟨by simp, by simp⟩
    rw [hbuild] at hrun
    cases hrun
    rw [hprogram]
    exact hholds.take
  have hinv := (annotated_invariant hal cyclic_annotated).reached hr
  obtain ⟨k, hk, hpc, hA⟩ := (hinv.2 i).holds hocc hcode
  obtain ⟨rest, pub, hrest, hserved, hloop⟩ := cyclicAt_completes hA
  refine ⟨rest, pub, hrest, hserved, ?_, fun h18 => hloop ?_⟩
  · have hcalls := hserved.calls
    rwa [halCalls_append, received_append, hrest.received, List.append_nil, received_history]
      at hcalls
  · have hloop_pc : ∀ k < 26, offset cyclicCode k = 18 → k = 3 := by decide +kernel
    exact hloop_pc k (Nat.lt_succ_of_le hk) (by omega)

/-- A read and a duty, served in one slice: the program is back at its `RECV_CMD`. -/
theorem cyclic_serves_both : ∃ (v v' : DemoProgram) (n : ℕ) (sys : System) (pub : Published),
    os2BuildCyclicProgram v = .ok (n, v') ∧ Reached idleHal sys ∧
      (sys.sched.proc 0).program = v'.toList.take n ∧ (sys.sched.proc 0).pc = 18 ∧
      received 1 sys.trace = [⟨3, 1, 0x39, 0x92, 7⟩, ⟨2, 0, 500, 0, 4⟩] ∧
      Served 1 (history 1 sys.trace) pub ∧
      halCalls (history 1 sys.trace) = [.i2cReadReg 1 0x39 0x92, .monotonicMs, .pwmSetDuty 0 500,
        .monotonicMs] ∧
      pub = Regs.published (sys.sched.proc 0).reg := by
  obtain ⟨v', hbuild, hholds⟩ := cyclic_emits (Vector.replicate 128 0) ⟨by simp, by simp⟩
  obtain ⟨sys, hrun, hend⟩ := exists_ok_of_map
    (runCalls idleHal System.init [.spawn (assemble cyclicCode),
      .send 1 ⟨3, 1, 0x39, 0x92, 7⟩, .send 1 ⟨2, 0, 500, 0, 4⟩, .tick])
    (fun sys => ((sys.sched.proc 0).state, (sys.sched.proc 0).program, (sys.sched.proc 0).pc,
      received 1 sys.trace))
    (.waiting, assemble cyclicCode, 18, [⟨3, 1, 0x39, 0x92, 7⟩, ⟨2, 0, 500, 0, 4⟩])
    (by decide +kernel)
  obtain ⟨hstate, hend⟩ := Prod.mk.inj hend
  obtain ⟨hprogram, hend⟩ := Prod.mk.inj hend
  obtain ⟨hpc, hreceived⟩ := Prod.mk.inj hend
  have hreached : Reached idleHal sys := .inl ⟨_, hrun⟩
  have htake : (sys.sched.proc 0).program = v'.toList.take 120 := hprogram.trans hholds.take.symm
  have hocc : (sys.sched.proc 0).state ≠ .free := by
    rw [hstate]
    decide
  obtain ⟨rest, pub, -, hserved, hcalls, hloop⟩ := cyclic_serves hbuild hreached hocc htake
  obtain ⟨rfl, hpub⟩ := hloop hpc
  have hpid : Slot.pid 0 = 1 := rfl
  rw [List.append_nil, hpid] at hserved
  rw [hpid, hreceived, show halCalls [] = [] from rfl, List.append_nil] at hcalls
  exact ⟨_, v', 120, sys, pub, hbuild, hreached, htake, hpc, hreceived, hserved,
    hcalls.trans (by decide +kernel), hpub⟩

end MiniBeam

import MiniBeam.Model.Flow
import MiniBeam.Verification.Step.Encode
import Mathlib.Data.List.Forall2

/-! The compiler of flows: what validation promises about the values in the emitted
programs, and the emitted bytes as instructions. -/

namespace MiniBeam

open ErlTerm

/-! ### Instruction boundaries -/

/-- The address of the `k`-th instruction of an assembled program. -/
def offset (code : List Instr) (k : ℕ) : ℕ := (assemble (code.take k)).length

/-- An address that a sweep of the program from its start stops at. -/
inductive Boundary (program : List Byte) : ℕ → Prop
  | start : Boundary program 0
  | next {pc pc' : ℕ} {i : Instr} (before : Boundary program pc)
      (instr : decode program pc = (.ok i, pc')) : Boundary program pc'

section Offset

variable {code : List Instr} {k : ℕ}

theorem assemble_append (is js : List Instr) :
    assemble (is ++ js) = assemble is ++ assemble js := by
  simp [assemble]

/-- The instruction at its own address, and the address behind it. -/
theorem decode_offset {i : Instr} (hk : code[k]? = some i) (hi : i.Encodable) :
    decode (assemble code) (offset code k) = (.ok i, offset code (k + 1)) := by
  obtain ⟨hlt, hget⟩ := List.getElem?_eq_some_iff.mp hk
  have hsplit : code = code.take k ++ (i :: code.drop (k + 1)) := by
    rw [← hget, List.getElem_cons_drop, List.take_append_drop]
  have hnext : assemble (code.take (k + 1)) = assemble (code.take k) ++ i.encode := by
    rw [List.take_add_one, hk, assemble_append]
    simp [assemble]
  have hbytes : assemble code =
      assemble (code.take k) ++ (i.encode ++ assemble (code.drop (k + 1))) := by
    conv => lhs; rw [hsplit, assemble_append]
    simp [assemble]
  rw [offset, offset, hnext, hbytes]
  exact decode_middle _ _ hi

theorem boundary_offset (hcode : ∀ i ∈ code, i.Encodable) (hk : k ≤ code.length) :
    Boundary (assemble code) (offset code k) := by
  induction k with
  | zero => exact .start
  | succ k ih =>
      have hget := List.getElem?_eq_getElem (show k < code.length from hk)
      exact .next (ih (Nat.le_of_succ_le hk))
        (decode_offset hget (hcode _ (List.getElem_mem hk)))

end Offset

/-- What decodes at an instruction address of an assembled program is that instruction. -/
theorem decode_assembled {code : List Instr} (hcode : ∀ i ∈ code, i.Encodable) {k pc' : ℕ}
    {i : Instr} (hd : decode (assemble code) (offset code k) = (.ok i, pc')) :
    code[k]? = some i ∧ pc' = offset code (k + 1) := by
  cases hk : code[k]? with
  | none =>
      obtain ⟨op, hop, -⟩ := decode_opcode hd
      have hend : offset code k = (assemble code).length := by
        rw [offset, List.take_of_length_le (List.getElem?_eq_none_iff.mp hk)]
      rw [hend, List.getElem?_eq_none (le_refl _)] at hop
      cases hop
  | some j =>
      rw [decode_offset hk (hcode j (List.mem_of_getElem? hk)), Prod.mk.injEq,
        Except.ok.injEq] at hd
      exact ⟨by rw [hd.1], hd.2.symm⟩

/-- A sweep of an assembled program stops at its instructions only. -/
theorem Boundary.eq_offset {code : List Instr} (hcode : ∀ i ∈ code, i.Encodable) {pc : ℕ}
    (h : Boundary (assemble code) pc) : ∃ k, pc = offset code k := by
  induction h with
  | start => exact ⟨0, rfl⟩
  | @next pc pc' i before hd ih =>
      obtain ⟨k, rfl⟩ := ih
      exact ⟨k + 1, (decode_assembled hcode hd).2⟩

/-! ### Validation -/

theorem ErlTerm.intIn_iff {lo hi : ℤ} {t : ErlTerm} :
    t.intIn lo hi = true ↔ ∃ n, t = .int n ∧ lo ≤ n ∧ n ≤ hi := by
  cases t <;> simp [intIn]

theorem ErlTerm.intFrom_iff {lo : ℤ} {t : ErlTerm} :
    t.intFrom lo = true ↔ ∃ n, t = .int n ∧ lo ≤ n := by
  cases t <;> simp [intFrom]

theorem ErlTerm.same_int {n : ℤ} {t : ErlTerm} (h : (ErlTerm.int n).same t = true) :
    t = .int n := by
  cases t <;> simp_all [same]

theorem ErlTerm.same_atom {name : String} {t : ErlTerm} (h : t.same (.atom name) = true) :
    t = .atom name := by
  cases t <;> simp_all [same]

theorem crashIfNone_ok {α : Type} {o : Option α} {a : α} (h : crashIfNone o = .ok a) :
    o = some a := by
  cases o with
  | none => cases h
  | some b => rw [Except.ok.inj h]

theorem elems?_some {t : ErlTerm} {ts : List ErlTerm} (h : t.elems? = some ts) :
    t = .list ts := by
  cases t <;> simp_all [elems?]

theorem Flow.bind_ok {α β : Type} {x : Flow α} {k : α → Flow β} {b : β} :
    (x >>= k) = .ok b ↔ ∃ a, x = .ok a ∧ k a = .ok b := by
  cases x <;> simp [Bind.bind, Except.bind]

theorem foreach_ok {f : ErlTerm → Flow Unit} {ts : List ErlTerm} (h : foreach f ts = .ok ()) :
    ∀ t ∈ ts, f t = .ok () := by
  induction ts with
  | nil => simp
  | cons t ts ih =>
      obtain ⟨⟨⟩, ht, hts⟩ := Flow.bind_ok.mp h
      intro u hu
      rcases List.mem_cons.mp hu with rfl | hu
      · exact ht
      · exact ih hts u hu

theorem anyWithKey_true {name : String} {value : ErlTerm} {ts : List ErlTerm}
    (h : anyWithKey name value ts = .ok true) :
    ∃ t ∈ ts, ∃ v, t.key name = some v ∧ v.same value = true := by
  induction ts with
  | nil => simp [anyWithKey] at h
  | cons t ts ih =>
      rw [anyWithKey] at h
      cases hv : t.key name with
      | none => simp [hv] at h
      | some v =>
          simp only [hv] at h
          by_cases hs : v.same value = true
          · exact ⟨t, by simp, v, hv, hs⟩
          · rw [if_neg hs] at h
            obtain ⟨u, hu, w⟩ := ih h
            exact ⟨u, by simp [hu], w⟩

/-- A sensor entry that passed validation. -/
structure Sensor where
  bus : ℤ
  addr : ℤ
  reg : ℤ
  pollMs : ℤ
  bus_range : 0 ≤ bus ∧ bus ≤ 3
  addr_range : 0 ≤ addr ∧ addr ≤ 127
  reg_range : 0 ≤ reg ∧ reg ≤ 255

/-- The parameters of a sensor are those of an entry. -/
structure Sensor.Describes (spec : Sensor) (s : ErlTerm) : Prop where
  bus : s.key "bus" = some (.int spec.bus)
  addr : s.key "addr" = some (.int spec.addr)
  reg : s.key "reg" = some (.int spec.reg)
  pollMs : s.key "poll_ms" = some (.int spec.pollMs)

/-- What the compiler takes from a flow that passed validation. -/
structure FlowSpec where
  sensors : List Sensor
  channel : ℤ
  channel_range : 0 ≤ channel ∧ channel ≤ 7

namespace FlowSpec

variable (f : FlowSpec)

/-- The pid the compiler computes for the actuator. -/
def actPid : ℤ := f.sensors.length + 1

/-- The program of one sensor. -/
def sensorProgram (s : Sensor) : List Byte :=
  compileSensor s.bus s.addr s.reg s.pollMs f.channel f.actPid

end FlowSpec

/-- The channel `compile_flow` puts into the sensor programs. -/
def compiledChannel (flow : ErlTerm) : Flow ErlTerm :=
  match flow.key "flows" with
  | some fs => do firstChannel (← crashIfNone fs.elems?)
  | none => .error .crash

/-- A valid sensor entry describes a sensor, and compiles to its program. -/
theorem validateSensor_ok {s : ErlTerm} (h : validateSensor s = .ok ()) :
    ∃ spec : Sensor, spec.Describes s ∧ ∀ ch act : ℤ, compileSensorMap (.int ch) act s =
      .ok (compileSensor spec.bus spec.addr spec.reg spec.pollMs ch act) := by
  unfold validateSensor at h
  split at h
  · rename_i b a r p hb ha hr hp
    split at h
    · rename_i hv
      simp only [Bool.and_eq_true, intIn_iff, intFrom_iff] at hv
      obtain ⟨⟨⟨⟨bus, rfl, hbus⟩, addr, rfl, haddr⟩, reg, rfl, hreg⟩, poll, rfl, -⟩ := hv
      refine ⟨⟨bus, addr, reg, poll, hbus, haddr, hreg⟩, ⟨hb, ha, hr, hp⟩, fun ch act => ?_⟩
      simp [compileSensorMap, hb, ha, hr, hp, crashIfNone, int?, Bind.bind, Except.bind,
        Pure.pure, Except.pure]
    · cases h
  · cases h

theorem validateActuator_ok {a : ErlTerm} (h : validateActuator a = .ok ()) :
    ∃ n : ℤ, a.key "channel" = some (.int n) ∧ 0 ≤ n ∧ n ≤ 7 := by
  unfold validateActuator at h
  split at h
  · rename_i k c hk hc
    split at h
    · rename_i hv
      obtain ⟨n, rfl, hn⟩ := intIn_iff.mp (Bool.and_eq_true_iff.mp hv).2
      exact ⟨n, hc, hn⟩
    · cases h
  · cases h

/-- The term `{pwm, ch}`. -/
def pwm (ch : ℤ) : ErlTerm := .tuple [.atom "pwm", .int ch]

/-- A valid flow entry goes to a PWM channel, because some actuator has that channel. -/
theorem validateFlow_ok {ss as : List ErlTerm} {f : ErlTerm}
    (has : ∀ a ∈ as, validateActuator a = .ok ()) (h : validateFlow ss as f = .ok ()) :
    ∃ n : ℤ, f.key "to" = some (pwm n) ∧ 0 ≤ n ∧ n ≤ 7 := by
  unfold validateFlow at h
  split at h
  · rename_i addr tag ch hfrom hto
    split at h
    · rename_i htag
      obtain ⟨known, -, h⟩ := Flow.bind_ok.mp h
      cases known with
      | false => cases h
      | true =>
          obtain ⟨found, hfound, h⟩ := Flow.bind_ok.mp h
          cases found with
          | false => cases h
          | true =>
              obtain ⟨a, ha, v, hv, hsame⟩ := anyWithKey_true hfound
              obtain ⟨n, hn, hrange⟩ := validateActuator_ok (has a ha)
              rw [hv, Option.some.injEq] at hn
              subst hn
              exact ⟨n, by rw [hto, same_atom htag, same_int hsame, pwm], hrange⟩
    · cases h
  · cases h

theorem mapM_sensors {ss : List ErlTerm} (hss : ∀ s ∈ ss, validateSensor s = .ok ()) :
    ∃ specs : List Sensor, List.Forall₂ Sensor.Describes specs ss ∧ ∀ ch act : ℤ,
      ss.mapM (compileSensorMap (.int ch) act) =
        .ok (specs.map fun s => compileSensor s.bus s.addr s.reg s.pollMs ch act) := by
  induction ss with
  | nil => exact ⟨[], .nil, fun _ _ => List.mapM_nil⟩
  | cons s ss ih =>
      obtain ⟨spec, hdescribes, hspec⟩ := validateSensor_ok (hss s (by simp))
      obtain ⟨specs, hall, hspecs⟩ := ih fun t ht => hss t (by simp [ht])
      refine ⟨spec :: specs, .cons hdescribes hall, fun ch act => ?_⟩
      rw [List.mapM_cons, hspec, hspecs]
      rfl

/-- A flow that passed validation, entry by entry. -/
theorem validate_ok {flow : ErlTerm} (h : validate flow = .ok ()) :
    ∃ (ss as fs : List ErlTerm) (p : ErlTerm), flow.key "sensors" = some (.list ss) ∧
      flow.key "flows" = some (.list fs) ∧ flow.key "policy" = some p ∧
      (∀ s ∈ ss, validateSensor s = .ok ()) ∧ (∀ a ∈ as, validateActuator a = .ok ()) ∧
      (∀ f ∈ fs, validateFlow ss as f = .ok ()) ∧ validatePolicy p = .ok () := by
  unfold validate at h
  split at h
  · rename_i ss as fs p hss has hfs hp
    obtain ⟨sensors, hsensors, h⟩ := Flow.bind_ok.mp h
    obtain ⟨⟨⟩, hvs, h⟩ := Flow.bind_ok.mp h
    obtain ⟨actuators, -, h⟩ := Flow.bind_ok.mp h
    obtain ⟨⟨⟩, hva, h⟩ := Flow.bind_ok.mp h
    obtain ⟨flows, hflows, h⟩ := Flow.bind_ok.mp h
    obtain ⟨⟨⟩, hvf, hvp⟩ := Flow.bind_ok.mp h
    obtain rfl := elems?_some (crashIfNone_ok hsensors)
    obtain rfl := elems?_some (crashIfNone_ok hflows)
    exact ⟨sensors, actuators, flows, p, hss, hfs, hp, foreach_ok hvs, foreach_ok hva,
      foreach_ok hvf, hvp⟩
  · cases h

/-- Compilation of a flow that passed validation fails only on an empty list of flows, and
takes the channel of the first. -/
theorem compileFlow_valid {flow : ErlTerm} (h : validate flow = .ok ()) :
    ∃ ss fs : List ErlTerm, flow.key "sensors" = some (.list ss) ∧
      flow.key "flows" = some (.list fs) ∧ (∀ e ∈ fs, ∃ n : ℤ, e.key "to" = some (pwm n)) ∧
      (fs = [] → compileFlow flow = .error .crash) ∧
      ∀ e rest, fs = e :: rest → ∃ f : FlowSpec, List.Forall₂ Sensor.Describes f.sensors ss ∧
        e.key "to" = some (pwm f.channel) ∧
        compileFlow flow = .ok (f.sensors.map f.sensorProgram, compileActuator) := by
  obtain ⟨ss, as, fs, -, hss, hfs, -, hvs, hva, hvf, -⟩ := validate_ok h
  have hto : ∀ e ∈ fs, ∃ n : ℤ, e.key "to" = some (pwm n) ∧ 0 ≤ n ∧ n ≤ 7 :=
    fun e he => validateFlow_ok hva (hvf e he)
  refine ⟨ss, fs, hss, hfs, fun e he => (hto e he).imp fun n hn => hn.1, ?_, ?_⟩
  · rintro rfl
    simp only [compileFlow, hss, hfs]
    rfl
  · rintro e rest rfl
    obtain ⟨specs, hall, hspecs⟩ := mapM_sensors hvs
    have hlen := hall.length_eq
    obtain ⟨n, hn, hrange⟩ := hto e (by simp)
    refine ⟨⟨specs, n, hrange⟩, hall, hn, ?_⟩
    have hfirst : firstChannel (e :: rest) = .ok (.int n) := by
      simp only [firstChannel, hn, pwm]
      rfl
    simp only [compileFlow, hss, hfs]
    show (do
      let pwmCh ← firstChannel (e :: rest)
      let progs ← ss.mapM (compileSensorMap pwmCh (ss.length + 1))
      return (progs, compileActuator)) = _
    rw [hfirst, ← hlen]
    show (ss.mapM (compileSensorMap (.int n) _) >>= _) = _
    rw [hspecs]
    rfl

/-- What is compiled from a flow that passes validation. -/
theorem compile_ok {flow : ErlTerm} {progs : List (List Byte)} {act : List Byte}
    (h : compile flow = .ok (progs, act)) :
    ∃ f : FlowSpec, progs = f.sensors.map f.sensorProgram ∧ act = compileActuator ∧
      compiledChannel flow = .ok (.int f.channel) := by
  obtain ⟨⟨⟩, hvalid, h⟩ := Flow.bind_ok.mp h
  obtain ⟨ss, fs, -, hfs, -, hempty, hcompile⟩ := compileFlow_valid hvalid
  cases fs with
  | nil => rw [hempty rfl] at h; cases h
  | cons e rest =>
      obtain ⟨f, -, hto, hok⟩ := hcompile e rest rfl
      rw [hok] at h
      simp only [Except.ok.injEq, Prod.mk.injEq] at h
      refine ⟨f, h.1.symm, h.2.symm, ?_⟩
      simp only [compiledChannel, hfs]
      show firstChannel (e :: rest) = _
      simp only [firstChannel, hto, pwm]
      rfl

/-! ### The emitted programs -/

theorem leBytes_eq (v : ℕ) : leBytes v = wordBytes (BitVec.ofNat 32 v) := by
  simp only [leBytes, wordBytes, List.cons.injEq, and_true]
  refine ⟨?_, ?_, ?_, ?_⟩ <;> apply BitVec.eq_of_toNat_eq <;>
    simp only [BitVec.toNat_ofNat, BitVec.toNat_setWidth, BitVec.toNat_ushiftRight,
      Nat.shiftRight_eq_div_pow] <;> omega

theorem i32le_eq (z : ℤ) : i32le z = wordBytes (BitVec.ofInt 32 z) := by
  cases z with
  | ofNat v => rw [i32le, leBytes_eq, Int.ofNat_eq_natCast, BitVec.ofInt_natCast]
  | negSucc v =>
      have hword : BitVec.ofNat 32 (Int.negSucc v % 2 ^ 32).toNat =
          BitVec.ofInt 32 (.negSucc v) := by
        apply BitVec.eq_of_toNat_eq
        rw [BitVec.toNat_ofNat, BitVec.toNat_ofInt]
        omega
      rw [i32le, leBytes_eq, hword]

/-- How a sensor waits at the end of its loop. -/
def Sensor.rest (s : Sensor) : Instr := if s.pollMs = 0 then .yield else .sleepMs 6

theorem Sensor.rest_encodable (s : Sensor) : s.rest.Encodable := by
  unfold Sensor.rest
  split <;> trivial

/-- The jump of a sensor, from behind its last instruction. -/
def Sensor.back (s : Sensor) : ℤ := -((sensorBody s.pollMs).length + 5)

namespace FlowSpec

variable (f : FlowSpec) (s : Sensor)

/-- The registers a sensor program loads first, with their values. -/
def loads : List (Reg × I32) :=
  [(0, .ofInt 32 s.bus), (1, .ofInt 32 s.addr), (2, .ofInt 32 s.reg), (3, .ofInt 32 f.actPid),
    (4, 2), (5, .ofInt 32 f.channel), (6, .ofInt 32 s.pollMs), (8, 0)]

def sensorCode : List Instr :=
  (f.loads s).map (fun c => .constI32 c.1 c.2) ++
    [.callBif 3 [0, 1, 2] 7, .callBif 4 [] 9, .send 3 4 5 7 8 8, s.rest, .jmp (.ofInt 32 s.back)]

theorem sensorProgram_eq : f.sensorProgram s = assemble (f.sensorCode s) := by
  have hback : ∀ l : ℤ, l - (l + (sensorBody s.pollMs).length + 5) = s.back := by
    intro l
    simp only [Sensor.back]
    omega
  simp only [sensorProgram, compileSensor, hback]
  by_cases hp : s.pollMs = 0
  all_goals
    simp [sensorInit, sensorBody, constI32, i32le_eq, assemble, Instr.encode, Instr.opcode,
      Instr.operandBytes, Opcode.code, sensorCode, loads, regByte, Sensor.rest, hp]
    decide

theorem sensorCode_encodable : ∀ i ∈ f.sensorCode s, i.Encodable := by
  intro i hi
  simp only [sensorCode, loads, List.map_cons, List.map_nil, List.cons_append,
    List.nil_append, List.mem_cons, List.not_mem_nil, or_false] at hi
  rcases hi with rfl | rfl | rfl | rfl | rfl | rfl | rfl | rfl | rfl | rfl | rfl | rfl | rfl
  all_goals first | trivial | exact s.rest_encodable | simp [Instr.Encodable]

/-- The address of the loop, behind the eight loads. -/
theorem sensor_loop : offset (f.sensorCode s) 8 = (sensorInit 0 0 0 0 0 0).length := rfl

/-- The jump goes from behind the program to the loop. -/
theorem sensor_jump : (offset (f.sensorCode s) 13 : ℤ) + s.back = offset (f.sensorCode s) 8 := by
  by_cases hp : s.pollMs = 0 <;>
    simp [offset, sensorCode, loads, assemble, Instr.encode, Instr.operandBytes, wordBytes,
      Sensor.rest, Sensor.back, sensorBody, hp]

end FlowSpec

def actuatorCode : List Instr :=
  [.recvCmd 0 1 2 3 4, .callBif 2 [1, 2] 5, .jmp (.ofInt 32 (-17))]

theorem actuatorProgram_eq : compileActuator = assemble actuatorCode := by decide

theorem actuatorCode_encodable : ∀ i ∈ actuatorCode, i.Encodable := by
  intro i hi
  simp only [actuatorCode, List.mem_cons, List.not_mem_nil, or_false] at hi
  rcases hi with rfl | rfl | rfl
  all_goals first | trivial | simp [Instr.Encodable]

/-- The map of `flows/stress_fast_poll.flow`, with the poll time as a parameter. -/
def fastPoll (pollMs : ℤ) : ErlTerm :=
  .map
    [(.atom "actuators", .list [.map [(.atom "channel", .int 0), (.atom "kind", .atom "pwm")]]),
      (.atom "flows", .list [.map [(.atom "from", .int 0x39),
        (.atom "to", .tuple [.atom "pwm", .int 0])]]),
      (.atom "policy", .map [(.atom "mailbox_depth", .int 32),
        (.atom "on_fail", .atom "stop_actuator"), (.atom "watchdog_ms", .int 6000)]),
      (.atom "sensors", .list [.map [(.atom "addr", .int 0x39), (.atom "bus", .int 1),
        (.atom "poll_ms", .int pollMs), (.atom "reg", .int 0x92)]])]

end MiniBeam

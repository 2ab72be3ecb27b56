import MiniBeam.Verification.Flow.Code
import MiniBeam.Verification.Scheduler.Table

/-! Spawning programs in order on an empty table, and the flows whose programs all get the
pids they were compiled for. -/

namespace MiniBeam

/-- The table after `programs` were spawned in order on an empty one. -/
def Spawned (s : Scheduler) (programs : List (List Byte)) : Prop :=
  ∀ i : Slot, s.proc i =
    match programs[i.val]? with
    | some program => mbProcInit i.pid program
    | none => Process.zero

theorem spawned_init : Spawned mbSchedInit [] := fun i => proc_init i

namespace Spawned

variable {s : Scheduler} {programs : List (List Byte)}

/-- The first programs.length slots are in use, and no other. -/
theorem free_iff (h : Spawned s programs) (i : Slot) :
    (s.proc i).state = .free ↔ programs.length ≤ i.val := by
  rw [h i]
  cases hp : programs[i.val]? with
  | none => simpa [Process.zero] using List.getElem?_eq_none_iff.mp hp
  | some program =>
      have hlt := (List.getElem?_eq_some_iff.mp hp).1
      simpa [mbProcInit] using hlt

/-- The next program goes into the next slot. -/
theorem find (h : Spawned s programs) (hlt : programs.length < maxProcesses) :
    (List.finRange maxProcesses).find? (fun i => (s.proc i).state = .free) =
      some ⟨programs.length, hlt⟩ := by
  rw [List.find?_eq_some_iff_getElem]
  refine ⟨by simp [h.free_iff], programs.length, by simpa using hlt, by simp, ?_⟩
  intro j hj
  simpa [h.free_iff] using hj

theorem find_full (h : Spawned s programs) (hge : maxProcesses ≤ programs.length) :
    (List.finRange maxProcesses).find? (fun i => (s.proc i).state = .free) = none := by
  rw [List.find?_eq_none]
  intro i _
  have hi := i.isLt
  simp only [decide_eq_true_eq, h.free_iff]
  omega

/-- A spawn answers the next pid, or 0 when the table is full. -/
theorem pid (h : Spawned s programs) (program : List Byte) :
    (mbSchedSpawn s program).1 =
      if programs.length < maxProcesses then BitVec.ofNat 8 (programs.length + 1) else 0 := by
  by_cases hlt : programs.length < maxProcesses
  · simp only [mbSchedSpawn, h.find hlt, if_pos hlt]
  · simp only [mbSchedSpawn, h.find_full (Nat.le_of_not_lt hlt), if_neg hlt]

theorem spawn (h : Spawned s programs) (program : List Byte) :
    Spawned (mbSchedSpawn s program).2 (programs ++ [program]) := by
  intro i
  by_cases hlt : programs.length < maxProcesses
  · have hproc : (mbSchedSpawn s program).2.proc i =
        (s.setProc ⟨programs.length, hlt⟩
          (mbProcInit (BitVec.ofNat 8 (programs.length + 1)) program)).proc i := by
      simp only [mbSchedSpawn, h.find hlt]
      rfl
    rw [hproc, Scheduler.proc_setProc]
    split
    · rename_i hi
      rw [hi]
      simp [Slot.pid]
    · rename_i hi
      have hne : i.val ≠ programs.length := fun he => hi (Fin.ext he)
      by_cases hin : i.val < programs.length
      · rw [h i, List.getElem?_append_left hin]
      · have hnone : programs[i.val]? = none := List.getElem?_eq_none_iff.mpr (by omega)
        have hnone' : (programs ++ [program])[i.val]? = none :=
          List.getElem?_eq_none_iff.mpr (by rw [List.length_append, List.length_singleton]; omega)
        rw [h i, hnone, hnone']
  · have hi := i.isLt
    have hin : i.val < programs.length := by omega
    simp only [mbSchedSpawn, h.find_full (Nat.le_of_not_lt hlt)]
    rw [h i, List.getElem?_append_left hin]

theorem foldl (h : Spawned s programs) (more : List (List Byte)) :
    Spawned (more.foldl (fun sched p => (mbSchedSpawn sched p).2) s) (programs ++ more) := by
  induction more generalizing s programs with
  | nil => simpa using h
  | cons p more ih =>
      have hrest := ih (h.spawn p)
      rwa [List.append_assoc, List.singleton_append] at hrest

end Spawned

/-- The sensors stand in the first slots and the actuator behind them. -/
theorem deploy_spawned (sensors : List (List Byte)) (actuator : List Byte) :
    Spawned (deploy sensors actuator) (sensors ++ [actuator]) := by
  have hsensors := spawned_init.foldl sensors
  rw [List.nil_append] at hsensors
  exact hsensors.spawn actuator

/-! ### The pids of a deployment -/

/-- The pids that spawning the programs in order returns. -/
def spawnPids (s : Scheduler) : List (List Byte) → List Byte
  | [] => []
  | program :: programs =>
    (mbSchedSpawn s program).1 :: spawnPids (mbSchedSpawn s program).2 programs

theorem Spawned.pids {s : Scheduler} {programs : List (List Byte)} (h : Spawned s programs)
    (more : List (List Byte)) (k : ℕ) : (spawnPids s more)[k]? =
      if k < more.length then some (if programs.length + k < maxProcesses then
        BitVec.ofNat 8 (programs.length + k + 1) else 0) else none := by
  induction more generalizing s programs k with
  | nil => simp [spawnPids]
  | cons program more ih =>
      cases k with
      | zero => simp [spawnPids, h.pid]
      | succ k =>
          have hrest := ih (h.spawn program) k
          rw [List.length_append, List.length_singleton, Nat.add_assoc, Nat.add_comm 1] at hrest
          rw [spawnPids, List.getElem?_cons_succ, hrest]
          simp

/-- The pids `main.c` gets, in its order. -/
def deployPids (sensors : List (List Byte)) (actuator : List Byte) : List Byte :=
  spawnPids mbSchedInit (sensors ++ [actuator])

theorem deployPids_getElem? (sensors : List (List Byte)) (actuator : List Byte) {k : ℕ}
    (hk : k ≤ sensors.length) : (deployPids sensors actuator)[k]? =
      some (if k < maxProcesses then BitVec.ofNat 8 (k + 1) else 0) := by
  have h := spawned_init.pids (sensors ++ [actuator]) k
  rw [if_pos (by simp; omega)] at h
  simpa [deployPids] using h

/-! ### The target of a sensor -/

/-- Every `SEND` of the program takes its target from a register that the program loads this
constant into, and no other, and there is one. -/
structure LoadsTarget (program : List Byte) (v : I32) : Prop where
  sends : ∃ pc pc' rPid rType rA rB rC rD, Boundary program pc ∧
    decode program pc = (.ok (.send rPid rType rA rB rC rD), pc')
  loads : ∀ pc pc' rPid rType rA rB rC rD, Boundary program pc →
    decode program pc = (.ok (.send rPid rType rA rB rC rD), pc') →
    ∃ pc pc', Boundary program pc ∧ decode program pc = (.ok (.constI32 rPid v), pc')
  only : ∀ pc pc' rPid rType rA rB rC rD, Boundary program pc →
    decode program pc = (.ok (.send rPid rType rA rB rC rD), pc') →
    ∀ pc pc' w, Boundary program pc → decode program pc = (.ok (.constI32 rPid w), pc') → w = v

theorem LoadsTarget.unique {program : List Byte} {v w : I32} (hv : LoadsTarget program v)
    (hw : LoadsTarget program w) : v = w := by
  obtain ⟨pc, pc', rPid, rType, rA, rB, rC, rD, hb, hd⟩ := hv.sends
  obtain ⟨pc₁, pc₁', hb₁, hd₁⟩ := hv.loads pc pc' rPid rType rA rB rC rD hb hd
  exact hw.only pc pc' rPid rType rA rB rC rD hb hd pc₁ pc₁' v hb₁ hd₁

namespace FlowSpec

variable (f : FlowSpec) (s : Sensor)

theorem sensor_instr {k : ℕ} {i : Instr} (hi : (f.sensorCode s)[k]? = some i) :
    Boundary (f.sensorProgram s) (offset (f.sensorCode s) k) ∧
      decode (f.sensorProgram s) (offset (f.sensorCode s) k) =
        (.ok i, offset (f.sensorCode s) (k + 1)) := by
  have hlt := (List.getElem?_eq_some_iff.mp hi).1
  rw [sensorProgram_eq]
  exact ⟨boundary_offset (f.sensorCode_encodable s) hlt.le,
    decode_offset hi (f.sensorCode_encodable s i (List.mem_of_getElem? hi))⟩

/-- A sweep of a sensor program reads the instructions of its list. -/
theorem sensor_sweep {pc pc' : ℕ} {i : Instr} (hb : Boundary (f.sensorProgram s) pc)
    (hd : decode (f.sensorProgram s) pc = (.ok i, pc')) : i ∈ f.sensorCode s := by
  rw [sensorProgram_eq] at hb hd
  obtain ⟨k, rfl⟩ := hb.eq_offset (f.sensorCode_encodable s)
  exact List.mem_of_getElem? (decode_assembled (f.sensorCode_encodable s) hd).1

theorem sensor_send {rPid rType rA rB rC rD : Reg}
    (h : Instr.send rPid rType rA rB rC rD ∈ f.sensorCode s) : rPid = 3 := by
  have hrest : ¬ s.rest = .send rPid rType rA rB rC rD := by
    unfold Sensor.rest
    split <;> nofun
  simp [sensorCode, loads, Ne.symm hrest] at h
  exact h.1

theorem sensor_target {w : I32} (h : Instr.constI32 3 w ∈ f.sensorCode s) :
    w = BitVec.ofInt 32 f.actPid := by
  have hrest : ¬ s.rest = .constI32 3 w := by
    unfold Sensor.rest
    split <;> nofun
  simpa [sensorCode, loads, Ne.symm hrest] using h

theorem sensor_loadsTarget : LoadsTarget (f.sensorProgram s) (BitVec.ofInt 32 f.actPid) where
  sends := by
    have hi : (f.sensorCode s)[10]? = some (.send 3 4 5 7 8 8) := rfl
    obtain ⟨hb, hd⟩ := f.sensor_instr s hi
    exact ⟨_, _, _, _, _, _, _, _, hb, hd⟩
  loads := by
    intro pc pc' rPid rType rA rB rC rD hb hd
    obtain rfl := f.sensor_send s (f.sensor_sweep s hb hd)
    have hi : (f.sensorCode s)[3]? = some (.constI32 3 (.ofInt 32 f.actPid)) := rfl
    exact ⟨_, _, f.sensor_instr s hi⟩
  only := by
    intro pc pc' rPid rType rA rB rC rD hb hd pc₁ pc₁' w hb₁ hd₁
    obtain rfl := f.sensor_send s (f.sensor_sweep s hb hd)
    exact f.sensor_target s (f.sensor_sweep s hb₁ hd₁)

end FlowSpec

/-! ### Compilation and deployment -/

/-- A flow that compiles, and whose programs get the pids they count on. -/
structure Deploys (flow : ErlTerm) (sensors : List (List Byte)) (actuator : List Byte) : Prop where
  compiles : compileFlow flow = .ok (sensors, actuator)
  spawned : ∀ pid ∈ deployPids sensors actuator, pid ≠ 0
  sensor : ∀ k < sensors.length, ∃ pid, (deployPids sensors actuator)[k]? = some pid ∧
    pid.toNat = k + 1
  target : ∀ program ∈ sensors, ∃ pid v, (deployPids sensors actuator)[sensors.length]? = some pid ∧
    LoadsTarget program v ∧ v.toNat = pid.toNat

theorem deployPids_length (sensors : List (List Byte)) (actuator : List Byte) :
    (deployPids sensors actuator).length = sensors.length + 1 := by
  have h : ∀ (s : Scheduler) (programs : List (List Byte)),
      (spawnPids s programs).length = programs.length := by
    intro s programs
    induction programs generalizing s with
    | nil => rfl
    | cons program programs ih => rw [spawnPids, List.length_cons, ih, List.length_cons]
  rw [deployPids, h, List.length_append, List.length_singleton]

/-- When validation is enough for compilation and deployment. -/
theorem deploys_iff {flow : ErlTerm} {ss fs : List ErlTerm} (hvalid : validate flow = .ok ())
    (hss : flow.key "sensors" = some (.list ss)) (hfs : flow.key "flows" = some (.list fs)) :
    (∃ sensors actuator, Deploys flow sensors actuator) ↔ fs ≠ [] ∧ ss.length < maxProcesses := by
  obtain ⟨ss', fs', hss', hfs', -, hempty, hcompile⟩ := compileFlow_valid hvalid
  obtain rfl : ss = ss' := by simpa [hss] using hss'
  obtain rfl : fs = fs' := by simpa [hfs] using hfs'
  cases fs with
  | nil =>
      refine ⟨?_, fun h => absurd rfl h.1⟩
      rintro ⟨sensors, actuator, h⟩
      have hok := h.compiles
      rw [hempty rfl] at hok
      cases hok
  | cons first rest =>
      obtain ⟨f, hall, -, hok⟩ := hcompile first rest rfl
      have hlen := hall.length_eq
      have hprogs : (f.sensors.map f.sensorProgram).length = ss.length := by
        rw [List.length_map, hlen]
      constructor
      · rintro ⟨sensors, actuator, h⟩
        refine ⟨nofun, Nat.lt_of_not_le fun hge => ?_⟩
        have hsame := h.compiles
        rw [hok] at hsame
        obtain ⟨rfl, rfl⟩ := Prod.mk.inj (Except.ok.inj hsame)
        have hpid := deployPids_getElem? (f.sensors.map f.sensorProgram) compileActuator (le_refl _)
        rw [if_neg (by omega)] at hpid
        exact h.spawned 0 (List.mem_of_getElem? hpid) rfl
      · rintro ⟨-, hlt⟩
        have hbyte : ∀ k ≤ ss.length, (BitVec.ofNat 8 (k + 1)).toNat = k + 1 := by
          intro k hk
          have hmax : maxProcesses = 8 := rfl
          rw [BitVec.toNat_ofNat]
          omega
        have hpid : ∀ k ≤ ss.length, (deployPids (f.sensors.map f.sensorProgram)
            compileActuator)[k]? = some (BitVec.ofNat 8 (k + 1)) := by
          intro k hk
          rw [deployPids_getElem? _ _ (by omega), if_pos (by omega)]
        refine ⟨_, _, hok, fun pid hmem => ?_, fun k hk => ?_, fun program hprogram => ?_⟩
        · obtain ⟨k, hk, hget⟩ := List.getElem_of_mem hmem
          rw [deployPids_length, hprogs] at hk
          have hsome := hpid k (by omega)
          rw [List.getElem?_eq_getElem (by rw [deployPids_length]; omega), hget,
            Option.some.injEq] at hsome
          intro hzero
          have hnat := hbyte k (by omega)
          rw [← hsome, hzero] at hnat
          simp at hnat
        · exact ⟨_, hpid k (by omega), hbyte k (by omega)⟩
        · obtain ⟨s, -, rfl⟩ := List.mem_map.mp hprogram
          refine ⟨_, _, hpid _ (le_of_eq hprogs), f.sensor_loadsTarget s, ?_⟩
          have hmax : maxProcesses = 8 := rfl
          rw [hprogs, hbyte _ (le_refl _), FlowSpec.actPid, hlen, BitVec.toNat_ofInt]
          omega

/-- A flow map with `n` sensors like the one of `flows/stress_fast_poll.flow`. -/
def fastPollers (n : ℕ) (flows : List ErlTerm) : ErlTerm :=
  .map
    [(.atom "actuators", .list [.map [(.atom "channel", .int 0), (.atom "kind", .atom "pwm")]]),
      (.atom "flows", .list flows),
      (.atom "policy", .map [(.atom "mailbox_depth", .int 32),
        (.atom "on_fail", .atom "stop_actuator"), (.atom "watchdog_ms", .int 6000)]),
      (.atom "sensors", .list (List.replicate n (.map [(.atom "addr", .int 0x39),
        (.atom "bus", .int 1), (.atom "poll_ms", .int 0), (.atom "reg", .int 0x92)])))]

def fastPollFlow : ErlTerm := .map [(.atom "from", .int 0x39), (.atom "to", pwm 0)]

theorem deploys_iff_seven : validate (fastPollers 7 [fastPollFlow]) = .ok () ∧
    ∃ sensors actuator, Deploys (fastPollers 7 [fastPollFlow]) sensors actuator :=
  ⟨rfl, (@deploys_iff (fastPollers 7 [fastPollFlow]) _ _ rfl rfl rfl).mpr
    ⟨nofun, by rw [List.length_replicate]; decide⟩⟩

/-- No flow at all stops the compiler, and an eighth sensor leaves no slot to the actuator. -/
theorem fastPollers_not_deployed :
    validate (fastPollers 1 []) = .ok () ∧
    (¬ ∃ sensors actuator, Deploys (fastPollers 1 []) sensors actuator) ∧
    validate (fastPollers 8 [fastPollFlow]) = .ok () ∧
    ¬ ∃ sensors actuator, Deploys (fastPollers 8 [fastPollFlow]) sensors actuator := by
  refine ⟨rfl, ?_, rfl, ?_⟩
  · rintro ⟨sensors, actuator, h⟩
    cases h.compiles
  · rintro ⟨sensors, actuator, h⟩
    obtain ⟨rfl, rfl⟩ := Prod.mk.inj (Except.ok.inj h.compiles)
    have hpid := deployPids_getElem? (List.replicate 8 (compileSensor 1 0x39 0x92 0 0 9))
      compileActuator (le_refl _)
    exact h.spawned 0 (List.mem_of_getElem? hpid) rfl

end MiniBeam

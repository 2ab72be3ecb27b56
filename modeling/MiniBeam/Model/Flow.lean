import MiniBeam.Model.Scheduler
import Mathlib.Algebra.Group.Int.Defs

/-! The flow compiler (`tools/flow_compile.escript`) and the spawning of its output
(`zephyr_app/src/main.c`). -/

namespace MiniBeam

/-- Erlang terms as `file:consult` reads them. The entries of a map are in key order;
`other` is any term no clause of the compiler matches on. -/
inductive ErlTerm where
  | int (n : ℤ)
  | atom (name : String)
  | tuple (elems : List ErlTerm)
  | list (elems : List ErlTerm)
  | map (entries : List (ErlTerm × ErlTerm))
  | other (id : ℕ)

namespace ErlTerm

mutual

/-- The operator `=:=`. -/
def same : ErlTerm → ErlTerm → Bool
  | int a, int b => a == b
  | atom a, atom b => a == b
  | tuple as, tuple bs => sameList as bs
  | list as, list bs => sameList as bs
  | map as, map bs => sameEntries as bs
  | other a, other b => a == b
  | _, _ => false

def sameList : List ErlTerm → List ErlTerm → Bool
  | [], [] => true
  | a :: as, b :: bs => same a b && sameList as bs
  | _, _ => false

def sameEntries : List (ErlTerm × ErlTerm) → List (ErlTerm × ErlTerm) → Bool
  | [], [] => true
  | (k, v) :: as, (l, w) :: bs => same k l && same v w && sameEntries as bs
  | _, _ => false

end

/-- The map pattern `#{key := V}`: the value bound to `V`, or `none` on a mismatch. -/
def key (name : String) : ErlTerm → Option ErlTerm
  | map entries => (entries.find? fun e => e.1.same (atom name)).map (·.2)
  | _ => none

/-- The guard `is_integer(V), V >= lo, V =< hi`. -/
def intIn (lo hi : ℤ) : ErlTerm → Bool
  | int n => decide (lo ≤ n) && decide (n ≤ hi)
  | _ => false

/-- The guard `is_integer(V), V >= lo`. -/
def intFrom (lo : ℤ) : ErlTerm → Bool
  | int n => decide (lo ≤ n)
  | _ => false

/-- The elements of a proper list. -/
def elems? : ErlTerm → Option (List ErlTerm)
  | list elems => some elems
  | _ => none

def int? : ErlTerm → Option ℤ
  | int n => some n
  | _ => none

def atom? : ErlTerm → Option String
  | atom name => some name
  | _ => none

end ErlTerm

open ErlTerm

/-- How the compiler stops: `fail(Fmt, Args)` with its message, or an exception (no
clause or pattern matches). -/
inductive FlowError where
  | fail (fmt : String) (args : List ErlTerm)
  | crash

abbrev Flow := Except FlowError

def crashIfNone {α : Type} : Option α → Flow α
  | some a => .ok a
  | none => .error .crash

/-! ### Validation -/

def validateSensor (s : ErlTerm) : Flow Unit :=
  match s.key "bus", s.key "addr", s.key "reg", s.key "poll_ms" with
  | some b, some a, some r, some p =>
    if b.intIn 0 3 && a.intIn 0 127 && r.intIn 0 255 && p.intFrom 0 then .ok ()
    else .error (.fail "invalid sensor: ~p" [s])
  | _, _, _, _ => .error (.fail "invalid sensor: ~p" [s])

def validateActuator (a : ErlTerm) : Flow Unit :=
  match a.key "kind", a.key "channel" with
  | some k, some c =>
    if k.same (atom "pwm") && c.intIn 0 7 then .ok ()
    else .error (.fail "invalid actuator: ~p" [a])
  | _, _ => .error (.fail "invalid actuator: ~p" [a])

/-- `lists:any` of `fun(#{name := V}) -> V =:= Value end`, which stops at the first hit
and has no clause for an element without the key. -/
def anyWithKey (name : String) (value : ErlTerm) : List ErlTerm → Flow Bool
  | [] => .ok false
  | t :: ts =>
    match t.key name with
    | none => .error .crash
    | some v => if v.same value then .ok true else anyWithKey name value ts

def validateFlow (ss as : List ErlTerm) (f : ErlTerm) : Flow Unit :=
  match f.key "from", f.key "to" with
  | some addr, some (.tuple [tag, ch]) =>
    if tag.same (atom "pwm") then do
      unless ← anyWithKey "addr" addr ss do
        throw (.fail "flow: unknown sensor addr=0x~.16B" [addr])
      unless ← anyWithKey "channel" ch as do
        throw (.fail "flow: unknown actuator channel=~p" [ch])
    else .error (.fail "invalid flow: ~p" [f])
  | _, _ => .error (.fail "invalid flow: ~p" [f])

def validatePolicy (p : ErlTerm) : Flow Unit :=
  match p.key "mailbox_depth", p.key "watchdog_ms", p.key "on_fail" with
  | some m, some w, some f =>
    if m.intFrom 1 && w.intFrom 1 &&
        (f.same (atom "stop_actuator") || f.same (atom "hold_last") || f.same (atom "ignore")) then
      .ok ()
    else .error (.fail "invalid policy: ~p" [p])
  | _, _, _ => .error (.fail "invalid policy: ~p" [p])

/-- `lists:foreach`. -/
def foreach (f : ErlTerm → Flow Unit) : List ErlTerm → Flow Unit
  | [] => .ok ()
  | t :: ts => do f t; foreach f ts

def validate (flow : ErlTerm) : Flow Unit :=
  match flow.key "sensors", flow.key "actuators", flow.key "flows", flow.key "policy" with
  | some ss, some as, some fs, some p => do
    let ss ← crashIfNone ss.elems?
    foreach validateSensor ss
    let as ← crashIfNone as.elems?
    foreach validateActuator as
    let fs ← crashIfNone fs.elems?
    foreach (validateFlow ss as) fs
    validatePolicy p
  | _, _, _, _ =>
    .error (.fail "flow must be a map with keys: sensors, actuators, flows, policy" [])

/-! ### Bytecode compilation -/

/-- The four bytes of `V band 16#FF, (V bsr 8) band 16#FF, ...`. -/
def leBytes (v : ℕ) : List Byte :=
  [BitVec.ofNat 8 v, BitVec.ofNat 8 (v >>> 8), BitVec.ofNat 8 (v >>> 16), BitVec.ofNat 8 (v >>> 24)]

def i32le : ℤ → List Byte
  | .ofNat v => leBytes v
  -- `i32le((1 bsl 32) + V)` until the argument is non-negative
  | .negSucc v => leBytes ((Int.negSucc v) % 2 ^ 32).toNat

def constI32 (r : Byte) (v : ℤ) : List Byte := 0x01 :: r :: i32le v

/-- The `Init` block of `compile_sensor`. -/
def sensorInit (bus addr reg pollMs pwmCh actPid : ℤ) : List Byte :=
  (constI32 0 bus ++ constI32 1 addr ++ constI32 2 reg ++ constI32 3 actPid ++
    constI32 4 2 ++ constI32 5 pwmCh ++ constI32 6 pollMs ++ constI32 8 0)

/-- The `Body` block of `compile_sensor`. -/
def sensorBody (pollMs : ℤ) : List Byte :=
  [0x10, 3, 3, 0, 1, 2, 7] ++ [0x10, 4, 0, 9] ++ [0x21, 3, 4, 5, 7, 8, 8] ++
    if pollMs = 0 then [0x23] else [0x40, 6]

def compileSensor (bus addr reg pollMs pwmCh actPid : ℤ) : List Byte :=
  let init := sensorInit bus addr reg pollMs pwmCh actPid
  let loopPc : ℤ := init.length
  let body := sensorBody pollMs
  let jmpOff := loopPc - (loopPc + body.length + 5)
  init ++ body ++ 0x30 :: i32le jmpOff

def actuatorBody : List Byte := [0x20, 0, 1, 2, 3, 4] ++ [0x10, 2, 2, 1, 2, 5]

def compileActuator : List Byte :=
  let jmpOff := 0 - ((actuatorBody.length : ℤ) + 5)
  actuatorBody ++ 0x30 :: i32le jmpOff

/-- The channel of the pattern `[#{to := {pwm, PwmCh}} | _] = Flows`. -/
def firstChannel : List ErlTerm → Flow ErlTerm
  | f :: _ =>
    match f.key "to" with
    | some (.tuple [tag, ch]) => if tag.same (atom "pwm") then .ok ch else .error .crash
    | _ => .error .crash
  | [] => .error .crash

/-- One element of the list comprehension. The arithmetic of `compile_sensor` has no
value on a term that is not an integer. -/
def compileSensorMap (pwmCh : ErlTerm) (actPid : ℤ) (s : ErlTerm) : Flow (List Byte) := do
  let b ← crashIfNone ((s.key "bus").bind int?)
  let a ← crashIfNone ((s.key "addr").bind int?)
  let r ← crashIfNone ((s.key "reg").bind int?)
  let p ← crashIfNone ((s.key "poll_ms").bind int?)
  let ch ← crashIfNone pwmCh.int?
  return compileSensor b a r p ch actPid

/-- `compile_flow`: the sensor programs in order, and the actuator program. -/
def compileFlow (flow : ErlTerm) : Flow (List (List Byte) × List Byte) :=
  match flow.key "sensors", flow.key "flows" with
  | some ss, some fs => do
    let fs ← crashIfNone fs.elems?
    let pwmCh ← firstChannel fs
    let ss ← crashIfNone ss.elems?
    let actPid : ℤ := ss.length + 1
    let progs ← ss.mapM (compileSensorMap pwmCh actPid)
    return (progs, compileActuator)
  | _, _ => .error .crash

/-- Validation followed by compilation, as the escript's `main` runs them. -/
def compile (flow : ErlTerm) : Flow (List (List Byte) × List Byte) := do
  validate flow
  compileFlow flow

/-! ### C header output -/

/-- `~B`. -/
def fmtInt : ℤ → List Char
  | .ofNat n => Nat.toDigits 10 n
  | .negSucc n => '-' :: Nat.toDigits 10 (n + 1)

/-- `0x~2.16.0B`. -/
def fmtByte (b : Byte) : List Char :=
  "0x".toList ++ ((Nat.toDigits 16 b.toNat).map Char.toUpper).leftpad 2 '0'

def fmtBytes : List Byte → ℕ → List Char
  | [], _ => []
  | [b], _ => fmtByte b
  | b :: r, c =>
    if 0 < c ∧ c % 12 = 0 then fmtByte b ++ ",\n    ".toList ++ fmtBytes r (c + 1)
    else fmtByte b ++ ", ".toList ++ fmtBytes r (c + 1)

def arr (name : List Char) (bs : List Byte) : List Char :=
  "static const uint8_t ".toList ++ name ++ "[".toList ++ fmtInt bs.length ++
    "] = \x7b\n    ".toList ++ fmtBytes bs 0 ++ "\n\x7d;\n".toList

/-- The lines up to the first array. -/
def headerDefines (nSensors : ℕ) (md wd : ℤ) (ofs : List Char) : List Char :=
  List.flatten
    ["/* Generated by OS/II flow compiler -- do not edit */\n".toList,
      "#ifndef OS2_FLOW_GENERATED_H\n#define OS2_FLOW_GENERATED_H\n\n".toList,
      "#define OS2_FLOW_SENSOR_COUNT ".toList ++ fmtInt nSensors ++ "\n".toList,
      "#define OS2_FLOW_PROCESS_COUNT ".toList ++ fmtInt (nSensors + 1) ++ "\n".toList,
      "#define OS2_FLOW_MAILBOX_DEPTH ".toList ++ fmtInt md ++ "\n".toList,
      "#define OS2_FLOW_WATCHDOG_MS ".toList ++ fmtInt wd ++ "\n".toList,
      "#define OS2_FLOW_ON_FAIL \"".toList ++ ofs ++ "\"\n\n".toList]

def sensorProgName (i : ℕ) : List Char := "os2_flow_sensor_prog_".toList ++ fmtInt i

def actuatorProgName : List Char := "os2_flow_actuator_prog".toList

/-- `lists:seq(1, N)`. -/
def seq (n : ℕ) : List ℕ := List.range' 1 n

def sensorArrays (sProgs : List (List Byte)) : List Char :=
  ((seq sProgs.length).zip sProgs).flatMap fun (i, p) => arr (sensorProgName i) p

def sensorTable (nSensors : ℕ) : List Char :=
  "static const uint8_t *os2_flow_sensor_progs[] = \x7b\n".toList ++
    ",\n".toList.intercalate ((seq nSensors).map fun i => "    ".toList ++ sensorProgName i) ++
    "\n\x7d;\n".toList

def sizeTable (nSensors : ℕ) : List Char :=
  "static const size_t os2_flow_sensor_sizes[] = \x7b\n    ".toList ++
    ", ".toList.intercalate
      ((seq nSensors).map fun i => "sizeof(".toList ++ sensorProgName i ++ ")".toList) ++
    "\n\x7d;\n".toList

/-- The list that `emit_header` flattens. -/
def headerText (nSensors : ℕ) (md wd : ℤ) (ofs : List Char) (sProgs : List (List Byte))
    (aProg : List Byte) : List Char :=
  List.flatten
    [headerDefines nSensors md wd ofs, sensorArrays sProgs, "\n".toList, sensorTable nSensors,
      sizeTable nSensors, "\n".toList, arr actuatorProgName aProg, "\n#endif\n".toList]

def emitHeader (flow : ErlTerm) (sProgs : List (List Byte)) (aProg : List Byte) :
    Flow (List Char) :=
  match flow.key "sensors", flow.key "policy" with
  | some ss, some policy =>
    match policy.key "mailbox_depth", policy.key "watchdog_ms", policy.key "on_fail" with
    | some md, some wd, some onFail => do
      let nSensors := (← crashIfNone ss.elems?).length
      let ofs ← crashIfNone onFail.atom?
      let md ← crashIfNone md.int?
      let wd ← crashIfNone wd.int?
      -- `lists:zip` has no clause for lists of different lengths
      if sProgs.length = nSensors then
        return headerText nSensors md wd ofs.toList sProgs aProg
      else .error .crash
    | _, _, _ => .error .crash
  | _, _ => .error .crash

/-! ### Deployment -/

/-- The spawning loop of `main.c`: the sensor programs in order, then the actuator. A
program that finds no free slot is not spawned. -/
def deploy (sensors : List (List Byte)) (actuator : List Byte) : Scheduler :=
  (mbSchedSpawn (sensors.foldl (fun sched p => (mbSchedSpawn sched p).2) mbSchedInit) actuator).2

end MiniBeam

import MiniBeam.Model.Zephyr
import MiniBeam.Verification.Flow.Delivery
import MiniBeam.Verification.Flow.Timing
import Mathlib.Data.BitVec

/-! The loop of the Zephyr application over a run: which pointers it reads through, and what the
lines of its log say of the ticks they stand for. -/

namespace MiniBeam

/-! ### The pointers of `main` -/

section Spawn

variable {s : Scheduler} {programs sensors : List (List Byte)} {actuator : List Byte}

/-- The entry that a pid of the table in order points at. -/
theorem Spawned.mbSchedProc (h : Spawned s programs) {k : ℕ} (hk : k < programs.length) :
    mbSchedProc s (if k < maxProcesses then BitVec.ofNat 8 (k + 1) else 0) =
      .ok (if hlt : k < maxProcesses then some ⟨k, hlt⟩ else none) := by
  have hmax : maxProcesses = 8 := rfl
  by_cases hlt : k < maxProcesses
  · have hnat : (BitVec.ofNat 8 (k + 1)).toNat = k + 1 := by
      rw [BitVec.toNat_ofNat]
      omega
    have hpos : BitVec.ofNat 8 (k + 1) ≠ 0 := fun hz => by
      rw [hz] at hnat
      exact absurd hnat (by simp)
    have hocc : ¬ (s.proc ⟨k, hlt⟩).state = .free := by
      rw [h.free_iff]
      exact Nat.not_le_of_lt hk
    rw [if_pos hlt, dif_pos hlt, MiniBeam.mbSchedProc, if_neg (not_or.mpr ⟨hpos, by omega⟩)]
    simp only [hnat, Nat.add_sub_cancel, hlt, dite_true, hocc, if_false]
  · rw [if_neg hlt, dif_neg hlt, MiniBeam.mbSchedProc, if_pos (.inl rfl)]

theorem spawnSensors_later (procS : Option Slot) {i : ℕ} (hi : i ≠ 0) :
    spawnSensors s procS i programs =
      .ok (programs.foldl (fun sched p => (mbSchedSpawn sched p).2) s, procS) := by
  induction programs generalizing s i with
  | nil => rfl
  | cons program programs ih =>
      simp only [spawnSensors, if_neg hi, ok_bind]
      exact ih (Nat.succ_ne_zero i)

/-- `proc_s` is the first entry of the table, and `proc_a` the one behind the sensors, if there is
one left. -/
theorem mainSpawn_eq (hne : sensors ≠ []) (actuator : List Byte) : mainSpawn sensors actuator =
    .ok (deploy sensors actuator, some 0,
      if h : sensors.length < maxProcesses then some ⟨sensors.length, h⟩ else none) := by
  have hfirst : ∀ program, MiniBeam.mbSchedProc (mbSchedSpawn mbSchedInit program).2
      (mbSchedSpawn mbSchedInit program).1 = .ok (some 0) := fun program => by
    rw [spawned_init.pid program]
    exact (spawned_init.spawn program).mbSchedProc (k := 0) (by simp)
  cases sensors with
  | nil => exact absurd rfl hne
  | cons program rest =>
      have hloop : spawnSensors mbSchedInit none 0 (program :: rest) =
          .ok ((program :: rest).foldl (fun sched p => (mbSchedSpawn sched p).2) mbSchedInit,
            some 0) := by
        simp only [spawnSensors, if_true, hfirst, ok_bind]
        exact spawnSensors_later (some 0) (Nat.succ_ne_zero 0)
      have hsensors := spawned_init.foldl (program :: rest)
      rw [List.nil_append] at hsensors
      have hactuator := (hsensors.spawn actuator).mbSchedProc (k := (program :: rest).length)
        (by simp)
      rw [← hsensors.pid actuator] at hactuator
      rw [mainSpawn, hloop, ok_bind]
      dsimp only
      rw [hactuator]
      rfl

/-- With both pointers set, the table is the deployed one, behind a sensor and before a free
entry at most. -/
theorem mainSpawn_ok {sched : Scheduler} {procS procA : Slot}
    (h : mainSpawn sensors actuator = .ok (sched, some procS, some procA)) :
    sched = deploy sensors actuator ∧ procS = 0 ∧ procA.val = sensors.length := by
  have hne : sensors ≠ [] := by
    rintro rfl
    obtain ⟨⟨sched', procS'⟩, hloop, h⟩ := bind_eq_ok.mp h
    cases hloop
    obtain ⟨procA', -, h⟩ := bind_eq_ok.mp h
    cases h
  rw [mainSpawn_eq hne] at h
  split at h
  · cases h
    exact ⟨rfl, rfl, rfl⟩
  · cases h

end Spawn

/-! ### Runs of the loop -/

/-- What the loop sees of a turn: the status of the tick, the uptime, the timestamp of the sensor
and whether it is a new one, and the two mailboxes. -/
structure Lap where
  status : Status
  now : BitVec 32
  stamp : I32
  event : Bool
  aDepth : ℕ
  sDepth : ℕ

/-- The last timestamp other than zero. -/
def lastStamp (laps : List Lap) : I32 := ((laps.map Lap.stamp).filter (· ≠ 0)).getLastD 0

/-- The lap behind some others, from the tick and the two processes after it. A timestamp other
than zero is an event unless it is the last one seen. -/
def Lap.behind (past : List Lap) (status : Status) (now : BitVec 32) (a s : Process) : Lap where
  status := status
  now := now
  stamp := sensorTs s
  event := decide (sensorTs s ≠ 0 ∧ sensorTs s ≠ lastStamp past)
  aDepth := a.mailbox.count
  sDepth := s.mailbox.count

/-- The laps of a run of the loop from `sys₀`, where it stands after them, and what `main` returned,
if it did. -/
inductive MainRuns (hal : Hal) (procS procA : Slot) (sys₀ : System) :
    List Lap → System → MainLoop → List Stress → Option I32 → Prop
  | start : MainRuns hal procS procA sys₀ [] sys₀ .zero [] none
  | turn {laps : List Lap} {sys sys' : System} {l l' : MainLoop} {log : List Stress} {rc : Status}
      {line : Option Stress} {exit : Option I32} (input : TurnInput)
      (before : MainRuns hal procS procA sys₀ laps sys l log none)
      (body : mainLoop hal (some procS) (some procA) input sys l = .ok (rc, sys', l', line, exit)) :
      MainRuns hal procS procA sys₀
        (laps ++ [.behind laps rc input.now (sys'.sched.proc procA) (sys'.sched.proc procS)])
        sys' l' (log ++ line.toList) exit

/-- The highest of some depths. -/
def peak (depths : List ℕ) : ℕ := depths.foldl max 0

theorem peak_append (depths : List ℕ) (depth : ℕ) :
    peak (depths ++ [depth]) = max (peak depths) depth := by
  rw [peak, List.foldl_append]
  rfl

theorem lastStamp_append (laps : List Lap) (lap : Lap) :
    lastStamp (laps ++ [lap]) = if lap.stamp = 0 then lastStamp laps else lap.stamp := by
  rw [lastStamp, List.map_append, List.filter_append, List.map_singleton]
  by_cases h : lap.stamp = 0
  · have hnone : [lap.stamp].filter (· ≠ 0) = [] :=
      List.filter_eq_nil_iff.mpr fun ts hts => by simpa using (List.mem_singleton.mp hts).trans h
    rw [hnone, List.append_nil, if_pos h, lastStamp]
  · have hone : [lap.stamp].filter (· ≠ 0) = [lap.stamp] :=
      List.filter_eq_self.mpr fun ts hts => decide_eq_true (List.mem_singleton.mp hts ▸ h)
    rw [hone, List.getLastD_concat, if_neg h]

/-- Counters that stand for some laps. -/
structure Tally (laps : List Lap) (ticks events idle errors aDepthMax sDepthMax : BitVec 32) :
    Prop where
  ticks : ticks = .ofNat 32 laps.length
  events : events = .ofNat 32 (laps.countP Lap.event)
  idle : idle = .ofNat 32 (laps.countP fun lap => lap.status = .schedIdle)
  errors : errors = .ofNat 32 (laps.countP fun lap => lap.status ≠ .ok ∧ lap.status ≠ .schedIdle)
  aDepthMax : aDepthMax.toNat = peak (laps.map Lap.aDepth)
  sDepthMax : sDepthMax.toNat = peak (laps.map Lap.sDepth)

/-- The counters of the loop stand for the laps since the last line. -/
def MainLoop.Tallies (l : MainLoop) (laps : List Lap) : Prop :=
  Tally laps l.tickCount l.eventCount l.idleCount l.errorCount l.maxADepth l.maxSDepth

/-- A line stands for some laps and the first one behind them that is five seconds or more behind
the line before it, with the rates over this time and the mailboxes of that lap. -/
structure Stress.Tallies (line : Stress) (since : BitVec 32) (laps : List Lap) (last : Lap) :
    Prop where
  tally : Tally (laps ++ [last]) line.ticks line.events line.idle line.errors line.aDepthMax
    line.sDepthMax
  early : ∀ lap ∈ laps, lap.now - since < 5000
  due : 5000 ≤ last.now - since
  ticksPerS : line.ticksPerS = line.ticks * 1000 / (last.now - since)
  eventsPerS : line.eventsPerS = line.events * 1000 / (last.now - since)
  aDepthNow : line.aDepthNow.toNat = last.aDepth
  sDepthNow : line.sDepthNow.toNat = last.sDepth

/-- The lines of a log, the laps they stand for one after the other, and the uptime of the last
line. -/
inductive Logged : List Stress → List Lap → BitVec 32 → Prop
  | start : Logged [] [] 0
  | line {log : List Stress} {covered laps : List Lap} {since : BitVec 32} {line : Stress}
      {last : Lap} (before : Logged log covered since) (counts : line.Tallies since laps last) :
      Logged (log ++ [line]) (covered ++ (laps ++ [last])) last.now

section Counters

variable {l : MainLoop} {laps : List Lap}

theorem ofNat_succ (n : ℕ) : BitVec.ofNat 32 n + 1 = .ofNat 32 (n + 1) := by
  apply BitVec.eq_of_toNat_eq
  simp

theorem tallies_zero (lastTs lastStatsTs : BitVec 32) :
    MainLoop.Tallies { MainLoop.zero with lastTs := lastTs, lastStatsTs := lastStatsTs } [] :=
  ⟨rfl, rfl, rfl, rfl, rfl, rfl⟩

theorem depth_toNat {n : ℕ} (hn : n ≤ mailboxCapacity) : (BitVec.ofNat 32 n).toNat = n := by
  have hcap : mailboxCapacity = 32 := rfl
  rw [BitVec.toNat_ofNat]
  exact Nat.mod_eq_of_lt (by omega)

theorem countTick_eq (l : MainLoop) (rc : Status) : l.countTick rc = { l with
    tickCount := l.tickCount + 1
    idleCount := if rc = .schedIdle then l.idleCount + 1 else l.idleCount
    errorCount := if rc ≠ .ok ∧ rc ≠ .schedIdle then l.errorCount + 1 else l.errorCount } := by
  cases rc <;> rfl

theorem countEvent_eq (l : MainLoop) (ts : I32) : l.countEvent ts = { l with
    eventCount := if ts ≠ 0 ∧ ts ≠ l.lastTs then l.eventCount + 1 else l.eventCount
    lastTs := if ts = 0 then l.lastTs else ts } := by
  rw [MainLoop.countEvent]
  by_cases hnew : ts ≠ 0 ∧ ts ≠ l.lastTs
  · simp only [if_pos hnew, if_neg hnew.1]
  · have hlast : (if ts = 0 then l.lastTs else ts) = l.lastTs := by
      split
      · rfl
      · rename_i hzero
        exact not_not.mp fun hne => hnew ⟨hzero, hne⟩
    simp only [if_neg hnew, hlast]

/-- The greater of a counter and a depth. -/
def raised (top : BitVec 32) (depth : ℕ) : BitVec 32 :=
  if depth > top.toNat then .ofNat 32 depth else top

theorem raised_toNat (top : BitVec 32) {depth : ℕ} (hd : depth ≤ mailboxCapacity) :
    (raised top depth).toNat = max top.toNat depth := by
  rw [raised]
  split
  · rename_i hgt
    rw [depth_toNat hd, Nat.max_eq_right (Nat.le_of_lt hgt)]
  · rename_i hle
    rw [Nat.max_eq_left (Nat.le_of_not_lt hle)]

theorem trackDepth_eq (l : MainLoop) (aDepth sDepth : ℕ) : l.trackDepth aDepth sDepth =
    { l with maxADepth := raised l.maxADepth aDepth, maxSDepth := raised l.maxSDepth sDepth } := by
  simp only [MainLoop.trackDepth, raised]
  split <;> split <;> rfl

/-- The counters after a lap, before the summary. -/
def MainLoop.count (l : MainLoop) (lap : Lap) : MainLoop :=
  ((l.countTick lap.status).countEvent lap.stamp).trackDepth lap.aDepth lap.sDepth

theorem count_eq (l : MainLoop) (lap : Lap) : l.count lap = { l with
    tickCount := l.tickCount + 1
    eventCount := if lap.stamp ≠ 0 ∧ lap.stamp ≠ l.lastTs then l.eventCount + 1 else l.eventCount
    idleCount := if lap.status = .schedIdle then l.idleCount + 1 else l.idleCount
    errorCount :=
      if lap.status ≠ .ok ∧ lap.status ≠ .schedIdle then l.errorCount + 1 else l.errorCount
    maxADepth := raised l.maxADepth lap.aDepth
    maxSDepth := raised l.maxSDepth lap.sDepth
    lastTs := if lap.stamp = 0 then l.lastTs else lap.stamp } := by
  rw [MainLoop.count, trackDepth_eq, countEvent_eq, countTick_eq]

/-- A counter that goes up with each lap of a kind. -/
theorem count_succ {n : BitVec 32} {P : Lap → Bool} {c : Prop} [Decidable c] {lap : Lap}
    (h : n = .ofNat 32 (laps.countP P)) (hc : P lap = true ↔ c) :
    (if c then n + 1 else n) = .ofNat 32 ((laps ++ [lap]).countP P) := by
  rw [List.countP_append, List.countP_singleton]
  by_cases hlap : c
  · rw [if_pos hlap, if_pos (hc.mpr hlap), h, ofNat_succ]
  · rw [if_neg hlap, if_neg (mt hc.mp hlap), h, Nat.add_zero]

/-- A turn counts its lap. -/
theorem MainLoop.Tallies.turn (h : l.Tallies laps) {lap : Lap}
    (hevent : lap.event = true ↔ lap.stamp ≠ 0 ∧ lap.stamp ≠ l.lastTs)
    (ha : lap.aDepth ≤ mailboxCapacity) (hs : lap.sDepth ≤ mailboxCapacity) :
    (l.count lap).Tallies (laps ++ [lap]) := by
  rw [count_eq]
  refine ⟨?_, ?_, ?_, ?_, ?_, ?_⟩
  · rw [h.ticks, ofNat_succ, List.length_append, List.length_singleton]
  · exact count_succ h.events hevent
  · exact count_succ h.idle decide_eq_true_iff
  · exact count_succ h.errors decide_eq_true_iff
  · dsimp only
    rw [raised_toNat _ ha, h.aDepthMax, List.map_append, List.map_singleton, peak_append]
  · dsimp only
    rw [raised_toNat _ hs, h.sDepthMax, List.map_append, List.map_singleton, peak_append]

end Counters

/-- One turn in terms of the tick and the lap. -/
theorem mainLoop_ok {hal : Hal} {procS procA : Slot} {input : TurnInput} {sys sys' : System}
    {l l' : MainLoop} {rc : Status} {line : Option Stress} {exit : Option I32}
    (h : mainLoop hal (some procS) (some procA) input sys l = .ok (rc, sys', l', line, exit))
    (past : List Lap) : mbSchedTick hal sys = .ok (rc, sys') ∧
      (l', line) = (l.count (.behind past rc input.now (sys'.sched.proc procA)
          (sys'.sched.proc procS))).summary input.now (sys'.sched.proc procA).mailbox.count
            (sys'.sched.proc procS).mailbox.count ∧
      exit = if input.feed.slt 0 then some (-1) else none := by
  obtain ⟨⟨rc', sys₁⟩, htick, h⟩ := bind_eq_ok.mp h
  cases h
  exact ⟨htick, rfl, rfl⟩

/-- The turns that are made: those up to the first whose feed of the watchdog fails. -/
def made : List TurnInput → List TurnInput
  | [] => []
  | input :: inputs => if input.feed.slt 0 then [input] else input :: made inputs

/-- No feed of the watchdog fails. -/
def Fed (inputs : List TurnInput) : Prop := ∀ input ∈ inputs, 0 ≤ input.feed.toInt

theorem made_fed {inputs : List TurnInput} (h : Fed inputs) : made inputs = inputs := by
  induction inputs with
  | nil => rfl
  | cons input inputs ih =>
      have hfeed := h input (by simp)
      have hok : ¬ input.feed.slt 0 := by
        rw [BitVec.slt_iff_toInt_lt]
        exact not_lt.mpr hfeed
      rw [made, if_neg hok, ih fun other hother => h other (by simp [hother])]

/-- The loop of `main` over some readings of the clock, as turns. -/
theorem MainRuns.run {hal : Hal} {procS procA : Slot} {sys₀ sys sys' : System} {laps : List Lap}
    {l l' : MainLoop} {log more : List Stress} {inputs : List TurnInput} {exit : Option I32}
    (h : MainRuns hal procS procA sys₀ laps sys l log none)
    (hrun : mainRun hal (some procS) (some procA) inputs sys l = .ok (sys', l', more, exit)) :
    ∃ laps', laps'.length = (made inputs).length ∧
      MainRuns hal procS procA sys₀ (laps ++ laps') sys' l' (log ++ more) exit := by
  induction inputs generalizing sys l laps log more with
  | nil =>
      cases hrun
      exact ⟨[], rfl, by simpa using h⟩
  | cons input inputs ih =>
      obtain ⟨⟨rc, sys₁, l₁, line, exit₁⟩, hbody, hrun⟩ := bind_eq_ok.mp hrun
      have hturn := MainRuns.turn input h hbody
      obtain ⟨-, -, hexit⟩ := mainLoop_ok hbody laps
      dsimp only at hrun
      by_cases hfeed : input.feed.slt 0
      · rw [if_pos hfeed] at hexit
        subst hexit
        cases hrun
        exact ⟨_, by rw [made, if_pos hfeed]; rfl, hturn⟩
      · rw [if_neg hfeed] at hexit
        subst hexit
        obtain ⟨⟨sys₂, l₂, tail, exit₂⟩, hrest, hrun⟩ := bind_eq_ok.mp hrun
        cases hrun
        obtain ⟨laps', hlength, hruns⟩ := ih hturn hrest
        rw [List.append_assoc, List.append_assoc] at hruns
        refine ⟨_, ?_, hruns⟩
        rw [made, if_neg hfeed, List.length_append, List.length_singleton, hlength, Nat.add_comm]
        rfl

section Accounts

variable {hal : Hal} {procS procA : Slot} {sensors : List (List Byte)} {actuator : List Byte}
  {sys : System} {laps : List Lap} {l : MainLoop} {log : List Stress} {exit : Option I32}

theorem MainRuns.flowRuns
    (h : MainRuns hal procS procA ⟨deploy sensors actuator, []⟩ laps sys l log exit) :
    FlowRuns hal sensors actuator sys := by
  induction h with
  | start => exact .deployed
  | turn input before body ih => exact .tick ih (mainLoop_ok body []).1

theorem Runs.depth {hal : Hal} {sys : System} (h : Runs hal sys) (i : Slot) :
    (sys.sched.proc i).mailbox.count ≤ mailboxCapacity := by
  obtain ⟨q, hq⟩ := (ledgers_invariant.runs h).2 i
  rw [hq.holds.count_eq]
  exact q.bounded

/-- The counters and the log of the loop stand for the laps made. -/
def MainLoop.Accounts (l : MainLoop) (laps : List Lap) (log : List Stress) : Prop :=
  ∃ covered rest, laps = covered ++ rest ∧ Logged log covered l.lastStatsTs ∧ l.Tallies rest ∧
    ∀ lap ∈ rest, lap.now - l.lastStatsTs < 5000

/-- The summary behind a lap adds at most one line. -/
theorem MainLoop.Accounts.turn {lap : Lap} {l' : MainLoop} {line : Option Stress}
    (h : l.Accounts laps log)
    (hevent : lap.event = true ↔ lap.stamp ≠ 0 ∧ lap.stamp ≠ l.lastTs)
    (ha : lap.aDepth ≤ mailboxCapacity) (hs : lap.sDepth ≤ mailboxCapacity)
    (hloop : (l', line) = (l.count lap).summary lap.now lap.aDepth lap.sDepth) :
    l'.Accounts (laps ++ [lap]) (log ++ line.toList) := by
  obtain ⟨covered, rest, rfl, hlogged, hrest, hearly⟩ := h
  have hcount := hrest.turn hevent ha hs
  have hsince : (l.count lap).lastStatsTs = l.lastStatsTs := by rw [count_eq]
  rw [MainLoop.summary, hsince] at hloop
  by_cases hdue : lap.now - l.lastStatsTs ≥ 5000
  · simp only [if_pos hdue] at hloop
    cases hloop
    refine ⟨covered ++ (rest ++ [lap]), [], by simp, hlogged.line ?_, tallies_zero _ _, by simp⟩
    exact ⟨hcount, hearly, hdue, rfl, rfl, depth_toNat ha, depth_toNat hs⟩
  · simp only [if_neg hdue] at hloop
    cases hloop
    refine ⟨covered, rest ++ [lap], List.append_assoc .., ?_, hcount, fun other hother => ?_⟩
    · rw [hsince]
      simpa using hlogged
    · rw [hsince]
      rcases List.mem_append.mp hother with hother | hother
      · exact hearly other hother
      · obtain rfl := List.mem_singleton.mp hother
        exact BitVec.not_le.mp hdue

theorem MainRuns.accounts
    (h : MainRuns hal procS procA ⟨deploy sensors actuator, []⟩ laps sys l log exit) :
    l.lastTs = lastStamp laps ∧ l.Accounts laps log := by
  induction h with
  | start => exact ⟨rfl, [], [], rfl, .start, tallies_zero 0 0, by simp⟩
  | @turn laps sys sys' l l' log rc line exit input before body ih =>
      obtain ⟨hlast, haccounts⟩ := ih
      obtain ⟨htick, hloop, -⟩ := mainLoop_ok body laps
      have hruns := (FlowRuns.tick before.flowRuns htick).runs
      constructor
      · have hl' := congrArg (fun r => MainLoop.lastTs r.1) hloop
        have hkeep : ∀ (l : MainLoop) now a s, (l.summary now a s).1.lastTs = l.lastTs := by
          intro l now a s
          rw [MainLoop.summary]
          dsimp only
          split <;> rfl
        dsimp only at hl'
        rw [hl', hkeep, count_eq, lastStamp_append, hlast]
      · refine haccounts.turn ?_ (hruns.depth procA) (hruns.depth procS) hloop
        rw [hlast]
        exact decide_eq_true_iff

/-- No lap is lost from the log or counted twice in it, whatever programs were spawned: the lines
cut the run of the loop into pieces, each line stands for its piece, which ends with the first lap
five seconds or more behind the line before, and the counters of the loop stand for the rest. -/
theorem telemetry_accounts {sched : Scheduler}
    (hspawn : mainSpawn sensors actuator = .ok (sched, some procS, some procA))
    (h : MainRuns hal procS procA ⟨sched, []⟩ laps sys l log exit) :
    ∃ covered rest, laps = covered ++ rest ∧ Logged log covered l.lastStatsTs ∧ l.Tallies rest ∧
      ∀ lap ∈ rest, lap.now - l.lastStatsTs < 5000 := by
  obtain ⟨rfl, -, -⟩ := mainSpawn_ok hspawn
  exact h.accounts.2

/-- Ten turns, of which the ninth is five seconds behind the start. -/
def tenTurns : List TurnInput :=
  [⟨1, 0⟩, ⟨2, 0⟩, ⟨3, 0⟩, ⟨4, 0⟩, ⟨5, 0⟩, ⟨6, 0⟩, ⟨7, 0⟩, ⟨8, 0⟩, ⟨5000, 0⟩, ⟨5001, 0⟩]

/-- The flow of one sensor without a delay: the line counts eight events in nine turns, and the
loop one in the turn behind it. -/
theorem telemetry_accounts_fastPoll : ∃ (laps : List Lap) (sys : System) (line : Stress)
    (l : MainLoop), MainRuns countingHal 0 1
      ⟨deploy [compileSensor 1 0x39 0x92 0 0 2] compileActuator, []⟩ laps sys l [line] none ∧
    (line.ticks, line.events, l.tickCount, l.eventCount) = (9, 8, 1, 1) ∧
    ∃ covered rest, laps = covered ++ rest ∧ Logged [line] covered l.lastStatsTs ∧
      l.Tallies rest ∧ ∀ lap ∈ rest, lap.now - l.lastStatsTs < 5000 := by
  obtain ⟨⟨sys, l, log, exit⟩, hrun, hend⟩ := exists_ok_of_map
    (mainRun countingHal (some 0) (some 1) tenTurns
      ⟨deploy [compileSensor 1 0x39 0x92 0 0 2] compileActuator, []⟩ .zero)
    (fun r => (r.2.2.1.map fun line => (line.ticks, line.events, r.2.1.tickCount, r.2.1.eventCount),
      r.2.2.2)) ([(9, 8, 1, 1)], none) (by decide +kernel)
  obtain ⟨hlog, rfl⟩ := Prod.mk.inj hend
  obtain ⟨line, rfl, hcounts⟩ := List.map_eq_singleton_iff.mp hlog
  obtain ⟨laps, -, hruns⟩ := MainRuns.start.run hrun
  exact ⟨laps, sys, line, l, hruns, hcounts, telemetry_accounts (mainSpawn_eq (by simp) _) hruns⟩

end Accounts

/-! ### Deployed flows -/

section Flows

variable {hal : Hal} {f : FlowSpec} {who : Option Slot} {a : FlowState}

/-- A step of a flow with at most seven sensors sends no command to a sensor. -/
theorem FlowStep.deaf {self : Slot} {a' : FlowState} {ends : Bool}
    (hs : FlowStep hal f self a ends a')
    (hn : f.sensors.length ≤ 7) (hl : Latest f a) (haim : Aiming f a)
    (h : ∀ i : Slot, i.val < f.sensors.length → (a.queue i).duties = []) :
    ∀ i : Slot, i.val < f.sensors.length → (a'.queue i).duties = [] := by
  intro i hi
  have hother : ∀ j q, j.val = f.sensors.length →
      ((Function.update a.queue j q) i).duties = [] := fun j q hj => by
    have hne : i ≠ j := by
      rintro rfl
      omega
    rw [Function.update_of_ne hne]
    exact h i hi
  cases hs with
  | @send s j rc q left sensor next known offered =>
      have hlt : self.val < f.sensors.length := (List.getElem?_eq_some_iff.mp sensor).1
      obtain ⟨earlier, r, -, -, haims, hstrays⟩ := haim.resolved hl hlt next
      have hto : f.resolve ((a.sensor self).target.setWidth 8) = f.actuatorSlot? := by
        by_cases hb : Aims f.sensors.length earlier
        · exact haims hb
        · rw [hstrays hb] at known
          cases known
      rw [hto, FlowSpec.actuatorSlot?, dif_pos (by have hmax : maxProcesses = 8 := rfl; omega)]
        at known
      exact hother j q (congrArg Fin.val (Option.some.inj known)).symm
  | receive left actuator at_ oldest => exact hother self _ actuator
  | _ => exact h i hi

/-- With at most seven sensors no command reaches a sensor. -/
theorem FlowReach.deaf (h : FlowReach hal f who a) (hn : f.sensors.length ≤ 7) :
    ∀ i : Slot, i.val < f.sensors.length → (a.queue i).duties = [] := by
  induction h with
  | start => exact fun _ _ => rfl
  | idle _ ih | pick _ _ ih => exact ih
  | step before round ih | stop before round ih =>
      exact round.deaf hn before.latest (before.aiming hn) ih

/-- A flow entry that passed validation comes from a sensor. -/
theorem validateFlow_sensor {ss as : List ErlTerm} {e : ErlTerm}
    (h : validateFlow ss as e = .ok ()) :
    ss ≠ [] := by
  unfold validateFlow at h
  split at h
  · split at h
    · obtain ⟨known, hknown, h⟩ := Flow.bind_ok.mp h
      cases known with
      | false => cases h
      | true =>
          obtain ⟨s, hs, -⟩ := anyWithKey_true hknown
          exact List.ne_nil_of_mem hs
    · cases h
  · cases h

/-- A flow that compiles has a sensor. -/
theorem compile_nonempty {flow : ErlTerm} {progs : List (List Byte)} {act : List Byte}
    (h : compile flow = .ok (progs, act)) : progs ≠ [] := by
  obtain ⟨⟨⟩, hvalid, hcompile⟩ := Flow.bind_ok.mp h
  obtain ⟨ss, as, fs, -, hss, hfs, -, -, -, hflows, -⟩ := validate_ok hvalid
  obtain ⟨f, rfl, -, hall⟩ := compile_sensors h hss
  cases fs with
  | nil =>
      rw [compileFlow, hss, hfs] at hcompile
      cases hcompile
  | cons e rest =>
      have hlen := hall.length_eq
      have hpos := List.length_pos_iff.mpr (validateFlow_sensor (hflows e (by simp)))
      rw [← List.length_pos_iff, List.length_map]
      omega

section Turn

variable {procS procA : Option Slot} {sys sys' : System} {l : MainLoop} {rc : Status}

/-- The loop runs on as long as both pointers are set and no feed of the watchdog fails. -/
theorem mainRun_returns {procS procA : Slot}
    (h : FlowRuns hal (f.sensors.map f.sensorProgram) compileActuator sys) (inputs : List TurnInput)
    (l : MainLoop) : ∃ sys' l' log exit,
      mainRun hal (some procS) (some procA) inputs sys l = .ok (sys', l', log, exit) ∧
        (exit = none ↔ Fed inputs) := by
  induction inputs generalizing sys l with
  | nil => exact ⟨sys, l, [], none, rfl, by simp [Fed]⟩
  | cons input inputs ih =>
      obtain ⟨b, hrep, -⟩ := flow_refines h
      obtain ⟨rc, sys', htick, -⟩ := @Represents.tick hal _ _ _ hrep
      have hbody : ∃ l' line, mainLoop hal (some procS) (some procA) input sys l =
          .ok (rc, sys', l', line, if input.feed.slt 0 then some (-1) else none) := by
        rw [mainLoop, htick]
        exact ⟨_, _, rfl⟩
      obtain ⟨l', line, hbody⟩ := hbody
      rw [mainRun, hbody, ok_bind]
      dsimp only
      by_cases hfeed : input.feed.slt 0
      · rw [if_pos hfeed]
        refine ⟨sys', l', line.toList, some (-1), rfl, iff_of_false (fun hn => by cases hn) ?_⟩
        rw [BitVec.slt_iff_toInt_lt] at hfeed
        exact fun hfed => absurd (hfed input (by simp)) (not_le.mpr hfeed)
      · rw [if_neg hfeed]
        obtain ⟨sys'', l'', log, exit, hrest, hexit⟩ := ih (.tick h htick) l'
        rw [hrest]
        refine ⟨sys'', l'', line.toList ++ log, exit, rfl, hexit.trans ?_⟩
        rw [BitVec.slt_iff_toInt_lt] at hfeed
        exact ⟨fun hfed => List.forall_mem_cons.mpr ⟨not_lt.mp hfeed, hfed⟩,
          fun hfed => (List.forall_mem_cons.mp hfed).2⟩

/-- Without an actuator the first turn reads through a null pointer. -/
theorem mainRun_null {p : Slot}
    (h : FlowRuns hal (f.sensors.map f.sensorProgram) compileActuator sys) (input : TurnInput)
    (inputs : List TurnInput) (l : MainLoop) :
    mainRun hal (some p) none (input :: inputs) sys l = .error (.table 0) := by
  obtain ⟨b, hrep, -⟩ := flow_refines h
  obtain ⟨rc, sys', htick, -⟩ := @Represents.tick hal _ _ _ hrep
  rw [mainRun, mainLoop, htick]
  rfl

end Turn

/-- The loop of a compiled flow of at most seven sensors runs on any hardware and with any clock
until a feed of the watchdog fails, and no other flow's does: of a larger one `proc_a` is null,
and the first turn reads through it. -/
theorem main_runs_iff {flow : ErlTerm} {progs : List (List Byte)} {act : List Byte}
    (h : compile flow = .ok (progs, act)) :
    ∃ sched procS procA, mainSpawn progs act = .ok (sched, procS, procA) ∧
      ((∀ hal inputs, ∃ sys l log exit,
          mainRun hal procS procA inputs ⟨sched, []⟩ .zero = .ok (sys, l, log, exit) ∧
            (exit = none ↔ Fed inputs)) ↔ progs.length ≤ 7) ∧
      (7 < progs.length → procA = none ∧ ∀ hal input inputs,
        mainRun hal procS procA (input :: inputs) ⟨sched, []⟩ .zero = .error (.table 0)) := by
  have hmax : maxProcesses = 8 := rfl
  have hne := compile_nonempty h
  obtain ⟨f, rfl, rfl, -⟩ := compile_ok h
  refine ⟨_, _, _, mainSpawn_eq hne compileActuator, ?_⟩
  by_cases hn : (f.sensors.map f.sensorProgram).length ≤ 7
  · rw [dif_pos (by omega)]
    exact ⟨iff_of_true (fun hal inputs => mainRun_returns .deployed inputs .zero) hn,
      fun hmore => absurd hn (Nat.not_le.mpr hmore)⟩
  · rw [dif_neg (by omega)]
    have hnull : ∀ hal input inputs l, mainRun hal (some 0) none (input :: inputs)
        ⟨deploy (f.sensors.map f.sensorProgram) compileActuator, []⟩ l = .error (.table 0) :=
      fun hal => mainRun_null .deployed
    refine ⟨iff_of_false (fun hall => ?_) hn, fun _ => ⟨rfl, fun hal input inputs =>
      hnull hal input inputs .zero⟩⟩
    obtain ⟨sys, l, log, exit, hrun, -⟩ := hall (fun _ _ => ⟨0, 0, 0⟩) [⟨0, 0⟩]
    rw [hnull] at hrun
    cases hrun

/-- The loop of the flow of one sensor runs on, and the first turn of that of eight sensors does
not end. -/
theorem main_runs_iff_fastPoll :
    (∃ sched procS procA, mainSpawn [compileSensor 1 0x39 0x92 3 0 2] compileActuator =
        .ok (sched, procS, procA) ∧ ∀ hal inputs, ∃ sys l log exit,
          mainRun hal procS procA inputs ⟨sched, []⟩ .zero = .ok (sys, l, log, exit) ∧
            (exit = none ↔ Fed inputs)) ∧
    ∃ sched procS, mainSpawn (List.replicate 8 (compileSensor 1 0x39 0x92 0 0 9)) compileActuator =
        .ok (sched, procS, none) ∧ ∀ hal input inputs,
          mainRun hal procS none (input :: inputs) ⟨sched, []⟩ .zero = .error (.table 0) := by
  obtain ⟨sched, procS, procA, hspawn, hruns, -⟩ :=
    main_runs_iff (show compile (fastPoll 3) = _ from rfl)
  obtain ⟨sched', procS', procA', hspawn', -, hnull⟩ :=
    main_runs_iff (show compile (fastPollers 8 [fastPollFlow]) =
      .ok (List.replicate 8 (compileSensor 1 0x39 0x92 0 0 9), compileActuator) from rfl)
  obtain ⟨rfl, hfails⟩ := hnull (by rw [List.length_replicate]; decide)
  exact ⟨⟨sched, procS, procA, hspawn, hruns.mpr (by decide)⟩, sched', procS', hspawn', hfails⟩

/-- A lap of a flow fails nowhere and finds no command at the first sensor. -/
structure Lap.Smooth (lap : Lap) : Prop where
  status : lap.status = .ok ∨ lap.status = .schedIdle
  aDepth : lap.aDepth ≤ mailboxCapacity
  sDepth : lap.sDepth = 0

theorem MainRuns.smooth {procS procA : Slot} {sys : System} {laps : List Lap} {l : MainLoop}
    {log : List Stress} {exit : Option I32} (hS : procS.val < f.sensors.length)
    (hn : f.sensors.length ≤ 7) (h : MainRuns hal procS procA
      ⟨deploy (f.sensors.map f.sensorProgram) compileActuator, []⟩ laps sys l log exit) :
    ∀ lap ∈ laps, lap.Smooth := by
  induction h with
  | start => simp
  | @turn laps sys sys' l l' log rc line exit input before body ih =>
      obtain ⟨htick, -⟩ := mainLoop_ok body []
      have hruns := FlowRuns.tick before.flowRuns htick
      obtain ⟨b, hrep, -⟩ := flow_refines before.flowRuns
      obtain ⟨rc', sys'', hreturns, hrc⟩ := @Represents.tick hal _ _ _ hrep
      rw [htick] at hreturns
      cases hreturns
      obtain ⟨b', hrep', hreach⟩ := flow_refines hruns
      have hempty : (sys'.sched.proc procS).mailbox.count = 0 := by
        rw [(hrep'.holds procS).count_eq, f.inbox_queue, hreach.deaf hn procS hS]
        rfl
      intro lap hlap
      rcases List.mem_append.mp hlap with hlap | hlap
      · exact ih lap hlap
      · obtain rfl := List.mem_singleton.mp hlap
        exact ⟨hrc, hruns.runs.depth procA, hempty⟩

end Flows

section Lines

variable {laps covered : List Lap} {last : Lap} {since : BitVec 32} {line : Stress}
  {log : List Stress}

theorem le_peak {depths : List ℕ} {depth : ℕ} (h : depth ∈ depths) : depth ≤ peak depths := by
  induction depths using List.reverseRecOn with
  | nil => simp at h
  | append_singleton depths last ih =>
      rw [peak_append]
      rcases List.mem_append.mp h with h | h
      · exact le_max_of_le_left (ih h)
      · exact le_max_of_le_right (List.mem_singleton.mp h).le

theorem peak_le {depths : List ℕ} {bound : ℕ} (h : ∀ depth ∈ depths, depth ≤ bound) :
    peak depths ≤ bound := by
  induction depths using List.reverseRecOn with
  | nil => exact Nat.zero_le _
  | append_singleton depths last ih =>
      rw [peak_append]
      exact max_le (ih fun depth hd => h depth (by simp [hd])) (h last (by simp))

/-- What a line of a healthy flow reads. -/
structure Stress.Healthy (line : Stress) : Prop where
  errors : line.errors = 0
  sDepthMax : line.sDepthMax = 0
  sDepthNow : line.sDepthNow = 0
  aDepthNow : line.aDepthNow ≤ line.aDepthMax
  aDepthMax : line.aDepthMax ≤ 32

theorem Stress.Tallies.healthy (h : line.Tallies since laps last)
    (hlaps : ∀ lap ∈ laps ++ [last], lap.Smooth) : line.Healthy := by
  have hmem : last ∈ laps ++ [last] := by simp
  have herrors :
      ((laps ++ [last]).countP fun lap => lap.status ≠ .ok ∧ lap.status ≠ .schedIdle) = 0 := by
    refine List.countP_eq_zero.mpr fun lap hlap => ?_
    rcases (hlaps lap hlap).status with hok | hidle
    · simp [hok]
    · simp [hidle]
  have hpeak : peak ((laps ++ [last]).map Lap.sDepth) ≤ 0 := by
    refine peak_le fun depth hd => ?_
    obtain ⟨lap, hlap, rfl⟩ := List.mem_map.mp hd
    exact (hlaps lap hlap).sDepth.le
  have htop : peak ((laps ++ [last]).map Lap.aDepth) ≤ 32 := by
    refine peak_le fun depth hd => ?_
    obtain ⟨lap, hlap, rfl⟩ := List.mem_map.mp hd
    exact (hlaps lap hlap).aDepth
  refine ⟨?_, ?_, ?_, ?_, ?_⟩
  · rw [h.tally.errors, herrors]
    rfl
  · exact BitVec.eq_of_toNat_eq (h.tally.sDepthMax.trans (Nat.le_zero.mp hpeak))
  · exact BitVec.eq_of_toNat_eq (h.sDepthNow.trans (hlaps last hmem).sDepth)
  · rw [BitVec.le_def, h.aDepthNow, h.tally.aDepthMax]
    exact le_peak (List.mem_map_of_mem hmem)
  · rw [BitVec.le_def, h.tally.aDepthMax]
    exact htop

/-- Lines that stand for smooth laps are healthy. -/
theorem Logged.healthy (h : Logged log covered since) (hlaps : ∀ lap ∈ covered, lap.Smooth) :
    ∀ line ∈ log, line.Healthy := by
  induction h with
  | start => simp
  | line before counts ih =>
      intro line hline
      rcases List.mem_append.mp hline with hline | hline
      · exact ih (fun lap hlap => hlaps lap (List.mem_append_left _ hlap)) line hline
      · obtain rfl := List.mem_singleton.mp hline
        exact counts.healthy fun lap hlap => hlaps lap (List.mem_append_right _ hlap)

/-- The ticks of the lines add up to the laps they stand for. -/
theorem Logged.ticks (h : Logged log covered since) :
    (log.map Stress.ticks).sum = .ofNat 32 covered.length := by
  induction h with
  | start => rfl
  | line before counts ih =>
      rw [List.map_append, List.sum_append, ih, List.map_singleton, List.sum_singleton,
        counts.tally.ticks, ← BitVec.ofNat_add, ← List.length_append]

/-- In every run of the loop over a compiled flow of at most seven sensors: every line of the log
reads no error, an empty mailbox of the first sensor, and an actuator mailbox whose peak bounds its
current depth and is at most 32; and the ticks logged and the ticks still counted are
those made. -/
theorem flow_stress {flow : ErlTerm} {progs : List (List Byte)} {act : List Byte}
    (h : compile flow = .ok (progs, act)) (hn : progs.length ≤ 7) {sched : Scheduler}
    {procS procA : Option Slot} (hspawn : mainSpawn progs act = .ok (sched, procS, procA))
    {hal : Hal} {inputs : List TurnInput} {sys : System} {l : MainLoop} {log : List Stress}
    {exit : Option I32}
    (hrun : mainRun hal procS procA inputs ⟨sched, []⟩ .zero = .ok (sys, l, log, exit)) :
    (∀ line ∈ log, line.Healthy) ∧
      (log.map Stress.ticks).sum + l.tickCount = .ofNat 32 (made inputs).length := by
  have hmax : maxProcesses = 8 := rfl
  have hne := compile_nonempty h
  obtain ⟨f, rfl, rfl, -⟩ := compile_ok h
  have hpos := List.length_pos_iff.mpr hne
  rw [List.length_map] at hn hpos
  rw [mainSpawn_eq hne, dif_pos (by rw [List.length_map]; omega)] at hspawn
  cases hspawn
  obtain ⟨laps, hlength, hruns⟩ := MainRuns.start.run hrun
  rw [List.nil_append, List.nil_append] at hruns
  have hsmooth := hruns.smooth hpos hn
  obtain ⟨-, covered, rest, rfl, hlogged, hrest, -⟩ := hruns.accounts
  constructor
  · exact hlogged.healthy fun lap hlap => hsmooth lap (List.mem_append_left rest hlap)
  · rw [hlogged.ticks, hrest.ticks, ← BitVec.ofNat_add, ← List.length_append, hlength]

/-- Ten turns over the flow of one sensor without a delay, with a line behind the ninth. -/
theorem flow_stress_fastPoll : ∃ (sys : System) (l : MainLoop) (line : Stress),
    mainRun countingHal (some 0) (some 1) tenTurns
      ⟨deploy [compileSensor 1 0x39 0x92 0 0 2] compileActuator, []⟩ .zero =
        .ok (sys, l, [line], none) ∧
    line.Healthy ∧ line.ticks + l.tickCount = 10 := by
  obtain ⟨⟨sys, l, log, exit⟩, hrun, hend⟩ := exists_ok_of_map
    (mainRun countingHal (some 0) (some 1) tenTurns
      ⟨deploy [compileSensor 1 0x39 0x92 0 0 2] compileActuator, []⟩ .zero)
    (fun r => (r.2.2.1.length, r.2.2.2)) (1, none) (by decide +kernel)
  obtain ⟨hlog, rfl⟩ := Prod.mk.inj hend
  obtain ⟨line, rfl⟩ := List.length_eq_one_iff.mp hlog
  obtain ⟨hhealthy, hticks⟩ := flow_stress (show compile (fastPoll 0) = _ from rfl) (by decide)
    (mainSpawn_eq (by simp) _) hrun
  have hfed : Fed tenTurns := by
    unfold Fed tenTurns
    decide
  rw [made_fed hfed] at hticks
  exact ⟨sys, l, line, hrun, hhealthy line (by simp),
    by simpa [tenTurns] using hticks⟩

end Lines

end MiniBeam

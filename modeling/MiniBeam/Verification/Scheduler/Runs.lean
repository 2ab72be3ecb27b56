import MiniBeam.Verification.Scheduler.Moves
import Mathlib.Data.List.Induction

/-! The states a run of the system goes through: between two calls, and inside a tick
between two instructions. An invariant of the moves holds in all of them. -/

namespace MiniBeam

open Relation (ReflTransGen)

section Tick

variable {hal : Hal}

theorem proc_wakeSleepers (hal : Hal) (sys : System) (i : Slot) :
    (mbSchedWakeSleepers hal sys).sched.proc i =
      wake (hal sys.trace .monotonicMs).ms (sys.sched.proc i) := by
  simp [mbSchedWakeSleepers, Scheduler.proc]

/-- The scan returns a ready process, or no process, and reads inside the table. -/
theorem scanReady_ok (s : Scheduler) (start i n : ℕ) :
    ∃ found, scanReady s start i n = .ok found ∧
      ∀ idx, found = some idx → (s.proc idx).state = .ready := by
  induction n generalizing i with
  | zero => exact ⟨none, rfl, by simp⟩
  | succ n ih =>
      have hlt : (start + i) % maxProcesses < maxProcesses := Nat.mod_lt _ (by decide)
      simp only [scanReady, hlt, dite_true]
      split
      · rename_i hr
        refine ⟨some ⟨_, hlt⟩, rfl, fun idx h => ?_⟩
        rw [← Option.some.inj h]
        exact hr
      · exact ih (i + 1)

/-- The choice of a process: the sleepers are woken, and only `current` changes besides. -/
theorem mbSchedPick_ok (hal : Hal) (sys : System) :
    ∃ found current, mbSchedPick hal sys = .ok (found,
        { mbSchedWakeSleepers hal sys with
          sched := { (mbSchedWakeSleepers hal sys).sched with current := current } }) ∧
      (current < maxProcesses ∨ current = sys.sched.current) ∧
      ∀ self, found = some self →
        ((mbSchedWakeSleepers hal sys).sched.proc self).state = .ready := by
  obtain ⟨found, hscan, hready⟩ := scanReady_ok (mbSchedWakeSleepers hal sys).sched
    (mbSchedWakeSleepers hal sys).sched.current 0 maxProcesses
  simp only [mbSchedPick, hscan, ok_bind]
  cases found with
  | none => exact ⟨none, sys.sched.current, rfl, .inr rfl, hready⟩
  | some idx =>
      exact ⟨some idx, (idx.val + 1) % maxProcesses, rfl, .inl (Nat.mod_lt _ (by decide)), hready⟩

/-- A chosen process is ready. -/
theorem mbSchedPick_ready {sys sys₁ : System} {self : Slot}
    (h : mbSchedPick hal sys = .ok (some self, sys₁)) :
    (sys₁.sched.proc self).state = .ready := by
  obtain ⟨found, current, hpick, -, hready⟩ := mbSchedPick_ok hal sys
  rw [hpick] at h
  simp only [Except.ok.injEq, Prod.mk.injEq] at h
  obtain ⟨rfl, rfl⟩ := h
  exact hready self rfl

/-- A tick chooses a process and runs its slice, or finds none and stops. -/
theorem mbSchedTick_cases {sys sys' : System} {rc : Status}
    (h : mbSchedTick hal sys = .ok (rc, sys')) :
    (mbSchedPick hal sys = .ok (none, sys') ∧ rc = .schedIdle) ∨
    ∃ self sys₁, mbSchedPick hal sys = .ok (some self, sys₁) ∧
      runLoop hal maxReductions (maxReductions + 1) ((sys₁.startSlice self).machine self) =
        .ok (rc, sys'.machine self) := by
  obtain ⟨⟨found, sys₁⟩, hpick, h⟩ := bind_eq_ok.mp h
  cases found with
  | none =>
      simp only [pure_ok, Except.ok.injEq, Prod.mk.injEq] at h
      obtain ⟨rfl, rfl⟩ := h
      exact .inl ⟨hpick, rfl⟩
  | some self =>
      obtain ⟨⟨rc', m⟩, hrun, h⟩ := bind_eq_ok.mp h
      rw [mbProcRun_machine] at hrun
      obtain ⟨sys₂, rfl, -⟩ := runLoop_moves
        (by rw [System.startSlice, Scheduler.proc_setProc_self]; exact mbSchedPick_ready hpick) hrun
      simp only [pure_ok, Except.ok.injEq, Prod.mk.injEq] at h
      obtain ⟨rfl, rfl⟩ := h
      exact .inr ⟨self, sys₁, hpick, hrun⟩

/-- The slice of a tick is a sequence of moves of the chosen process. -/
theorem mbSchedTick_moves {sys sys₁ sys' : System} {self : Slot} {rc : Status}
    (hpick : mbSchedPick hal sys = .ok (some self, sys₁))
    (h : mbSchedTick hal sys = .ok (rc, sys')) : Moves self sys₁ sys' := by
  have hready := mbSchedPick_ready hpick
  rcases mbSchedTick_cases h with ⟨hnone, -⟩ | ⟨self', sys₁', hpick', hrun⟩
  · simp [hpick] at hnone
  · simp only [hpick, Except.ok.injEq, Prod.mk.injEq, Option.some.injEq] at hpick'
    obtain ⟨rfl, rfl⟩ := hpick'
    obtain ⟨sys₂, hm, hmoves⟩ := runLoop_moves
      (by rw [System.startSlice, Scheduler.proc_setProc_self]; exact hready) hrun
    rw [System.machine_inj.mp hm]
    exact (startSlice_moves hready).trans hmoves

end Tick

/-! ### Reached states -/

/-- A state between two calls of a run. -/
def Runs (hal : Hal) (sys : System) : Prop := ∃ calls, runCalls hal System.init calls = .ok sys

/-- A state inside a tick of a run, where the loop of `mb_proc_run` is about to start a
round for the process in slot `self`. -/
inductive Dispatched (hal : Hal) (self : Slot) : System → Prop
  | start {sys sys₁ : System} (run : Runs hal sys)
      (pick : mbSchedPick hal sys = .ok (some self, sys₁)) :
      Dispatched hal self (sys₁.startSlice self)
  | next {sys sys' : System} (before : Dispatched hal self sys)
      (round : runRound hal maxReductions (sys.machine self) = .ok (none, sys'.machine self)) :
      Dispatched hal self sys'

theorem runCalls_append (hal : Hal) (sys : System) (cs ds : List Call) :
    runCalls hal sys (cs ++ ds) = (runCalls hal sys cs >>= fun sys => runCalls hal sys ds) := by
  induction cs generalizing sys with
  | nil => rfl
  | cons c cs ih =>
      simp only [List.cons_append, runCalls]
      cases runCall hal sys c with
      | error f => rfl
      | ok sys => exact ih sys

theorem Runs.calls {hal : Hal} {sys sys' : System} {cs : List Call} (h : Runs hal sys)
    (hc : runCalls hal sys cs = .ok sys') : Runs hal sys' := by
  obtain ⟨before, hbefore⟩ := h
  refine ⟨before ++ cs, ?_⟩
  rw [runCalls_append, hbefore]
  exact hc

theorem Runs.call {hal : Hal} {sys sys' : System} {c : Call} (h : Runs hal sys)
    (hc : runCall hal sys c = .ok sys') : Runs hal sys' := by
  have hcalls : runCalls hal sys [c] = .ok sys' := by
    rw [runCalls, hc]
    rfl
  exact h.calls hcalls

/-- The moves of a slice only add to the trace. -/
theorem Moves.grows {self : Slot} {sys sys' : System} (h : Moves self sys sys') :
    sys.trace <+: sys'.trace := by
  induction h with
  | refl => exact List.prefix_rfl
  | tail _ move ih =>
      rcases move with ⟨-, -⟩ | ⟨-, -⟩
      · exact ih.trans (List.prefix_append _ _)
      · exact ih.trans (List.prefix_append _ _)

/-- A call only adds to the trace. -/
theorem runCall_grows {hal : Hal} {sys sys' : System} {c : Call}
    (h : runCall hal sys c = .ok sys') :
    sys.trace <+: sys'.trace := by
  cases c with
  | spawn program =>
      cases h
      exact List.prefix_rfl
  | send dst cmd =>
      obtain ⟨⟨rc, after⟩, hsend, h⟩ := bind_eq_ok.mp h
      cases h
      rcases mbSchedSend_cases hsend with ⟨-, -, rfl⟩ | ⟨_, _, -, -, rfl⟩
      · exact List.prefix_rfl
      · exact List.prefix_append _ _
  | tick =>
      obtain ⟨⟨rc, after⟩, htick, h⟩ := bind_eq_ok.mp h
      cases h
      obtain ⟨found, current, hpick, -⟩ := mbSchedPick_ok hal sys
      have hwake : sys.trace <+: (mbSchedWakeSleepers hal sys).trace := List.prefix_append _ _
      cases found with
      | none =>
          rw [mbSchedTick, hpick] at htick
          cases htick
          exact hwake
      | some self => exact hwake.trans (mbSchedTick_moves hpick htick).grows

theorem runCalls_grows {hal : Hal} {sys sys' : System} {cs : List Call}
    (h : runCalls hal sys cs = .ok sys') : sys.trace <+: sys'.trace := by
  induction cs generalizing sys with
  | nil =>
      cases h
      exact List.prefix_rfl
  | cons c cs ih =>
      obtain ⟨sys₁, hcall, hrest⟩ := bind_eq_ok.mp h
      exact (runCall_grows hcall).trans (ih hrest)

/-- A property of the initial state that every call of a run keeps. -/
theorem Runs.induct {hal : Hal} {P : System → Prop} (init : P System.init)
    (call : ∀ sys c sys', Runs hal sys → P sys → runCall hal sys c = .ok sys' → P sys')
    {sys : System} (h : Runs hal sys) : P sys := by
  obtain ⟨cs, hcs⟩ := h
  induction cs using List.reverseRecOn generalizing sys with
  | nil => exact Except.ok.inj hcs ▸ init
  | append_singleton cs c ih =>
      rw [runCalls_append] at hcs
      obtain ⟨sys₁, hfirst, hlast⟩ := bind_eq_ok.mp hcs
      obtain ⟨sys₂, hcall, hend⟩ := bind_eq_ok.mp hlast
      exact Except.ok.inj hend ▸ call sys₁ c sys₂ ⟨cs, hfirst⟩ (ih hfirst) hcall

/-- Every state of a run, between calls or between instructions. -/
def Reached (hal : Hal) (sys : System) : Prop := Runs hal sys ∨ ∃ self, Dispatched hal self sys

section Dispatch

variable {hal : Hal} {self : Slot} {sys sys' : System}

/-- The process of a slice is ready at every instruction of it. -/
theorem Dispatched.ready {sys : System} (h : Dispatched hal self sys) :
    (sys.sched.proc self).state = .ready := by
  induction h with
  | start _ pick =>
      rw [System.startSlice, Scheduler.proc_setProc_self]
      exact mbSchedPick_ready pick
  | next _ round ih =>
      obtain ⟨sys', hm, -, hready⟩ := runRound_moves ih round
      rw [System.machine_inj.mp hm]
      exact hready rfl

/-- The state before the round number `n` of the slice that follows. -/
def rounds (hal : Hal) (self : Slot) : ℕ → System → Except Fault System
  | 0, sys => .ok sys
  | n + 1, sys => do
    match ← runRound hal maxReductions (sys.machine self) with
    | (none, m) => rounds hal self n (m.system sys)
    | (some _, _) => .error .fuel

/-- The same, from the tick that comes after some calls. -/
def inSlice (hal : Hal) (calls : List Call) (self : Slot) (n : ℕ) : Except Fault System := do
  let sys ← runCalls hal System.init calls
  match ← mbSchedPick hal sys with
  | (found, sys₁) =>
    if found = some self then rounds hal self n (sys₁.startSlice self) else .error .fuel

theorem Dispatched.rounds {n : ℕ} (hd : Dispatched hal self sys)
    (h : MiniBeam.rounds hal self n sys = .ok sys') : Dispatched hal self sys' := by
  induction n generalizing sys with
  | zero =>
      cases h
      exact hd
  | succ n ih =>
      obtain ⟨⟨end?, m⟩, hround, h⟩ := bind_eq_ok.mp h
      obtain ⟨sys₁, rfl, -⟩ := runRound_moves hd.ready hround
      cases end? with
      | none => exact ih (hd.next hround) h
      | some rc => cases h

theorem inSlice_dispatched {calls : List Call} {n : ℕ} (h : inSlice hal calls self n = .ok sys) :
    Dispatched hal self sys := by
  obtain ⟨sys₀, hcalls, h⟩ := bind_eq_ok.mp h
  obtain ⟨⟨found, sys₁⟩, hpick, h⟩ := bind_eq_ok.mp h
  dsimp only at h
  split at h
  · rename_i hfound
    subst hfound
    exact (Dispatched.start ⟨calls, hcalls⟩ hpick).rounds h
  · cases h

end Dispatch

/-! ### Invariants -/

/-- A property of system states that the initial state has and every move keeps. -/
structure Invariant (I : System → Prop) : Prop where
  init : I System.init
  spawn : ∀ sys program, I sys → I { sys with sched := (mbSchedSpawn sys.sched program).2 }
  wake : ∀ hal sys, I sys → I (mbSchedWakeSleepers hal sys)
  select : ∀ sys current, current < maxProcesses ∨ current = sys.sched.current → I sys →
    I { sys with sched := { sys.sched with current := current } }
  own : ∀ self sys sys', Own self sys sys' → I sys → I sys'
  push : ∀ sys sys', Push sys sys' → I sys → I sys'

namespace Invariant

variable {I : System → Prop} (h : Invariant I) {hal : Hal} {self : Slot} {sys sys' : System}
include h

theorem moves (hm : Moves self sys sys') (hi : I sys) : I sys' := by
  induction hm with
  | refl => exact hi
  | tail _ hstep ih =>
      rcases hstep with hown | hpush
      · exact h.own _ _ _ hown ih
      · exact h.push _ _ hpush ih

theorem pick {found : Option Slot} (hp : mbSchedPick hal sys = .ok (found, sys')) (hi : I sys) :
    I sys' := by
  obtain ⟨found', current, hpick, hcur, -⟩ := mbSchedPick_ok hal sys
  simp only [hp, Except.ok.injEq, Prod.mk.injEq] at hpick
  rw [hpick.2]
  exact h.select _ _ hcur (h.wake hal sys hi)

theorem call {c : Call} (hc : runCall hal sys c = .ok sys') (hi : I sys) : I sys' := by
  cases c with
  | spawn program =>
      simp only [runCall, Except.ok.injEq] at hc
      rw [← hc]
      exact h.spawn sys program hi
  | send dst cmd =>
      obtain ⟨⟨rc, sys₁⟩, hsend, hc⟩ := bind_eq_ok.mp hc
      simp only [pure_ok, Except.ok.injEq] at hc
      subst hc
      rcases mbSchedSend_push hsend with rfl | hpush
      · exact hi
      · exact h.push _ _ hpush hi
  | tick =>
      obtain ⟨⟨rc, sys₁⟩, htick, hc⟩ := bind_eq_ok.mp hc
      simp only [pure_ok, Except.ok.injEq] at hc
      subst hc
      rcases mbSchedTick_cases htick with ⟨hpick, -⟩ | ⟨self, sys₂, hpick, -⟩
      · exact h.pick hpick hi
      · exact h.moves (mbSchedTick_moves hpick htick) (h.pick hpick hi)

theorem calls {cs : List Call} (hc : runCalls hal sys cs = .ok sys') (hi : I sys) : I sys' := by
  induction cs generalizing sys with
  | nil =>
      simp only [runCalls, Except.ok.injEq] at hc
      exact hc ▸ hi
  | cons c cs ih =>
      obtain ⟨sys₁, hfirst, hrest⟩ := bind_eq_ok.mp hc
      exact ih hrest (h.call hfirst hi)

theorem runs (hr : Runs hal sys) : I sys := by
  obtain ⟨cs, hcs⟩ := hr
  exact h.calls hcs h.init

theorem dispatched (hd : Dispatched hal self sys) : I sys := by
  induction hd with
  | start run pick =>
      exact h.moves (startSlice_moves (mbSchedPick_ready pick)) (h.pick pick (h.runs run))
  | @next sys sys' before round ih =>
      obtain ⟨sys₁, hm, hmoves, -⟩ := runRound_moves before.ready round
      rw [System.machine_inj.mp hm]
      exact h.moves hmoves ih

/-- An invariant holds in every state of every run. -/
theorem reached (hr : Reached hal sys) : I sys := by
  rcases hr with hr | ⟨self, hd⟩
  · exact h.runs hr
  · exact h.dispatched hd

end Invariant

/-! ### Invariants of whole instructions -/

/-- A property of system states that the initial state has, and that every call keeps as far
as whole instructions keep it. -/
structure StepInvariant (hal : Hal) (I : System → Prop) : Prop where
  init : I System.init
  spawn : ∀ sys program, I sys → I { sys with sched := (mbSchedSpawn sys.sched program).2 }
  wake : ∀ sys, I sys → I (mbSchedWakeSleepers hal sys)
  select : ∀ sys current, current < maxProcesses ∨ current = sys.sched.current → I sys →
    I { sys with sched := { sys.sched with current := current } }
  push : ∀ sys sys', Push sys sys' → I sys → I sys'
  budget : ∀ sys (self : Slot) n, (sys.sched.proc self).state = .ready → I sys → I { sys with
    sched := sys.sched.setProc self { sys.sched.proc self with reductions := n } }
  step : ∀ (self : Slot) sys rc sys', (sys.sched.proc self).state = .ready →
    mbProcStep hal (sys.machine self) = .ok (rc, sys'.machine self) → I sys → I sys'

namespace StepInvariant

variable {hal : Hal} {I : System → Prop} (h : StepInvariant hal I) {self : Slot}
  {sys sys' : System}
include h

theorem round {maxSteps : ℕ} {end? : Option Status}
    (hready : (sys.sched.proc self).state = .ready)
    (hr : runRound hal maxSteps (sys.machine self) = .ok (end?, sys'.machine self)) (hi : I sys) :
    I sys' := by
  unfold runRound at hr
  split at hr
  · simp only [Except.ok.injEq, Prod.mk.injEq, System.machine_inj] at hr
    exact hr.2 ▸ hi
  · obtain ⟨⟨rc, m⟩, hstep, hr⟩ := bind_eq_ok.mp hr
    obtain ⟨sys₁, rfl, -⟩ := mbProcStep_moves hready hstep
    have hi₁ := h.step self sys rc sys₁ hready hstep hi
    dsimp only at hr
    split at hr
    · simp only [pure_ok, Except.ok.injEq, Prod.mk.injEq, System.machine_inj] at hr
      exact hr.2 ▸ hi₁
    · split at hr
      · simp only [pure_ok, Except.ok.injEq, Prod.mk.injEq, System.machine_inj] at hr
        exact hr.2 ▸ hi₁
      · rename_i hstate
        have hready₁ : (sys₁.sched.proc self).state = .ready :=
          not_not.mp fun hne => hstate ⟨rfl, hne⟩
        simp only [pure_ok, Except.ok.injEq, Prod.mk.injEq] at hr
        have hsys : { sys₁ with sched := sys₁.sched.setProc self { sys₁.sched.proc self with
            reductions := (sys₁.sched.proc self).reductions + 1 } } = sys' :=
          System.machine_inj.mp hr.2
        exact hsys ▸ h.budget sys₁ self _ hready₁ hi₁

theorem loop {maxSteps fuel : ℕ} {rc : Status} (hready : (sys.sched.proc self).state = .ready)
    (hr : runLoop hal maxSteps fuel (sys.machine self) = .ok (rc, sys'.machine self))
    (hi : I sys) : I sys' := by
  induction fuel generalizing sys with
  | zero => cases hr
  | succ fuel ih =>
      obtain ⟨⟨end?, m⟩, hround, hr⟩ := bind_eq_ok.mp hr
      obtain ⟨sys₁, rfl, -, hready₁⟩ := runRound_moves hready hround
      have hi₁ := h.round hready hround hi
      cases end? with
      | some rc' =>
          simp only [pure_ok, Except.ok.injEq, Prod.mk.injEq, System.machine_inj] at hr
          exact hr.2 ▸ hi₁
      | none => exact ih (hready₁ rfl) hr hi₁

theorem pick {found : Option Slot} (hp : mbSchedPick hal sys = .ok (found, sys')) (hi : I sys) :
    I sys' := by
  obtain ⟨found', current, hpick, hcur, -⟩ := mbSchedPick_ok hal sys
  simp only [hp, Except.ok.injEq, Prod.mk.injEq] at hpick
  rw [hpick.2]
  exact h.select _ _ hcur (h.wake sys hi)

theorem runs (hr : Runs hal sys) : I sys := by
  apply Runs.induct h.init ?_ hr
  intro sys c sys' _ hi hcall
  cases c with
  | spawn program =>
      cases hcall
      exact h.spawn sys program hi
  | send dst cmd =>
      obtain ⟨⟨rc, sys₁⟩, hsend, hcall⟩ := bind_eq_ok.mp hcall
      cases hcall
      rcases mbSchedSend_push hsend with rfl | hpush
      · exact hi
      · exact h.push _ _ hpush hi
  | tick =>
      obtain ⟨⟨rc, sys₁⟩, htick, hcall⟩ := bind_eq_ok.mp hcall
      cases hcall
      rcases mbSchedTick_cases htick with ⟨hpick, -⟩ | ⟨self, sys₂, hpick, hrun⟩
      · exact h.pick hpick hi
      · have hready := mbSchedPick_ready hpick
        refine h.loop ?_ hrun (h.budget sys₂ self 0 hready (h.pick hpick hi))
        rw [System.startSlice, Scheduler.proc_setProc_self]
        exact hready

theorem dispatched (hd : Dispatched hal self sys) : I sys := by
  induction hd with
  | start run pick => exact h.budget _ self 0 (mbSchedPick_ready pick) (h.pick pick (h.runs run))
  | next before round ih => exact h.round before.ready round ih

theorem reached (hr : Reached hal sys) : I sys := by
  rcases hr with hr | ⟨self, hd⟩
  · exact h.runs hr
  · exact h.dispatched hd

end StepInvariant

end MiniBeam

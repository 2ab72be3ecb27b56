import MiniBeam.Verification.Scheduler.Budget
import MiniBeam.Verification.Scheduler.Isolation

/-! Round-robin dispatch: a ready process moves up by every tick that passes it over, and
a slice is a bounded number of instructions of one process. -/

namespace MiniBeam

/-- How far a slot is ahead of `current`, around the table. -/
def Scheduler.distance (s : Scheduler) (p : Slot) : ℤ := ((p.val : ℤ) - s.current) % maxProcesses

/-- One more reduction of the running process. -/
def System.countReduction (sys : System) (self : Slot) : System :=
  { sys with sched := sys.sched.setProc self { sys.sched.proc self with
      reductions := (sys.sched.proc self).reductions + 1 } }

/-- The loop of `mb_proc_run` has no round left for the process. -/
def System.Spent (sys : System) (self : Slot) : Prop :=
  (sys.sched.proc self).halted ∨ maxReductions ≤ (sys.sched.proc self).reductions

/-- The rest of a slice of the process in slot `self`: the states before its instructions,
the code it returns and the state it ends in. -/
inductive Slice (hal : Hal) (self : Slot) : System → List System → Status → System → Prop
  | spent {sys : System} (spent : sys.Spent self) : Slice hal self sys [] .ok sys
  | last {sys sys' : System} {rc : Status} (left : ¬ sys.Spent self)
      (step : mbProcStep hal (sys.machine self) = .ok (rc, sys'.machine self))
      (ends : rc ≠ .ok ∨ (sys'.sched.proc self).state ≠ .ready) : Slice hal self sys [sys] rc sys'
  | more {sys sys₁ sys' : System} {steps : List System} {rc : Status}
      (left : ¬ sys.Spent self)
      (step : mbProcStep hal (sys.machine self) = .ok (.ok, sys₁.machine self))
      (ready : (sys₁.sched.proc self).state = .ready)
      (rest : Slice hal self (sys₁.countReduction self) steps rc sys') :
      Slice hal self sys (sys :: steps) rc sys'

/-- The instruction about to be executed is one after which the slice is over. -/
def EndsSlice (hal : Hal) (self : Slot) (sys : System) : Prop :=
  (sys.sched.proc self).AtYield ∨
  (∃ pc, decode (sys.sched.proc self).program (sys.sched.proc self).pc = (.ok .halt, pc)) ∨
  (∃ r pc, decode (sys.sched.proc self).program (sys.sched.proc self).pc =
    (.ok (.sleepMs r), pc)) ∨
  ((sys.sched.proc self).AtRecv ∧ mbMailboxPopRaw (sys.sched.proc self).mailbox = .ok none) ∨
  ∃ rc m, mbProcStep hal (sys.machine self) = .ok (rc, m) ∧ rc ≠ .ok

/-! ### The scan -/

/-- The scan finds the first ready process in table order, starting from `start + i`. -/
theorem scanReady_first (s : Scheduler) (start i n : ℕ) {found : Option Slot}
    (h : scanReady s start i n = .ok found) :
    match found with
    | none => ∀ k, k < n → ∀ j : Slot, j.val = (start + (i + k)) % maxProcesses →
        (s.proc j).state ≠ .ready
    | some idx => ∃ k, k < n ∧ idx.val = (start + (i + k)) % maxProcesses ∧
        (s.proc idx).state = .ready ∧ ∀ k', k' < k → ∀ j : Slot,
          j.val = (start + (i + k')) % maxProcesses → (s.proc j).state ≠ .ready := by
  induction n generalizing i with
  | zero =>
      cases h
      exact fun k hk => absurd hk (Nat.not_lt_zero k)
  | succ n ih =>
      have hlt : (start + i) % maxProcesses < maxProcesses := Nat.mod_lt _ (by decide)
      simp only [scanReady, hlt, dite_true] at h
      split at h
      · rename_i hready
        cases h
        exact ⟨0, Nat.succ_pos n, rfl, hready, fun k hk => absurd hk (Nat.not_lt_zero k)⟩
      · rename_i hbusy
        have hhere : ∀ j : Slot, j.val = (start + i) % maxProcesses →
            (s.proc j).state ≠ .ready := by
          intro j hj
          rwa [show j = ⟨(start + i) % maxProcesses, hlt⟩ from Fin.ext hj]
        have hrest := ih (i + 1) h
        cases found with
        | none =>
            intro k hk j hj
            cases k with
            | zero => exact hhere j hj
            | succ k => exact hrest k (by omega) j (by rw [hj, Nat.add_right_comm i 1 k]; rfl)
        | some idx =>
            obtain ⟨k, hk, hidx, hready, hfirst⟩ := hrest
            refine ⟨k + 1, by omega, by rw [hidx, Nat.add_right_comm i 1 k]; rfl, hready, ?_⟩
            intro k' hk' j hj
            cases k' with
            | zero => exact hhere j hj
            | succ k' => exact hfirst k' (by omega) j (by rw [hj, Nat.add_right_comm i 1 k']; rfl)

section Pick

variable {hal : Hal} {sys sys₁ : System}

/-- No process is chosen exactly when none is ready after the wake-up. -/
theorem mbSchedPick_none (h : mbSchedPick hal sys = .ok (none, sys₁)) (i : Slot) :
    ((mbSchedWakeSleepers hal sys).sched.proc i).state ≠ .ready := by
  obtain ⟨found, hscan, h⟩ := bind_eq_ok.mp h
  cases found with
  | some idx => cases h
  | none =>
      have hall := scanReady_first _ _ _ _ hscan
      have hi : i.val < 8 := i.isLt
      refine hall ((i.val + (8 - (mbSchedWakeSleepers hal sys).sched.current % 8)) % 8)
        (Nat.mod_lt _ (by decide)) i ?_
      show i.val = (_ + (0 + _)) % 8
      omega

/-- The chosen process is the first ready one from `current` on, and `current` is moved
just past it. -/
theorem mbSchedPick_some {idx : Slot} (h : mbSchedPick hal sys = .ok (some idx, sys₁)) :
    ∃ k, k < maxProcesses ∧ idx.val = (sys.sched.current + k) % maxProcesses ∧
      (∀ k', k' < k → ∀ j : Slot, j.val = (sys.sched.current + k') % maxProcesses →
        ((mbSchedWakeSleepers hal sys).sched.proc j).state ≠ .ready) ∧
      sys₁.sched.current = (idx.val + 1) % maxProcesses := by
  obtain ⟨found, hscan, h⟩ := bind_eq_ok.mp h
  cases found with
  | none => cases h
  | some idx' =>
      cases h
      obtain ⟨k, hk, hidx, -, hfirst⟩ := scanReady_first _ _ _ _ hscan
      simp only [Nat.zero_add] at hidx hfirst
      exact ⟨k, hk, hidx, hfirst, rfl⟩

end Pick

theorem Moves.current {self : Slot} {sys sys' : System} (h : Moves self sys sys') :
    sys'.sched.current = sys.sched.current := by
  induction h with
  | refl => rfl
  | tail _ hstep ih =>
      rcases hstep with ⟨-, -⟩ | ⟨-, hd⟩
      · exact ih
      · obtain ⟨mb, state, -, -, rfl⟩ := deliver_eq hd
        exact ih

/-! ### The distance -/

section Distance

variable {hal : Hal} {sys sys' : System} {p : Slot}

theorem wake_ready {now : BitVec 32} {q : Process} (h : q.state = .ready) : wake now q = q := by
  rcases wake_cases now q with hw | ⟨hs, -⟩
  · exact hw
  · rw [h] at hs
    cases hs

/-- A tick that passes a ready process over leaves it ready, and closer. -/
theorem mbSchedTick_distance {found : Option Slot} {sys₁ : System} {rc : Status}
    (hr : Runs hal sys) (hready : (sys.sched.proc p).state = .ready)
    (hpick : mbSchedPick hal sys = .ok (found, sys₁)) (hne : found ≠ some p)
    (h : mbSchedTick hal sys = .ok (rc, sys')) :
    (sys'.sched.proc p).state = .ready ∧ sys'.sched.distance p < sys.sched.distance p := by
  have hawake : ((mbSchedWakeSleepers hal sys).sched.proc p).state = .ready := by
    rw [proc_wakeSleepers, wake_ready hready]
    exact hready
  cases found with
  | none => exact absurd hawake (mbSchedPick_none hpick p)
  | some idx =>
      have hidx : p ≠ idx := fun he => hne (he ▸ rfl)
      refine ⟨?_, ?_⟩
      · obtain ⟨events, -, hframe⟩ := Moves.frame
          (ledgers_invariant.pick hpick (ledgers_invariant.runs hr)) hidx
            (mbSchedTick_moves hpick h)
        rw [mbSchedPick_proc hpick p, wake_ready hready] at hframe
        rcases hframe.state with hs | ⟨hs, -⟩
        · rw [hs, hready]
        · rw [hready] at hs
          cases hs
      · obtain ⟨k, hk, hslot, hfirst, hcurrent⟩ := mbSchedPick_some hpick
        have hafter : sys'.sched.current = sys₁.sched.current :=
          Moves.current (mbSchedTick_moves hpick h)
        have hc : sys.sched.current < 8 := (table_invariant.runs hr).current
        have hp : p.val < 8 := p.isLt
        have hval : p.val ≠ idx.val := fun he => hidx (Fin.ext he)
        -- the chosen slot comes strictly before `p` in the scan
        have hlt : k < (p.val + 8 - sys.sched.current) % 8 := by
          by_contra hle
          refine hfirst ((p.val + 8 - sys.sched.current) % 8) ?_ p ?_ hawake
          · rcases Nat.lt_or_eq_of_le (Nat.le_of_not_lt hle) with hlt | heq
            · exact hlt
            · have : idx.val = (sys.sched.current + k) % 8 := hslot
              omega
          · show p.val = _ % 8
            omega
        have hslot : idx.val = (sys.sched.current + k) % 8 := hslot
        have hcurrent : sys'.sched.current = (idx.val + 1) % 8 := hafter.trans hcurrent
        show ((p.val : ℤ) - (sys'.sched.current : ℤ)) % 8 < ((p.val : ℤ) - sys.sched.current) % 8
        omega

/-- Spawns and sends from outside leave a ready process where it is. -/
theorem runCall_distance {c : Call} (hready : (sys.sched.proc p).state = .ready) (hc : c ≠ .tick)
    (h : runCall hal sys c = .ok sys') :
    (sys'.sched.proc p).state = .ready ∧ sys'.sched.distance p = sys.sched.distance p := by
  cases c with
  | tick => exact absurd rfl hc
  | spawn program =>
      cases h
      rcases mbSchedSpawn_cases sys.sched program with hs | ⟨i, hfree, hs⟩
      · rw [hs]
        exact ⟨hready, rfl⟩
      · rw [hs]
        refine ⟨?_, rfl⟩
        have hne : p ≠ i := by
          rintro rfl
          rw [hready] at hfree
          cases hfree
        show ((sys.sched.setProc i _).proc p).state = .ready
        rwa [Scheduler.proc_setProc_ne _ _ hne]
  | send dst cmd =>
      obtain ⟨⟨rc, sys₁⟩, hsend, h⟩ := bind_eq_ok.mp h
      cases h
      rcases mbSchedSend_push hsend with rfl | ⟨-, hd⟩
      · exact ⟨hready, rfl⟩
      · refine ⟨deliver_ready hd hready, ?_⟩
        obtain ⟨mb, state, -, -, rfl⟩ := deliver_eq hd
        rfl

/-- A ready process is dispatched after at most as many ticks as its distance. -/
theorem ready_dispatched {cs : List Call} (hr : Runs hal sys)
    (hready : (sys.sched.proc p).state = .ready) (h : runCalls hal sys cs = .ok sys')
    (hticks : sys.sched.distance p < cs.count .tick) :
    ∃ before after sys₁ sys₂, cs = before ++ .tick :: after ∧
      (before.count .tick : ℤ) ≤ sys.sched.distance p ∧ runCalls hal sys before = .ok sys₁ ∧
      mbSchedPick hal sys₁ = .ok (some p, sys₂) := by
  have hpos : 0 ≤ sys.sched.distance p := Int.emod_nonneg _ (by decide)
  induction cs generalizing sys with
  | nil => simp at hticks; omega
  | cons c cs ih =>
      obtain ⟨sys₁, hcall, hrest⟩ := bind_eq_ok.mp h
      by_cases hc : c = .tick
      · subst hc
        obtain ⟨⟨rc, sys₂⟩, htick, hend⟩ := bind_eq_ok.mp hcall
        cases hend
        dsimp only at hcall hrest
        obtain ⟨found, current, hpick, -⟩ := mbSchedPick_ok hal sys
        by_cases hfound : found = some p
        · exact ⟨[], cs, sys, _, rfl, hpos, rfl, hfound ▸ hpick⟩
        · obtain ⟨hready', hcloser⟩ := mbSchedTick_distance hr hready hpick hfound htick
          rw [List.count_cons_self] at hticks
          obtain ⟨before, after, s₁, s₂, rfl, hcount, hrun, hdispatch⟩ := ih (hr.call hcall) hready'
            hrest (by omega) (Int.emod_nonneg _ (by decide))
          refine ⟨.tick :: before, after, s₁, s₂, rfl, ?_, ?_, hdispatch⟩
          · rw [List.count_cons_self]
            omega
          · rw [runCalls, hcall]
            exact hrun
      · obtain ⟨hready', hsame⟩ := runCall_distance hready hc hcall
        rw [List.count_cons_of_ne hc] at hticks
        obtain ⟨before, after, s₁, s₂, rfl, hcount, hrun, hdispatch⟩ := ih (hr.call hcall) hready'
          hrest (by rwa [hsame]) (hsame ▸ hpos)
        refine ⟨c :: before, after, s₁, s₂, rfl, ?_, ?_, hdispatch⟩
        · rw [List.count_cons_of_ne hc]
          exact hsame ▸ hcount
        · rw [runCalls, hcall]
          exact hrun

end Distance

/-! ### The slice -/

section Slice

variable {hal : Hal} {self : Slot} {sys sys' : System} {steps : List System} {rc : Status}

/-- One round of the loop of `mb_proc_run`, by what it does. -/
theorem runRound_cases {end? : Option Status} {m' : Machine}
    (hready : (sys.sched.proc self).state = .ready)
    (h : runRound hal maxReductions (sys.machine self) = .ok (end?, m')) :
    (sys.Spent self ∧ end? = some .ok ∧ m' = sys.machine self) ∨
    (¬ sys.Spent self ∧ ∃ (rc : Status) (sys₁ : System),
      mbProcStep hal (sys.machine self) = .ok (rc, sys₁.machine self) ∧
      (((rc ≠ .ok ∨ (sys₁.sched.proc self).state ≠ .ready) ∧ end? = some rc ∧
          m' = sys₁.machine self) ∨
        (rc = .ok ∧ (sys₁.sched.proc self).state = .ready ∧ end? = none ∧
          m' = (sys₁.countReduction self).machine self))) := by
  unfold runRound at h
  split at h
  · rename_i hspent
    cases h
    exact .inl ⟨hspent, rfl, rfl⟩
  · rename_i hleft
    obtain ⟨⟨rc, m₁⟩, hstep, h⟩ := bind_eq_ok.mp h
    obtain ⟨sys₁, rfl, -⟩ := mbProcStep_moves hready hstep
    refine .inr ⟨hleft, rc, sys₁, hstep, ?_⟩
    dsimp only at h
    split at h
    · rename_i hrc
      cases h
      exact .inl ⟨.inl hrc, rfl, rfl⟩
    · rename_i hrc
      obtain rfl : rc = .ok := not_not.mp hrc
      split at h
      · rename_i hstate
        cases h
        exact .inl ⟨.inr hstate.2, rfl, rfl⟩
      · rename_i hstate
        cases h
        exact .inr ⟨rfl, not_not.mp fun hne => hstate ⟨rfl, hne⟩, rfl, rfl⟩

theorem ready_countReduction (h : (sys.sched.proc self).state = .ready) :
    ((sys.countReduction self).sched.proc self).state = .ready := by
  rw [System.countReduction, Scheduler.proc_setProc_self]
  exact h

theorem reductions_countReduction (sys : System) (self : Slot) :
    ((sys.countReduction self).sched.proc self).reductions =
      (sys.sched.proc self).reductions + 1 := by
  rw [System.countReduction, Scheduler.proc_setProc_self]

/-- The loop of `mb_proc_run` is a slice. -/
theorem runLoop_slice {fuel : ℕ} (hready : (sys.sched.proc self).state = .ready)
    (h : runLoop hal maxReductions fuel (sys.machine self) = .ok (rc, sys'.machine self)) :
    ∃ steps, Slice hal self sys steps rc sys' := by
  induction fuel generalizing sys with
  | zero => cases h
  | succ fuel ih =>
      obtain ⟨⟨end?, m⟩, hround, h⟩ := bind_eq_ok.mp h
      rcases runRound_cases hready hround with ⟨hspent, rfl, rfl⟩ | ⟨hleft, rc', sys₁, hstep, hend⟩
      · simp only [pure_ok, Except.ok.injEq, Prod.mk.injEq, System.machine_inj] at h
        obtain ⟨rfl, rfl⟩ := h
        exact ⟨[], .spent hspent⟩
      · rcases hend with ⟨hends, rfl, rfl⟩ | ⟨rfl, hstate, rfl, rfl⟩
        · simp only [pure_ok, Except.ok.injEq, Prod.mk.injEq, System.machine_inj] at h
          obtain ⟨rfl, rfl⟩ := h
          exact ⟨[sys], .last hleft hstep hends⟩
        · obtain ⟨steps, hrest⟩ := ih (ready_countReduction hstate) h
          exact ⟨sys :: steps, .more hleft hstep hstate hrest⟩

/-- What a decoded instruction other than `SEND` leaves of its process. -/
theorem mbProcStep_decoded {i : Instr} {pc : ℕ} (hh : (sys.sched.proc self).halted = false)
    (hd : decode (sys.sched.proc self).program (sys.sched.proc self).pc = (.ok i, pc))
    (hi : ¬ i.IsSend) (h : mbProcStep hal (sys.machine self) = .ok (.ok, sys'.machine self)) :
    ∃ events, i.run hal true (sys.sched.proc self).pc ((sys.sched.proc self).setPc pc) sys.trace =
      .ok (.ok, sys'.sched.proc self, events) := by
  have hp : (sys.machine self).proc = sys.sched.proc self := rfl
  rw [mbProcStep_eq, hp, if_neg (by simp [hh]), hd] at h
  obtain ⟨p', events, hrun, hm⟩ := execInstr_ok hal _ hi h
  rw [Machine.proc_setProc] at hrun
  have hproc : sys'.sched.proc self = p' := by
    have hself : (sys'.machine self).proc = p' := by
      rw [hm, Machine.proc_emit, Machine.proc_setProc, if_pos rfl]
    exact hself
  exact ⟨events, hproc ▸ hrun⟩

namespace Slice

/-- A slice has no more instructions than it has reductions left. -/
theorem length_le (h : Slice hal self sys steps rc sys') :
    steps.length ≤ maxReductions - (sys.sched.proc self).reductions := by
  induction h with
  | spent => exact Nat.zero_le _
  | last left => exact Nat.sub_pos_of_lt (Nat.lt_of_not_le fun hle => left (.inr hle))
  | @more sys sys₁ sys' steps rc left step ready rest ih =>
      have hlt := Nat.lt_of_not_le fun hle => left (.inr hle)
      have hstep : (sys₁.sched.proc self).reductions = (sys.sched.proc self).reductions ∨
          (sys₁.sched.proc self).reductions = maxReductions := mbProcStep_frugal step
      rw [reductions_countReduction] at ih
      rw [List.length_cons]
      omega

theorem steps_of_spent (h : Slice hal self sys steps rc sys') (hspent : sys.Spent self) :
    steps = [] := by
  cases h with
  | spent => rfl
  | last left => exact absurd hspent left
  | more left => exact absurd hspent left

/-- An instruction that ends the slice and leaves the process ready is a `YIELD`. -/
theorem spent_of_ends {sys₁ : System} (hh : (sys.sched.proc self).halted = false)
    (hends : EndsSlice hal self sys)
    (hstep : mbProcStep hal (sys.machine self) = .ok (.ok, sys₁.machine self))
    (hready : (sys₁.sched.proc self).state = .ready) : (sys₁.countReduction self).Spent self := by
  rcases hends with ⟨pc, hd⟩ | ⟨pc, hd⟩ | ⟨r, pc, hd⟩ | ⟨⟨t, a, b, c, d, pc, hd⟩, hempty⟩ |
    ⟨rc, m, herror, hrc⟩
  · obtain ⟨events, hrun⟩ := mbProcStep_decoded hh hd (Instr.not_isSend nofun)
      hstep
    refine .inr ?_
    have hproc := congrArg Process.reductions
      (Prod.mk.inj (Prod.mk.inj (Except.ok.inj hrun)).2).1
    rw [reductions_countReduction, ← hproc]
    exact Nat.le_succ _
  · obtain ⟨events, hrun⟩ := mbProcStep_decoded hh hd (Instr.not_isSend nofun)
      hstep
    have hproc := congrArg Process.state (Prod.mk.inj (Prod.mk.inj (Except.ok.inj hrun)).2).1
    rw [hready] at hproc
    cases hproc
  · obtain ⟨events, hrun⟩ := mbProcStep_decoded hh hd (Instr.not_isSend nofun)
      hstep
    have hproc := congrArg Process.state (Prod.mk.inj (Prod.mk.inj (Except.ok.inj hrun)).2).1
    rw [hready] at hproc
    cases hproc
  · obtain ⟨events, hrun⟩ := mbProcStep_decoded hh hd (Instr.not_isSend nofun)
      hstep
    simp only [Instr.run, Process.setPc_mailbox, hempty, ok_bind] at hrun
    have hproc := congrArg Process.state (Prod.mk.inj (Prod.mk.inj (Except.ok.inj hrun)).2).1
    rw [hready] at hproc
    cases hproc
  · rw [hstep] at herror
    cases herror
    exact absurd rfl hrc

/-- Nothing is executed after an instruction that ends the slice. -/
theorem ends (h : Slice hal self sys steps rc sys') {before after : List System} {s : System}
    (hsplit : steps = before ++ s :: after) (hends : EndsSlice hal self s) : after = [] := by
  induction h generalizing before with
  | spent => simp at hsplit
  | last =>
      cases before with
      | nil => exact (List.cons.inj hsplit).2.symm
      | cons s' before => simp at hsplit
  | more left step ready rest ih =>
      cases before with
      | nil =>
          obtain ⟨rfl, rfl⟩ := List.cons.inj hsplit
          have hh := Bool.eq_false_iff.mpr fun hh => left (.inl hh)
          exact rest.steps_of_spent (spent_of_ends hh hends step ready)
      | cons s' before => exact ih (List.cons.inj hsplit).2

/-- A slice returns `MB_OK` or an error of an instruction. -/
theorem status (h : Slice hal self sys steps rc sys') : rc = .ok ∨ rc.isError := by
  induction h with
  | spent => exact .inl rfl
  | last left step ends => exact mbProcStep_status step
  | more left step ready rest ih => exact ih

end Slice

/-- A tick is idle when no process is ready after the wake-up, and otherwise a slice. -/
theorem mbSchedTick_slice (h : mbSchedTick hal sys = .ok (rc, sys')) :
    (rc = .schedIdle ∧ mbSchedPick hal sys = .ok (none, sys') ∧
      ∀ i, ((mbSchedWakeSleepers hal sys).sched.proc i).state ≠ .ready) ∨
    (rc ≠ .schedIdle ∧ ∃ self sys₁ steps, mbSchedPick hal sys = .ok (some self, sys₁) ∧
      ((mbSchedWakeSleepers hal sys).sched.proc self).state = .ready ∧
      Slice hal self (sys₁.startSlice self) steps rc sys') := by
  rcases mbSchedTick_cases h with ⟨hpick, rfl⟩ | ⟨self, sys₁, hpick, hrun⟩
  · exact .inl ⟨rfl, hpick, mbSchedPick_none hpick⟩
  · have hready := mbSchedPick_ready hpick
    have hstart : ((sys₁.startSlice self).sched.proc self).state = .ready := by
      rw [System.startSlice, Scheduler.proc_setProc_self]
      exact hready
    obtain ⟨steps, hslice⟩ := runLoop_slice hstart hrun
    refine .inr ⟨?_, self, sys₁, steps, hpick, ?_, hslice⟩
    · rintro rfl
      rcases hslice.status with hstatus | hstatus <;> cases hstatus
    · rw [proc_wakeSleepers, ← mbSchedPick_proc hpick]
      exact hready

end Slice

/-- A tick that does not dispatch a ready process leaves it ready and strictly closer to
`current`; so it is dispatched within any eight ticks, whatever is spawned and sent between
them. A tick is idle exactly when no process is ready after the wake-up; otherwise it
executes at most 64 instructions of one process, and none behind one that ends the slice. -/
theorem round_robin (hal : Hal) :
    (∀ sys p found sys₁ rc sys', Runs hal sys → (sys.sched.proc p).state = .ready →
      mbSchedPick hal sys = .ok (found, sys₁) → found ≠ some p →
      mbSchedTick hal sys = .ok (rc, sys') →
        (sys'.sched.proc p).state = .ready ∧ sys'.sched.distance p < sys.sched.distance p) ∧
    (∀ sys p cs sys', Runs hal sys → (sys.sched.proc p).state = .ready →
      runCalls hal sys cs = .ok sys' → maxProcesses ≤ cs.count .tick →
        ∃ before after sys₁ sys₂, cs = before ++ .tick :: after ∧
          before.count .tick < maxProcesses ∧ runCalls hal sys before = .ok sys₁ ∧
          mbSchedPick hal sys₁ = .ok (some p, sys₂)) ∧
    ∀ sys rc sys', mbSchedTick hal sys = .ok (rc, sys') →
      (rc = .schedIdle ↔
        ∀ i, ((mbSchedWakeSleepers hal sys).sched.proc i).state ≠ .ready) ∧
      (rc = .schedIdle → mbSchedPick hal sys = .ok (none, sys')) ∧
      (rc ≠ .schedIdle → ∃ self sys₁ steps, mbSchedPick hal sys = .ok (some self, sys₁) ∧
        Slice hal self (sys₁.startSlice self) steps rc sys' ∧
        steps.length ≤ maxReductions ∧
        ∀ before s after, steps = before ++ s :: after → EndsSlice hal self s → after = []) := by
  refine ⟨fun sys p found sys₁ rc sys' hr hready hpick hne h =>
    mbSchedTick_distance hr hready hpick hne h, ?_, ?_⟩
  · intro sys p cs sys' hr hready h hticks
    have hlt : sys.sched.distance p < 8 := Int.emod_lt_of_pos _ (by decide)
    have hticks : 8 ≤ cs.count .tick := hticks
    obtain ⟨before, after, sys₁, sys₂, hcs, hcount, hrun, hpick⟩ :=
      ready_dispatched hr hready h (by omega)
    exact ⟨before, after, sys₁, sys₂, hcs, by show _ < 8; omega, hrun, hpick⟩
  · intro sys rc sys' h
    rcases mbSchedTick_slice h with ⟨rfl, hpick, hnone⟩ |
      ⟨hrc, self, sys₁, steps, hpick, hready, hslice⟩
    · exact ⟨⟨fun _ => hnone, fun _ => rfl⟩, fun _ => hpick, fun hne => absurd rfl hne⟩
    · refine ⟨⟨fun hidle => absurd hidle hrc, fun hnone => absurd hready (hnone self)⟩,
        fun hidle => absurd hidle hrc, fun _ => ⟨self, sys₁, steps, hpick, hslice, ?_, ?_⟩⟩
      · exact hslice.length_le.trans (Nat.sub_le _ _)
      · intro before s after hsplit hends
        exact hslice.ends hsplit hends

/-- Two programs that yield for ever: the tick that takes the first leaves the second ready
and closer, eight ticks dispatch it, and the slice is the one `YIELD`. -/
theorem round_robin_yields : ∃ (sys sys' : System),
    runCalls idleHal System.init [.spawn [0x23, 0x30, 0xFA, 0xFF, 0xFF, 0xFF],
      .spawn [0x23, 0x30, 0xFA, 0xFF, 0xFF, 0xFF]] = .ok sys ∧
    (mbSchedPick idleHal sys).map Prod.fst = .ok (some 0) ∧
    mbSchedTick idleHal sys = .ok (.ok, sys') ∧
    (sys'.sched.proc 1).state = .ready ∧ sys'.sched.distance 1 < sys.sched.distance 1 ∧
    (∃ before after sys₁ sys₂, List.replicate 8 Call.tick = before ++ .tick :: after ∧
      before.count .tick < maxProcesses ∧ runCalls idleHal sys before = .ok sys₁ ∧
      mbSchedPick idleHal sys₁ = .ok (some 1, sys₂)) ∧
    ∃ self sys₁ steps, mbSchedPick idleHal sys = .ok (some self, sys₁) ∧
      Slice idleHal self (sys₁.startSlice self) steps .ok sys' ∧
      steps.length ≤ maxReductions := by
  obtain ⟨sys, hrun, hsys⟩ := exists_ok_of_map
    (runCalls idleHal System.init [.spawn [0x23, 0x30, 0xFA, 0xFF, 0xFF, 0xFF],
      .spawn [0x23, 0x30, 0xFA, 0xFF, 0xFF, 0xFF]])
    (fun sys => ((sys.sched.proc 1).state,
      (mbSchedPick idleHal sys).map Prod.fst,
      (mbSchedTick idleHal sys).map Prod.fst,
      (runCalls idleHal sys (List.replicate 8 .tick)).map fun _ => ()))
    (.ready, .ok (some 0), .ok .ok, .ok ()) (by decide +kernel)
  obtain ⟨hready, hsys⟩ := Prod.mk.inj hsys
  obtain ⟨hpick, hsys⟩ := Prod.mk.inj hsys
  obtain ⟨htick, hticks⟩ := Prod.mk.inj hsys
  have hruns : Runs idleHal sys := ⟨_, hrun⟩
  obtain ⟨⟨found, sys₁⟩, hpicked, hfound⟩ := exists_ok_of_map _ _ _ hpick
  obtain ⟨⟨rc, sys'⟩, hticked, hrc⟩ := exists_ok_of_map _ _ _ htick
  obtain ⟨sys₈, hrun₈, -⟩ := exists_ok_of_map _ _ _ hticks
  obtain rfl : found = some 0 := hfound
  obtain rfl : rc = .ok := hrc
  obtain ⟨hpassed, hdispatched, hslices⟩ := round_robin idleHal
  obtain ⟨hstays, hcloser⟩ :=
    hpassed sys 1 (some 0) sys₁ .ok sys' hruns hready hpicked (by decide) hticked
  have hwithin := hdispatched sys 1 (List.replicate 8 .tick) sys₈ hruns hready hrun₈ (by decide)
  obtain ⟨-, -, hslice⟩ := hslices sys .ok sys' hticked
  obtain ⟨self, sys₂, steps, hself, hran, hlength, -⟩ := hslice (by decide)
  exact ⟨sys, sys', hrun, hpick, hticked, hstays, hcloser, hwithin, self, sys₂, steps, hself, hran,
    hlength⟩

end MiniBeam

import MiniBeam.Model.Nrf52
import Mathlib.Data.List.Basic
import Mathlib.Algebra.Group.Nat.Defs

/-! The PWM calls of the nRF52 HAL in sequence. `mb_hal_pwm_set_duty` sets a period of its own,
so that a frequency lasts only until the next duty. -/

namespace MiniBeam

namespace PwmCall

def channel : PwmCall → Byte
  | .setDuty channel _ => channel
  | .config channel _ => channel

def periodNs : PwmCall → BitVec 32
  | .setDuty _ _ => 20000
  | .config _ frequencyHz => 1000000000 / frequencyHz

def pulseNs : PwmCall → BitVec 32
  | .setDuty _ permille => (20000 * permille.setWidth 32) / 1000
  | .config _ _ => 0

/-- The `pwm_set` of a call that succeeds. -/
def request (c : PwmCall) : PwmSet := ⟨c.channel, c.periodNs, c.pulseNs, 0⟩

/-- The frequency that a call gives a channel. -/
def frequencyOn (channel : Byte) : PwmCall → Option (BitVec 32)
  | .setDuty _ _ => none
  | .config channel' frequencyHz => if channel' = channel then some frequencyHz else none

end PwmCall

/-- The frequency of the most recent configuration of a channel. -/
def lastConfig (calls : List PwmCall) (channel : Byte) : Option (BitVec 32) :=
  (calls.filterMap (PwmCall.frequencyOn channel)).getLast?

/-- The waveform asked for by `mb_hal_pwm_set_duty(channel, permille)` after some calls: the
period of the last configuration, and a pulse inside it, computed without overflow. -/
structure DutySet (before : List PwmCall) (channel : Byte) (permille : BitVec 16)
    (period pulse : BitVec 32) : Prop where
  configured : ∀ f, lastConfig before channel = some f → period.toNat = 10 ^ 9 / f.toNat
  pulse_eq : pulse.toNat = period.toNat * permille.toNat / 1000
  inside : pulse.toNat ≤ period.toNat
  product : period.toNat * permille.toNat < 2 ^ 32

/-- It is set after every `mb_hal_pwm_set_duty` of a sequence of calls. -/
def PwmComposes (pwm0 : Pwm0) (calls : List PwmCall) : Prop :=
  ∀ before channel permille after, calls = before ++ .setDuty channel permille :: after →
    ∃ log period pulse, runPwm pwm0 [] (before ++ [.setDuty channel permille]) = some log ∧
      recorded log channel = some (period, pulse) ∧
      DutySet before channel permille period pulse

/-- No duty comes after a configuration of its channel. -/
def DutiesFirst (calls : List PwmCall) : Prop :=
  ∀ before channel permille after, calls = before ++ .setDuty channel permille :: after →
    ∀ f, .config channel f ∉ before

/-! ### One call -/

section Call

variable {pwm0 : Pwm0} {log log' : List PwmSet} {channel : Byte}

theorem pwmSet_ok {dev : PwmDevice} {periodNs pulseNs : BitVec 32}
    (h : pwmSet dev log channel periodNs pulseNs = (0, log')) :
    log' = log ++ [⟨channel, periodNs, pulseNs, 0⟩] := by
  simp only [pwmSet, Prod.mk.injEq] at h
  rw [← h.2, h.1]

theorem mbHalPwmSetDuty_ok {permille : BitVec 16}
    (h : mbHalPwmSetDuty pwm0 log channel permille = (0, log')) :
    permille.toNat ≤ 1000 ∧ log' = log ++ [(PwmCall.setDuty channel permille).request] := by
  cases pwm0 with
  | none => cases h
  | some dev =>
      simp only [mbHalPwmSetDuty] at h
      split at h
      · cases h
      · rename_i hcheck
        have hpermille : permille.toNat ≤ 1000 := Nat.le_of_not_gt fun hgt => hcheck (.inr hgt)
        exact ⟨hpermille, pwmSet_ok h⟩

theorem mbHalPwmConfig_ok {frequencyHz : BitVec 32}
    (h : mbHalPwmConfig pwm0 log channel frequencyHz = (0, log')) :
    log' = log ++ [(PwmCall.config channel frequencyHz).request] := by
  cases pwm0 with
  | none => cases h
  | some dev =>
      simp only [mbHalPwmConfig] at h
      split at h
      · cases h
      · exact pwmSet_ok h

theorem PwmCall.run_ok {c : PwmCall} (h : c.run pwm0 log = (0, log')) :
    log' = log ++ [c.request] := by
  cases c with
  | setDuty channel permille => exact (mbHalPwmSetDuty_ok h).2
  | config channel frequencyHz => exact mbHalPwmConfig_ok h

/-- The pulse of an accepted duty, which the 32-bit product does not distort. -/
theorem PwmCall.pulseNs_setDuty (channel : Byte) {permille : BitVec 16}
    (h : permille.toNat ≤ 1000) :
    ((PwmCall.setDuty channel permille).pulseNs).toNat = 20000 * permille.toNat / 1000 := by
  have hp : (permille.setWidth 32).toNat = permille.toNat := by
    rw [BitVec.toNat_setWidth, Nat.mod_eq_of_lt (by omega)]
  have hproduct : ((20000 : BitVec 32) * permille.setWidth 32).toNat = 20000 * permille.toNat := by
    rw [BitVec.toNat_mul, hp]
    exact Nat.mod_eq_of_lt (by simp; omega)
  rw [PwmCall.pulseNs, BitVec.toNat_udiv, hproduct]
  rfl

end Call

/-! ### Sequences of calls -/

section Run

variable {pwm0 : Pwm0} {log log' : List PwmSet} {calls : List PwmCall}

theorem runPwm_cons (c : PwmCall) : runPwm pwm0 log (c :: calls) = some log' ↔
    ∃ log₁, c.run pwm0 log = (0, log₁) ∧ runPwm pwm0 log₁ calls = some log' := by
  rw [runPwm]
  rcases c.run pwm0 log with ⟨rc, log₁⟩
  by_cases hrc : rc = 0
  · simp [hrc]
  · dsimp only
    rw [if_neg hrc]
    constructor
    · intro h
      cases h
    · rintro ⟨log₂, hfirst, -⟩
      exact absurd (congrArg Prod.fst hfirst) hrc

/-- The log of a successful sequence: the request of each call. -/
theorem runPwm_log (h : runPwm pwm0 log calls = some log') :
    log' = log ++ calls.map PwmCall.request := by
  induction calls generalizing log with
  | nil =>
      cases h
      rw [List.map_nil, List.append_nil]
  | cons c calls ih =>
      obtain ⟨log₁, hc, hrest⟩ := (runPwm_cons c).mp h
      rw [ih hrest, PwmCall.run_ok hc, List.append_assoc]
      rfl

/-- A successful sequence succeeds up to each of its calls, and with it. -/
theorem runPwm_split {before after : List PwmCall} {c : PwmCall}
    (h : runPwm pwm0 log (before ++ c :: after) = some log') :
    ∃ log₁ log₂, runPwm pwm0 log before = some log₁ ∧ c.run pwm0 log₁ = (0, log₂) ∧
      runPwm pwm0 log (before ++ [c]) = some log₂ := by
  induction before generalizing log with
  | nil =>
      obtain ⟨log₁, hc, -⟩ := (runPwm_cons c).mp h
      exact ⟨log, log₁, rfl, hc, (runPwm_cons c).mpr ⟨log₁, hc, rfl⟩⟩
  | cons d before ih =>
      obtain ⟨log₁, hd, hrest⟩ := (runPwm_cons d).mp h
      obtain ⟨log₂, log₃, hbefore, hc, hboth⟩ := ih hrest
      exact ⟨log₂, log₃, (runPwm_cons d).mpr ⟨log₁, hd, hbefore⟩, hc,
        (runPwm_cons d).mpr ⟨log₁, hd, hboth⟩⟩

/-- What a channel was last set to by a successful sequence: what the last call on it asks. -/
theorem runPwm_recorded (h : runPwm pwm0 [] calls = some log) (channel : Byte) :
    recorded log channel = (calls.filter fun c => c.channel = channel).getLast?.map fun c =>
      (c.periodNs, c.pulseNs) := by
  have hsame : (fun s : PwmSet => decide (s.channel = channel ∧ s.rc = 0)) ∘ PwmCall.request =
      fun c => decide (c.channel = channel) := by
    funext c
    exact decide_eq_decide.mpr (and_iff_left rfl)
  rw [recorded, runPwm_log h, List.nil_append, List.filter_map, hsame, List.getLast?_map,
    Option.map_map]
  rfl

theorem lastConfig_eq_none (before : List PwmCall) (channel : Byte) :
    lastConfig before channel = none ↔ ∀ f, PwmCall.config channel f ∉ before := by
  rw [lastConfig, List.getLast?_eq_none_iff, List.filterMap_eq_nil_iff]
  constructor
  · intro h f hmem
    have hnone := h _ hmem
    simp [PwmCall.frequencyOn] at hnone
  · intro h c hc
    cases c with
    | setDuty => rfl
    | config channel' f =>
        rw [PwmCall.frequencyOn, if_neg]
        rintro rfl
        exact h f hc

theorem mem_of_lastConfig {before : List PwmCall} {channel : Byte} {f : BitVec 32}
    (h : lastConfig before channel = some f) : PwmCall.config channel f ∈ before := by
  have hmem := List.mem_of_getLast? h
  rw [List.mem_filterMap] at hmem
  obtain ⟨c, hc, hf⟩ := hmem
  cases c with
  | setDuty => cases hf
  | config channel' f' =>
      rw [PwmCall.frequencyOn] at hf
      split at hf
      · rename_i hchannel
        cases hf
        exact hchannel ▸ hc
      · cases hf

/-- After a duty, the period is 20000 ns and the pulse is its share of that. -/
theorem runPwm_setDuty {before : List PwmCall} {channel : Byte} {permille : BitVec 16}
    (h : runPwm pwm0 [] (before ++ [.setDuty channel permille]) = some log) :
    recorded log channel = some (20000, (PwmCall.setDuty channel permille).pulseNs) := by
  rw [runPwm_recorded h, List.filter_append, List.getLast?_append]
  simp [PwmCall.channel, PwmCall.periodNs]

end Run

/-- That waveform is the one asked for unless the channel was configured before. -/
theorem dutySet_iff {before : List PwmCall} {channel : Byte} {permille : BitVec 16}
    (hfreq : ∀ f, .config channel f ∈ before → 0 < f.toNat ∧ f.toNat ≤ 40000)
    (hpermille : permille.toNat ≤ 1000) :
    DutySet before channel permille 20000 (PwmCall.setDuty channel permille).pulseNs ↔
      ∀ f, .config channel f ∉ before := by
  rw [← lastConfig_eq_none]
  have hperiod : (20000 : BitVec 32).toNat = 20000 := rfl
  constructor
  · intro h
    cases hlast : lastConfig before channel with
    | none => rfl
    | some f =>
        obtain ⟨hpos, hle⟩ := hfreq f (mem_of_lastConfig hlast)
        have hsame := h.configured f hlast
        have hbound : 10 ^ 9 / 40000 ≤ 10 ^ 9 / f.toNat := Nat.div_le_div_left hle hpos
        rw [hperiod] at hsame
        omega
  · intro hlast
    have hpulse := PwmCall.pulseNs_setDuty channel hpermille
    refine ⟨fun f hf => ?_, by rw [hpulse, hperiod], ?_, ?_⟩
    · rw [hlast] at hf
      cases hf
    · rw [hpulse, hperiod]
      omega
    · rw [hperiod]
      omega

/-- Configuration and duty compose exactly in the sequences that never set a duty after a
configuration of its channel. -/
theorem pwm_composes_iff {pwm0 : Pwm0} {calls : List PwmCall} {log : List PwmSet}
    (hrun : runPwm pwm0 [] calls = some log)
    (hfreq : ∀ channel f, .config channel f ∈ calls → 0 < f.toNat ∧ f.toNat ≤ 40000) :
    PwmComposes pwm0 calls ↔ DutiesFirst calls := by
  have hduty : ∀ before channel permille after,
      calls = before ++ .setDuty channel permille :: after →
      ∃ log, runPwm pwm0 [] (before ++ [.setDuty channel permille]) = some log ∧
        recorded log channel = some (20000, (PwmCall.setDuty channel permille).pulseNs) ∧
        (DutySet before channel permille 20000 (PwmCall.setDuty channel permille).pulseNs ↔
          ∀ f, .config channel f ∉ before) := by
    rintro before channel permille after rfl
    obtain ⟨log₁, log₂, -, hcall, hboth⟩ := runPwm_split hrun
    exact ⟨log₂, hboth, runPwm_setDuty hboth, dutySet_iff
      (fun f hf => hfreq channel f (List.mem_append_left _ hf)) (mbHalPwmSetDuty_ok hcall).1⟩
  constructor
  · intro h before channel permille after hsplit
    obtain ⟨log, hlog, hrecorded, hiff⟩ := hduty before channel permille after hsplit
    obtain ⟨log', period, pulse, hlog', hrecorded', hset⟩ := h before channel permille after hsplit
    cases hlog.symm.trans hlog'
    cases hrecorded.symm.trans hrecorded'
    exact hiff.mp hset
  · intro h before channel permille after hsplit
    obtain ⟨log, hlog, hrecorded, hiff⟩ := hduty before channel permille after hsplit
    exact ⟨log, _, _, hlog, hrecorded, hiff.mpr (h before channel permille after hsplit)⟩

/-- A device that is ready and takes every setting. -/
def readyPwm : Pwm0 := some ⟨fun _ => true, fun _ _ _ _ => 0⟩

theorem pwm_composes_iff_duty : ∃ log,
    runPwm readyPwm [] [.config 1 1000, .setDuty 0 500] = some log ∧
    (PwmComposes readyPwm [.config 1 1000, .setDuty 0 500] ↔
      DutiesFirst [.config 1 1000, .setDuty 0 500]) := by
  have hrun : runPwm readyPwm [] [.config 1 1000, .setDuty 0 500] =
      some [⟨1, 1000000, 0, 0⟩, ⟨0, 20000, 10000, 0⟩] := by decide
  refine ⟨_, hrun, pwm_composes_iff hrun fun channel f hmem => ?_⟩
  rcases List.mem_cons.mp hmem with hconfig | hduty
  · cases hconfig
    decide
  · cases List.mem_singleton.mp hduty

/-- A channel at 1 kHz goes back to 50 kHz when its duty is set. -/
theorem frequency_lost : ∃ log, runPwm readyPwm [] [.config 0 1000, .setDuty 0 500] = some log ∧
    lastConfig [.config 0 1000] 0 = some 1000 ∧ recorded log 0 = some (20000, 10000) ∧
    ¬ PwmComposes readyPwm [.config 0 1000, .setDuty 0 500] := by
  have hrun : runPwm readyPwm [] [.config 0 1000, .setDuty 0 500] =
      some [⟨0, 1000000, 0, 0⟩, ⟨0, 20000, 10000, 0⟩] := by decide
  refine ⟨_, hrun, by decide, by decide, fun h => ?_⟩
  obtain ⟨log, period, pulse, hlog, hrecorded, hset⟩ := h [.config 0 1000] 0 500 [] rfl
  cases hrun.symm.trans hlog
  cases hrecorded
  exact absurd (hset.configured 1000 (by decide)) (by decide)

end MiniBeam

import OlympusFirmware.Lib.Fsm
import Mathlib.Data.UInt

/-!
# The throttle of Hermes (`hermes/drivers/throttle.c`)

`updateThrottle` is one step of a proportional-derivative controller: it reads
the speed, computes the next speed to command in signed 32-bit arithmetic, scales
it to the 12 bits of the DAC and sends the two bytes over I2C. The error of the
step before is a static variable, so a run is a machine over readings and over the
targets the master sets in between.

Signed arithmetic that leaves 32 bits is undefined, so the computation is partial.
The scaling multiplies by 4095 and divides by `MAX_THROTTLE`, which is 4095 too,
but the division is unsigned: a negative product is taken modulo 2^32 first, and
nothing keeps the quotient within 12 bits.
-/

namespace OlympusFirmware.Hermes

open OlympusFirmware.Lib

/-- `MAX_THROTTLE`. -/
def maxThrottle : UInt32 := 4095

/-- `MCP4726`, the address of the DAC. -/
def mcp4726 : UInt8 := 0xC6

/-- The result of a signed 32-bit operation, if there is one. -/
def int32 (x : Int) : Option Int :=
  if -2147483648 ≤ x ∧ x ≤ 2147483647 then some x else none

/-- `goalSpeed` and the static `prevError` of `updateThrottle`. -/
structure Throttle where
  goalSpeed : Int16
  prevError : Int32
deriving DecidableEq

/-- The state at reset. -/
def Throttle.reset : Throttle := ⟨0, 0⟩

/-- `setThrottle`. -/
def setThrottle (mms : Int) (t : Throttle) : Throttle := { t with goalSpeed := .ofInt mms }

/-- `set_starg_callback`, which `mms < 0` never takes: it is unsigned. -/
def setSpeedTarget (data₀ data₁ : UInt8) (t : Throttle) : Throttle :=
  let mms := data₁.toUInt32 ||| data₀.toUInt32 <<< 8
  let mms := if maxThrottle < mms then maxThrottle else mms
  setThrottle mms.toNat t

/-- What a step does: the DAC is sent two bytes, unless the computation has no
result. -/
inductive ThrottleOutput
  | transmit (address dacval₀ dacval₁ : UInt8)
  | overflow
deriving DecidableEq

/-- `dacout`, in signed arithmetic up to the division. -/
def dacout (goalSpeed currentSpeed prevError : Int) : Option UInt32 := do
  let error ← int32 (goalSpeed - currentSpeed)
  let dError ← int32 (prevError - error)
  let proportional ← int32 (125 * error)
  let derivative ← int32 (875 * dError)
  let correction ← int32 (proportional.tdiv 100 - derivative.tdiv 100)
  let nextSpeed ← int32 (currentSpeed + correction)
  let product ← int32 (nextSpeed * 0xFFF)
  return UInt32.ofInt product / maxThrottle

/-- `updateThrottle`, with the reading of `getSpeed`. -/
def updateThrottle (currentSpeed : Int16) (t : Throttle) : Throttle × List ThrottleOutput :=
  ({ t with prevError := .ofInt (t.goalSpeed.toInt - currentSpeed.toInt) },
    match dacout t.goalSpeed.toInt currentSpeed.toInt t.prevError.toInt with
    | some dacout => [.transmit mcp4726 (dacout >>> 8 &&& 0x0F).toUInt8 dacout.toUInt8]
    | none => [.overflow])

/-- What happens to the controller. -/
inductive ThrottleEvent
  /-- the master's message, with its two data bytes -/
  | setSpeedTarget (data₀ data₁ : UInt8)
  /-- a pass of the main loop, with the speed it reads -/
  | update (currentSpeed : Int16)
deriving DecidableEq

/-- The controller as a machine. -/
def throttleFSM : Fsm Throttle ThrottleEvent ThrottleOutput where
  step t
    | .setSpeedTarget data₀ data₁ => (setSpeedTarget data₀ data₁ t, [])
    | .update currentSpeed => updateThrottle currentSpeed t

/-! ## What saturation asks -/

/-- The speed to command, by the control law: the reading, corrected by 1.25 times
the error and -8.75 times its decrease, each rounded towards zero. -/
def controlLaw (goalSpeed currentSpeed prevError : Int) : Int :=
  let error := goalSpeed - currentSpeed
  currentSpeed + ((125 * error).tdiv 100 - (875 * (prevError - error)).tdiv 100)

/-- The nearest speed the DAC can express. -/
def clamp (speed : Int) : Int := max 0 (min speed 4095)

/-- The step computes without overflow and sends the law's speed, clamped. -/
def Saturates (t : Throttle) : ThrottleEvent → Prop
  | .setSpeedTarget _ _ => True
  | .update currentSpeed =>
      ∃ dacval₀ dacval₁ : UInt8,
        (updateThrottle currentSpeed t).2 = [.transmit mcp4726 dacval₀ dacval₁] ∧
        (256 * dacval₀.toNat + dacval₁.toNat : Int) =
          clamp (controlLaw t.goalSpeed.toInt currentSpeed.toInt t.prevError.toInt)

/-- The law's speed is one the DAC can express; or it is above by full turns of 12
bits and looks like the maximum, or below and looks like zero, and multiplying it
does not overflow. -/
def Expressible (t : Throttle) : ThrottleEvent → Prop
  | .setSpeedTarget _ _ => True
  | .update currentSpeed =>
      let speed := controlLaw t.goalSpeed.toInt currentSpeed.toInt t.prevError.toInt
      (0 ≤ speed ∧ speed ≤ 4095) ∨
        (4095 < speed ∧ speed ≤ 524416 ∧ speed % 4096 = 4095) ∨
        (-524416 ≤ speed ∧ speed < 0 ∧ speed % 4096 = 3840)

/-! ## One step -/

/-- A result that fits is the result. -/
theorem int32_of_fits {x : Int} (low : -2147483648 ≤ x) (high : x ≤ 2147483647) :
    int32 x = some x := if_pos ⟨low, high⟩

/-- The targets and errors that occur. -/
structure Throttle.Bounded (t : Throttle) : Prop where
  goal : 0 ≤ t.goalSpeed.toInt ∧ t.goalSpeed.toInt ≤ 4095
  error : -32767 ≤ t.prevError.toInt ∧ t.prevError.toInt ≤ 36863

theorem bounded_reset : Throttle.reset.Bounded := ⟨by decide, by decide⟩

/-- The readings of `getSpeed`. -/
theorem reading_bounds (currentSpeed : Int16) :
    -32768 ≤ currentSpeed.toInt ∧ currentSpeed.toInt ≤ 32767 := by
  have low := currentSpeed.le_toInt
  have high := currentSpeed.toInt_lt
  omega

/-- Division rounds towards zero, so it makes nothing larger. -/
theorem tdiv_bounds (x bound : Int) (low : -bound ≤ x) (high : x ≤ bound) :
    -bound ≤ x.tdiv 100 ∧ x.tdiv 100 ≤ bound := by
  have abs : (x.tdiv 100).natAbs = x.natAbs / 100 := Int.natAbs_tdiv x 100
  omega

/-- Up to the last product nothing overflows, and what is multiplied is the law's
speed. -/
theorem dacout_eq {goal current prev : Int} (goalBounds : 0 ≤ goal ∧ goal ≤ 4095)
    (currentBounds : -32768 ≤ current ∧ current ≤ 32767)
    (prevBounds : -32767 ≤ prev ∧ prev ≤ 36863) :
    dacout goal current prev =
      (int32 (controlLaw goal current prev * 0xFFF)).bind
        fun product => some (UInt32.ofInt product / maxThrottle) := by
  have proportional := tdiv_bounds (125 * (goal - current)) 100000000
    (by omega) (by omega)
  have derivative := tdiv_bounds (875 * (prev - (goal - current))) 100000000
    (by omega) (by omega)
  unfold dacout controlLaw
  simp only [Option.bind_eq_bind, Option.pure_def]
  rw [int32_of_fits (x := goal - current) (by omega) (by omega), Option.bind_some,
    int32_of_fits (x := prev - (goal - current)) (by omega) (by omega), Option.bind_some,
    int32_of_fits (x := 125 * (goal - current)) (by omega) (by omega), Option.bind_some,
    int32_of_fits (x := 875 * (prev - (goal - current))) (by omega) (by omega),
    Option.bind_some, int32_of_fits (x := _ - _) (by omega) (by omega), Option.bind_some,
    int32_of_fits (x := current + _) (by omega) (by omega), Option.bind_some]

/-- The quotient, where the product fits: the speed itself, or, for a negative one,
what it is short of 2^32 divided by 4095. -/
theorem quotient_toNat {speed : Int} (low : -524416 ≤ speed) (high : speed ≤ 524416) :
    ((UInt32.ofInt (speed * 0xFFF) / maxThrottle).toNat : Int) =
      if 0 ≤ speed then speed else speed + 1048832 := by
  have toNat : (UInt32.ofInt (speed * 0xFFF)).toNat = (speed * 0xFFF % 2 ^ 32).toNat := by
    simp [UInt32.ofInt]
    omega
  rw [UInt32.toNat_div, toNat, show maxThrottle.toNat = 4095 from rfl]
  split <;> omega

/-- The two bytes sent are the low 12 bits. -/
theorem dac_bytes (dacout : UInt32) :
    256 * (dacout >>> 8 &&& 0x0F).toUInt8.toNat + dacout.toUInt8.toNat = dacout.toNat % 4096 := by
  have high : (dacout >>> 8 &&& 0x0F).toUInt8.toNat = dacout.toNat / 256 % 16 := by
    have mask := Nat.and_two_pow_sub_one_eq_mod (dacout.toNat / 256 % 256) 4
    simp [Nat.shiftRight_eq_div_pow] at mask ⊢
    omega
  have low : dacout.toUInt8.toNat = dacout.toNat % 256 := by simp
  omega

/-- **One step** from a state that occurs. -/
theorem saturates_iff {t : Throttle} (bounded : t.Bounded) (event : ThrottleEvent) :
    Saturates t event ↔ Expressible t event := by
  cases event with
  | setSpeedTarget => exact Iff.rfl
  | update currentSpeed =>
      have computed := dacout_eq bounded.goal (reading_bounds currentSpeed) bounded.error
      simp only [Saturates, Expressible, updateThrottle, computed]
      generalize controlLaw t.goalSpeed.toInt currentSpeed.toInt t.prevError.toInt = speed
      by_cases fits : -524416 ≤ speed ∧ speed ≤ 524416
      · rw [int32_of_fits (by omega) (by omega), Option.bind_some]
        have quotient := quotient_toNat fits.1 fits.2
        generalize UInt32.ofInt (speed * 0xFFF) / maxThrottle = dacout at quotient
        have bytes := dac_bytes dacout
        simp only [List.cons.injEq, ThrottleOutput.transmit.injEq, and_true, true_and]
        constructor
        · rintro ⟨_, _, ⟨rfl, rfl⟩, clamped⟩
          unfold clamp at clamped
          split at quotient <;> omega
        · intro expressible
          refine ⟨_, _, ⟨rfl, rfl⟩, ?_⟩
          unfold clamp
          split at quotient <;> omega
      · -- the last product overflows
        have overflow : int32 (speed * 0xFFF) = none := by
          rw [int32, if_neg]
          omega
        rw [overflow, Option.bind_none]
        constructor
        · rintro ⟨_, _, sent, -⟩
          cases sent
        · omega

/-! ## A run -/

/-- Steps keep the bounds. -/
theorem bounded_next {t : Throttle} (bounded : t.Bounded) (event : ThrottleEvent) :
    (throttleFSM.next t event).Bounded := by
  cases event with
  | setSpeedTarget data₀ data₁ =>
      refine ⟨?_, bounded.error⟩
      show 0 ≤ (setSpeedTarget data₀ data₁ t).goalSpeed.toInt ∧
        (setSpeedTarget data₀ data₁ t).goalSpeed.toInt ≤ 4095
      simp only [setSpeedTarget, setThrottle]
      generalize data₁.toUInt32 ||| data₀.toUInt32 <<< 8 = mms
      have small : (if maxThrottle < mms then maxThrottle else mms).toNat ≤ 4095 := by
        split
        · exact Nat.le_refl _
        · rename_i below
          rw [UInt32.lt_iff_toNat_lt, not_lt] at below
          exact below
      rw [Int16.toInt_ofInt_of_le (by omega) (by omega)]
      omega
  | update currentSpeed =>
      have reading := reading_bounds currentSpeed
      have goal := bounded.goal
      refine ⟨goal, ?_⟩
      show -32767 ≤ (Int32.ofInt (t.goalSpeed.toInt - currentSpeed.toInt)).toInt ∧
        (Int32.ofInt (t.goalSpeed.toInt - currentSpeed.toInt)).toInt ≤ 36863
      rw [Int32.toInt_ofInt_of_le (by omega) (by omega)]
      omega

/-- **Saturation.** For every sequence of targets and readings from reset: every
step computes without overflow and sends the clamped speed if and only if at every
step the law's speed is expressible. -/
theorem throttle_saturates_iff (events : List ThrottleEvent) :
    throttleFSM.EveryStep Saturates .reset events ↔
      throttleFSM.EveryStep Expressible .reset events := by
  constructor
  · exact throttleFSM.everyStep_of_invariant (I := Throttle.Bounded)
      (fun t event bounded saturates =>
        ⟨bounded_next bounded event, (saturates_iff bounded event).mp saturates⟩) bounded_reset
  · exact throttleFSM.everyStep_of_invariant (I := Throttle.Bounded)
      (fun t event bounded expressible =>
        ⟨bounded_next bounded event, (saturates_iff bounded event).mpr expressible⟩) bounded_reset

/-- With the target at zero, one millimetre per second of speed drives the throttle
to 248 of 4095. -/
theorem rolling_opens_throttle :
    controlLaw 0 1 0 = -8 ∧
      throttleFSM.outputs .reset [.update 1] = [.transmit mcp4726 0x00 0xF8] ∧
      ¬ throttleFSM.EveryStep Saturates .reset [.update 1] := by
  refine ⟨by decide, by decide +kernel, ?_⟩
  rintro ⟨⟨dacval₀, dacval₁, sent, clamped⟩, -⟩
  have bytes : dacval₀ = 0x00 ∧ dacval₁ = 0xF8 := by
    have computed : (updateThrottle 1 .reset).2 = [.transmit mcp4726 0x00 0xF8] := by
      decide +kernel
    rw [computed] at sent
    simpa [eq_comm] using sent
  rw [bytes.1, bytes.2] at clamped
  revert clamped
  decide

end OlympusFirmware.Hermes

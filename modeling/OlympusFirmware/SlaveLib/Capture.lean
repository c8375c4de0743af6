import OlympusFirmware.Lib.Fsm
import OlympusFirmware.Lib.PingPong
import Mathlib.Data.UInt

/-!
# Speeds from captures (`hermes/drivers/speed.c`, `hephaestus/drivers/steer_speed.c`)

`TIM2` counts to `0xFFFFFFFF` and starts again; an edge of the encoder copies the count to a
capture register and interrupts. The two boards have the same handler, for a channel of the
timer each: it takes the difference to the capture before, converts it to a speed and leaves
it in a ping-pong pair. They have the same timeout too, which leaves a zero there.

Where the count started again between two captures, the handler adds `UINT32_MAX` and not
one more: the difference is one too small.
-/

namespace OlympusFirmware.SlaveLib

open OlympusFirmware.Lib

/-- The static variables: the capture before, the speeds, the time of the last of them. -/
structure SpeedCapture where
  count : UInt32
  speed : PingPong Int16
  sysCount : UInt32

/-- The variables at reset. -/
def SpeedCapture.reset : SpeedCapture := ⟨0, .init 0, 0⟩

/-- What an interrupt finds: the flag of the channel, its capture register and the time. -/
structure TimerRegisters where
  flag : Bool
  capture : UInt32
  systickCount : UInt32
deriving DecidableEq

/-- `chDiff`. -/
def chDiff (cap count : UInt32) : UInt32 :=
  if count ≤ cap then cap - count else 0xFFFFFFFF - count + cap

/-- `TIM2_IRQHandler`. -/
def captureIrq (convert : UInt32 → Int16) (r : TimerRegisters) (s : SpeedCapture) :
    SpeedCapture :=
  if r.flag then
    ⟨r.capture, s.speed.write (convert (chDiff r.capture s.count)), r.systickCount⟩
  else s

/-- The timeout. -/
def captureTimeout (minTimeout systickCount : UInt32) (s : SpeedCapture) : SpeedCapture :=
  if s.sysCount + minTimeout < systickCount then
    { s with speed := s.speed.write 0, sysCount := systickCount }
  else s

/-- What can happen to the variables. -/
inductive CaptureEvent
  | irq (r : TimerRegisters)
  | timeout (systickCount : UInt32)
deriving DecidableEq

/-- The interrupt and the timeout of a board, in any order. -/
def captureMachine (convert : UInt32 → Int16) (minTimeout : UInt32) :
    Fsm SpeedCapture CaptureEvent Empty where
  step s
    | .irq r => (captureIrq convert r s, [])
    | .timeout systickCount => (captureTimeout minTimeout systickCount s, [])

/-- The captures of a run, in order. -/
def captures (events : List CaptureEvent) : List UInt32 :=
  events.filterMap fun
    | .irq r => if r.flag then some r.capture else none
    | .timeout _ => none

/-- The difference is that of the counter, or one less where the counter has wrapped. -/
theorem chDiff_eq (cap count : UInt32) :
    chDiff cap count = if count ≤ cap then cap - count else cap - count - 1 := by
  unfold chDiff
  split
  · rfl
  · rw [show (0xFFFFFFFF : UInt32) = -1 by decide]
    grind

/-! ## The sign and the size of a speed -/

/-- `direction`, from the level of the pin. -/
def direction (pin : Bool) : Int16 := if pin then -1 else 1

/-- What the two conversions return of a quotient: `direction * (int16_t)(quotient)`. -/
def directed (pin : Bool) (quotient : UInt32) : Int16 :=
  direction pin * quotient.toUInt16.toInt16

/-- The narrowed quotient has the sign of its bit 15, and -32768 is its own opposite. -/
theorem toInt_directed (pin : Bool) (quotient : UInt32) :
    (directed pin quotient).toInt = ((direction pin).toInt * quotient.toNat).bmod 65536 := by
  have narrow : quotient.toUInt16.toInt16.toInt = (quotient.toNat : Int).bmod 65536 := by
    show quotient.toUInt16.toBitVec.toInt = _
    rw [BitVec.toInt_eq_toNat_bmod]
    show ((quotient.toUInt16.toNat : Int)).bmod 65536 = _
    rw [UInt32.toNat_toUInt16]
    simp [Int.bmod_def]
  rw [directed, Int16.toInt_mul, narrow, Int.mul_bmod_bmod]

/-- The size of a speed. -/
theorem natAbs_directed (pin : Bool) (quotient : UInt32) :
    (directed pin quotient).toInt.natAbs =
      min (quotient.toNat % 65536) (65536 - quotient.toNat % 65536) := by
  rw [toInt_directed]
  cases pin
  · rw [show (direction false).toInt = 1 by decide, Int.bmod_def]
    split <;> omega
  · rw [show (direction true).toInt = -1 by decide, Int.bmod_def]
    split <;> omega

/-- When a speed is not opposite to the direction. -/
theorem sign_directed (pin : Bool) (quotient : UInt32) :
    0 ≤ (direction pin).toInt * (directed pin quotient).toInt ↔
      quotient.toNat % 65536 < 32768 ∨ pin ∧ quotient.toNat % 65536 = 32768 := by
  rw [toInt_directed]
  cases pin
  · rw [show (direction false).toInt = 1 by decide, Int.bmod_def]
    simp only [Bool.false_eq_true, false_and, or_false]
    split <;> omega
  · rw [show (direction true).toInt = -1 by decide, Int.bmod_def]
    simp only [true_and]
    split <;> omega

/-! ## Runs -/

section Run

variable {convert : UInt32 → Int16} {minTimeout : UInt32}

/-- One event leaves the last capture in `count`. -/
theorem count_step (s : SpeedCapture) (e : CaptureEvent) :
    ((captureMachine convert minTimeout).next s e).count =
      ((captures [e]).getLast?).getD s.count := by
  cases e with
  | irq r =>
    show (captureIrq convert r s).count = _
    cases flag : r.flag <;> simp [captureIrq, captures, flag]
  | timeout systickCount =>
    show (captureTimeout minTimeout systickCount s).count = _
    unfold captureTimeout
    split <;> rfl

/-- The last capture of a run is in `count`. -/
theorem count_after (s : SpeedCapture) (events : List CaptureEvent) :
    ((captureMachine convert minTimeout).after s events).count =
      ((captures events).getLast?).getD s.count := by
  induction events generalizing s with
  | nil => rfl
  | cons e events ih =>
    have split : captures (e :: events) = captures [e] ++ captures events :=
      List.filterMap_append (l := [e])
    rw [Fsm.after_cons, ih, count_step, split, List.getLast?_append]
    cases (captures events).getLast? <;> rfl

/-- The speed to be read after an interrupt that follows a capture. -/
theorem read_captureIrq {s : SpeedCapture} {events : List CaptureEvent} {old : UInt32}
    {r : TimerRegisters} (last : (captures events).getLast? = some old) (flag : r.flag) :
    (captureIrq convert r ((captureMachine convert minTimeout).after s events)).speed.read =
      convert (chDiff r.capture old) := by
  have count : ((captureMachine convert minTimeout).after s events).count = _ :=
    count_after s events
  rw [last] at count
  simp [captureIrq, flag, count]

/-- The speed is that of the counter's difference, unless the counter has wrapped and one
tick less is another speed. -/
theorem read_captureIrq_iff {s : SpeedCapture} {events : List CaptureEvent} {old : UInt32}
    {r : TimerRegisters} (last : (captures events).getLast? = some old) (flag : r.flag) :
    (captureIrq convert r ((captureMachine convert minTimeout).after s events)).speed.read =
        convert (r.capture - old) ↔
      old ≤ r.capture ∨ convert (r.capture - old - 1) = convert (r.capture - old) := by
  rw [read_captureIrq last flag, chDiff_eq]
  by_cases ordered : old ≤ r.capture
  · simp [ordered]
  · simp [ordered]

end Run

end OlympusFirmware.SlaveLib

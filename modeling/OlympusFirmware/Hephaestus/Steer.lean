import Mathlib.Data.List.Basic
import Mathlib.Data.UInt

/-!
# The steering motor of Hephaestus (`hephaestus/drivers/steer.c`, `peripherals/tim.c`)

Both H-bridges are driven by the compare registers of one timer: `CCR1` and `CCR2`
turn the steering motor right and left, `CCR3` and `CCR4` move the brake. What the
firmware does to them is a list of register writes, in order; the registers after
it are the fold of the writes, so every point between two writes is the fold of a
prefix.

`update_steer_control_loop` writes the steering registers only when the direction
changes, which it remembers in two flags. `enableSteering` is set right before it
is tested, so the test is always taken.
-/

namespace OlympusFirmware.Hephaestus

/-! ## The timer -/

/-- `ARR_DEFAULT`. -/
def arrDefault : UInt16 := 5545

/-- `DUTY_MAX`. -/
def dutyMax : UInt8 := 100

/-- The compare registers of `TIM1`. -/
inductive Ccr
  | ccr1 | ccr2 | ccr3 | ccr4
deriving DecidableEq

/-- `TIM1->CCRx = value`. -/
structure CcrWrite where
  reg : Ccr
  value : UInt16
deriving DecidableEq

/-- The contents of the compare registers. -/
structure Tim1 where
  ccr1 : UInt16
  ccr2 : UInt16
  ccr3 : UInt16
  ccr4 : UInt16
deriving DecidableEq

/-- One register write. -/
def Tim1.write (tim : Tim1) (w : CcrWrite) : Tim1 :=
  match w.reg with
  | .ccr1 => { tim with ccr1 := w.value }
  | .ccr2 => { tim with ccr2 := w.value }
  | .ccr3 => { tim with ccr3 := w.value }
  | .ccr4 => { tim with ccr4 := w.value }

/-- A list of register writes. -/
def Tim1.writes (tim : Tim1) (ws : List CcrWrite) : Tim1 := ws.foldl Tim1.write tim

@[simp] theorem Tim1.writes_nil (tim : Tim1) : tim.writes [] = tim := rfl

@[simp] theorem Tim1.writes_cons (tim : Tim1) (w : CcrWrite) (ws : List CcrWrite) :
    tim.writes (w :: ws) = (tim.write w).writes ws := rfl

theorem Tim1.writes_append (tim : Tim1) (first rest : List CcrWrite) :
    tim.writes (first ++ rest) = (tim.writes first).writes rest := List.foldl_append

/-- `MX_TIMER_1_INIT`: the `Pulse` of each channel goes to its register
(`PULSE1_INIT_VALUE` to `PULSE4_INIT_VALUE`), then the outputs are started. -/
def mxTimer1Init : List CcrWrite := [⟨.ccr1, 600⟩, ⟨.ccr2, 500⟩, ⟨.ccr3, 450⟩, ⟨.ccr4, 300⟩]

/-- `tim1_duty_lut`: from the full period down to zero, in hundredths. -/
def tim1DutyLut : Vector UInt16 101 :=
  Vector.ofFn fun i => UInt16.ofNat (arrDefault.toNat * (100 - i) / 100)

/-- `tim1_set_channel_duty`. -/
def tim1SetChannelDuty (chn duty : UInt8) : List CcrWrite :=
  if dutyMax < duty then []
  else
    -- change for table
    let duty := dutyMax - duty
    let value := if duty = 0 then arrDefault else (tim1DutyLut[duty.toNat]?).getD 0
    match chn with
    | 1 => [⟨.ccr1, value⟩]
    | 2 => [⟨.ccr2, value⟩]
    | 3 => [⟨.ccr3, value⟩]
    | 4 => [⟨.ccr4, value⟩]
    | _ => []

/-! ## The control loop -/

/-- `DEADZONE`. -/
def deadzone : Nat := 50
/-- `MAX_LEFT_POT`. -/
def maxLeftPot : Nat := 975
/-- `MIDDLE_POT`. -/
def middlePot : UInt16 := 1600
/-- `MAX_RIGHT_POT`. -/
def maxRightPot : Nat := 1917
/-- `MAX_LEFT_DEG`. -/
def maxLeftDeg : UInt8 := 45
/-- `MAX_RIGHT_DEG`. -/
def maxRightDeg : UInt8 := 125
/-- `POT_DEG_SLOPE`: the division truncates. -/
def potDegSlope : Nat := (maxRightPot - maxLeftPot) / (maxRightDeg.toNat - maxLeftDeg.toNat)
/-- `POT_DEG_INTERCEPT`. -/
def potDegIntercept : Nat := maxLeftPot - maxLeftDeg.toNat * potDegSlope
/-- `CORRECTION_OFFSET`. -/
def correctionOffset : Nat := 100
/-- `BANG_BANG_DUTY`. -/
def bangBangDuty : UInt8 := 85

/-- `deg_to_pot`. -/
def degToPot (deg : UInt8) : UInt16 :=
  UInt16.ofNat (deg.toNat * potDegSlope + potDegIntercept + correctionOffset)

/-- `steer_left`. -/
def steerLeft (duty : UInt8) : List CcrWrite :=
  tim1SetChannelDuty 1 0 ++ tim1SetChannelDuty 2 duty

/-- `steer_right`. -/
def steerRight (duty : UInt8) : List CcrWrite :=
  tim1SetChannelDuty 2 0 ++ tim1SetChannelDuty 1 duty

/-- `steer_stop`. -/
def steerStop : List CcrWrite := tim1SetChannelDuty 1 0 ++ tim1SetChannelDuty 2 0

/-- The static variables of `update_steer_control_loop`. -/
structure SteerFlags where
  motorOnLeft : Bool
  motorOnRight : Bool
deriving DecidableEq

/-- `update_steer_control_loop`, with the latest reading and the target. -/
def updateSteerControlLoop (steeringPot targetSteerValue : UInt16) (flags : SteerFlags) :
    SteerFlags × List CcrWrite :=
  -- the operands are promoted to `int`, so the difference may be negative
  if (steeringPot.toNat : Int) < targetSteerValue.toNat - deadzone then
    -- steering is too far left
    if flags.motorOnRight then (flags, [])
    else (⟨false, true⟩, steerRight bangBangDuty)
  else if targetSteerValue.toNat + deadzone < steeringPot.toNat then
    -- steering is too far right
    if flags.motorOnLeft then (flags, [])
    else (⟨true, false⟩, steerLeft bangBangDuty)
  else
    (⟨false, false⟩, steerStop)

/-! ## What one call leaves in the registers -/

/-- The compare value of the bang-bang duty. -/
def bangBangValue : UInt16 := 4713

theorem steerRight_eq : steerRight bangBangDuty = [⟨.ccr2, 0⟩, ⟨.ccr1, bangBangValue⟩] := by
  decide +kernel

theorem steerLeft_eq : steerLeft bangBangDuty = [⟨.ccr1, 0⟩, ⟨.ccr2, bangBangValue⟩] := by
  decide +kernel

theorem steerStop_eq : steerStop = [⟨.ccr1, 0⟩, ⟨.ccr2, 0⟩] := by
  decide +kernel

/-- The angles the command parser accepts keep the target clear of both stops. -/
theorem degToPot_toNat (deg : UInt8) : (degToPot deg).toNat = 11 * deg.toNat + 580 := by
  have small := deg.toNat_lt
  have slope : potDegSlope = 11 := by decide
  have intercept : potDegIntercept = 480 := by decide
  rw [degToPot, UInt16.toNat_ofNat', slope, intercept, correctionOffset]
  omega

/-- A flag that is set tells what the registers hold. -/
structure Latched (flags : SteerFlags) (tim : Tim1) : Prop where
  right : flags.motorOnRight = true → tim.ccr1 = bangBangValue ∧ tim.ccr2 = 0
  left : flags.motorOnLeft = true → tim.ccr1 = 0 ∧ tim.ccr2 = bangBangValue

/-- What the control loop is for: the two steering registers, by reading and target. -/
def drive (steeringPot targetSteerValue : UInt16) : UInt16 × UInt16 :=
  if steeringPot.toNat + 50 < targetSteerValue.toNat then (bangBangValue, 0)
  else if targetSteerValue.toNat + 50 < steeringPot.toNat then (0, bangBangValue)
  else (0, 0)

/-- **One call** leaves the drive of the latest reading and target in the steering
registers and the flags telling so; the brake's registers stay. -/
theorem updateSteerControlLoop_spec {flags : SteerFlags} {tim : Tim1} (latched : Latched flags tim)
    (steeringPot targetSteerValue : UInt16) {flags' : SteerFlags} {ws : List CcrWrite}
    (call : updateSteerControlLoop steeringPot targetSteerValue flags = (flags', ws)) :
    ((tim.writes ws).ccr1, (tim.writes ws).ccr2) = drive steeringPot targetSteerValue ∧
      Latched flags' (tim.writes ws) := by
  have right : ((steeringPot.toNat : Int) < targetSteerValue.toNat - (deadzone : Nat)) ↔
      steeringPot.toNat + 50 < targetSteerValue.toNat := by
    rw [deadzone]
    omega
  unfold updateSteerControlLoop at call
  unfold drive
  rw [if_congr right rfl rfl, deadzone] at call
  split at call
  · rename_i low
    rw [if_pos low]
    split at call
    · -- already driving right
      rename_i on
      cases call
      obtain ⟨first, second⟩ := latched.right on
      exact ⟨by rw [Tim1.writes_nil, first, second], latched⟩
    · rw [steerRight_eq] at call
      cases call
      refine ⟨rfl, fun _ => ⟨rfl, rfl⟩, ?_⟩
      intro on
      cases on
  · rename_i notLow
    rw [if_neg notLow]
    split at call
    · rename_i high
      rw [if_pos high]
      split at call
      · -- already driving left
        rename_i on
        cases call
        obtain ⟨first, second⟩ := latched.left on
        exact ⟨by rw [Tim1.writes_nil, first, second], latched⟩
      · rw [steerLeft_eq] at call
        cases call
        refine ⟨rfl, ?_, fun _ => ⟨rfl, rfl⟩⟩
        intro on
        cases on
    · rename_i notHigh
      rw [if_neg notHigh]
      rw [steerStop_eq] at call
      cases call
      refine ⟨rfl, ?_, ?_⟩
      · intro on
        cases on
      · intro on
        cases on

end OlympusFirmware.Hephaestus

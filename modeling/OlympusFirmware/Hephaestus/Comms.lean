import OlympusFirmware.Hephaestus.Steer
import OlympusFirmware.Lib.Bytes
import OlympusFirmware.Update.Board

/-!
# The messages of Hephaestus (`hephaestus/drivers/comms.c`)

The callbacks read and write four variables of the program: the steering target,
the averages of the two potentiometers that the ADC interrupt last completed, and
the steering speed that the capture interrupt last completed (the slots the two
ping-pong buffers have for reading).
-/

namespace OlympusFirmware.Hephaestus

open OlympusFirmware.Lib OlympusFirmware.SlaveLib
open OlympusFirmware.Update (Application getStatusCallback bootload)

/-- The variables of the program that messages reach. -/
structure Vars where
  targetSteerValue : UInt16
  /-- `adcChnAvg[adcChnReadIdx][STEER_AVG_IDX]` -/
  steerAvg : UInt16
  /-- `adcChnAvg[adcChnReadIdx][BRAKE_AVG_IDX]` -/
  brakeAvg : UInt16
  /-- `ch3Speed[(ch3SpeedWr + 1u) % PING_PONG_SIZE]` -/
  steerSpeed : Int16
deriving DecidableEq

/-- The variables at reset. -/
def Vars.reset : Vars := ⟨middlePot, 0, 0, 0⟩

/-- `set_steer_target`. -/
def setSteerTarget (angle : UInt8) (h : Vars) : Vars :=
  { h with targetSteerValue := degToPot angle }

/-- `set_steer_callback`. -/
def setSteerCallback (data : Mem UInt8) (h : Vars) : CallResult Vars Empty :=
  if maxRightDeg < data 0 ∨ data 0 < maxLeftDeg then ⟨some wrErrInvArg, data, h, []⟩
  else ⟨some wrOk, data, setSteerTarget (data 0) h, []⟩

/-- A callback that copies a 16-bit variable to the buffer. -/
def getHalfCallback (value : Vars → UInt16) (data : Mem UInt8) (h : Vars) :
    CallResult Vars Empty :=
  ⟨some wrOk, data.store 0 (leBytes 2 (value h).toNat), h, []⟩

/-- `get_steer_pot_callback`. -/
def getSteerPotCallback := getHalfCallback Vars.steerAvg

/-- `get_steer_speed_callback`. -/
def getSteerSpeedCallback := getHalfCallback fun h => h.steerSpeed.toUInt16

/-- `get_brake_pot_callback`. -/
def getBrakePotCallback := getHalfCallback Vars.brakeAvg

/-- `set_brake_callback`. -/
def setBrakeCallback (data : Mem UInt8) (h : Vars) : CallResult Vars Empty :=
  ⟨some wrErr, data, h, []⟩

/-- `msgResp`. -/
def hephaestus : Application Vars Empty where
  start := .reset
  msgResp
    | 0 => ⟨0, 0, some getStatusCallback⟩
    | 1 => ⟨1, 0, some setSteerCallback⟩
    | 2 => ⟨0, 2, some getSteerPotCallback⟩
    | 3 => ⟨0, 2, some getSteerSpeedCallback⟩
    | 4 => ⟨2, 0, some setBrakeCallback⟩
    | 5 => ⟨0, 2, some getBrakePotCallback⟩
    -- 6 to 9 are unused
    | 10 => ⟨0, 0, some bootload⟩
    | _ => ⟨0, 0, none⟩
  status := rfl
  boot := rfl

/-! ## The target -/

/-- A target the program can have: the middle, or that of an accepted angle. -/
def ValidTarget (target : UInt16) : Prop :=
  target = middlePot ∨ ∃ angle, maxLeftDeg ≤ angle ∧ angle ≤ maxRightDeg ∧ target = degToPot angle

/-- Valid targets are clear of both stops by more than the dead zone. -/
theorem ValidTarget.bounds {target : UInt16} (valid : ValidTarget target) :
    1075 ≤ target.toNat ∧ target.toNat ≤ 1955 := by
  rcases valid with rfl | ⟨angle, low, high, rfl⟩
  · decide
  · have low' : 45 ≤ angle.toNat := UInt8.le_iff_toNat_le.mp low
    have high' : angle.toNat ≤ 125 := UInt8.le_iff_toNat_le.mp high
    rw [degToPot_toNat]
    omega

/-- No callback sets another target. -/
theorem callbacks_keep_target {msgType : UInt8} {callback : _} {buff : Mem UInt8} {h : Vars}
    (known : (hephaestus.msgResp msgType).callback = some callback)
    (valid : ValidTarget h.targetSteerValue) :
    ValidTarget (callback buff h).prog.targetSteerValue := by
  simp only [hephaestus] at known
  split at known <;> cases known
  case h_2 =>
    unfold setSteerCallback
    split
    · exact valid
    · rename_i accepted
      rw [not_or, UInt8.not_lt, UInt8.not_lt] at accepted
      exact .inr ⟨buff 0, accepted.2, accepted.1, rfl⟩
  all_goals exact valid

end OlympusFirmware.Hephaestus

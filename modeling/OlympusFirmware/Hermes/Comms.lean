import OlympusFirmware.Hermes.Throttle
import OlympusFirmware.Lib.Bytes
import OlympusFirmware.Update.Board

/-!
# The messages of Hermes (`hermes/drivers/comms.c`)

The callbacks reach the throttle controller, the pin of the mode switch and the speed
that the capture interrupt last completed. The entry of `get_speed_callback` says that
no data is sent back, although the callback fills two bytes of the buffer.
-/

namespace OlympusFirmware.Hermes

open OlympusFirmware.Lib OlympusFirmware.SlaveLib
open OlympusFirmware.Update (Application getStatusCallback bootload)

/-- The variables of the program that messages reach. -/
structure Vars where
  throttle : Throttle
  /-- `get_automan_enabled()` -/
  automan : Bool
  /-- `getSpeed()` -/
  speed : Int16
deriving DecidableEq

/-- The variables at reset. -/
def Vars.reset : Vars := ⟨.reset, false, 0⟩

/-- `get_aman_callback`. -/
def getAmanCallback (data : Mem UInt8) (h : Vars) : CallResult Vars Empty :=
  ⟨some wrOk, data.store 0 [if h.automan then 1 else 0], h, []⟩

/-- `get_speed_callback`. -/
def getSpeedCallback (data : Mem UInt8) (h : Vars) : CallResult Vars Empty :=
  let speed := h.speed.toUInt16
  ⟨some wrOk, data.store 0 [(speed &&& 0xFF).toUInt8, (speed >>> 8 &&& 0xFF).toUInt8], h, []⟩

/-- `get_pedal_callback`. -/
def getPedalCallback (data : Mem UInt8) (h : Vars) : CallResult Vars Empty :=
  ⟨some wrOk, data, h, []⟩

/-- `get_starg_callback`. -/
def getStargCallback (data : Mem UInt8) (h : Vars) : CallResult Vars Empty :=
  ⟨some wrOk, data, h, []⟩

/-- `set_starg_callback`. -/
def setStargCallback (data : Mem UInt8) (h : Vars) : CallResult Vars Empty :=
  ⟨some wrOk, data, { h with throttle := setSpeedTarget (data 0) (data 1) h.throttle }, []⟩

/-- `msgResp`. -/
def hermes : Application Vars Empty where
  start := .reset
  msgResp
    | 0 => ⟨0, 0, some getStatusCallback⟩
    | 1 => ⟨0, 1, some getAmanCallback⟩
    | 2 => ⟨0, 0, some getSpeedCallback⟩
    | 3 => ⟨0, 0, some getPedalCallback⟩
    | 4 => ⟨0, 2, some getStargCallback⟩
    | 5 => ⟨2, 0, some setStargCallback⟩
    -- 6 to 9 are unused
    | 10 => ⟨0, 0, some bootload⟩
    | _ => ⟨0, 0, none⟩
  status := rfl
  boot := rfl

/-- **The target** set from two bytes, the high one first: the nearest to it that the
throttle takes. -/
theorem goalSpeed_setSpeedTarget (high low : UInt8) (t : Throttle) :
    (setSpeedTarget high low t).goalSpeed.toInt = min (256 * high.toNat + low.toNat) 4095 := by
  have h := high.toNat_lt
  have l := low.toNat_lt
  have word : (low.toUInt32 ||| high.toUInt32 <<< 8).toNat = 256 * high.toNat + low.toNat := by
    have sum : low.toNat ||| high.toNat * 2 ^ 8 = high.toNat * 2 ^ 8 + low.toNat := by
      rw [Nat.or_comm, Nat.mul_comm, Nat.two_pow_add_eq_or_of_lt (by omega)]
    simp only [UInt32.toNat_or, UInt32.toNat_shiftLeft, UInt8.toNat_toUInt32,
      UInt32.reduceToNat, Nat.shiftLeft_eq, Nat.reduceMod]
    rw [Nat.mod_eq_of_lt (by omega), sum]
    omega
  simp only [setSpeedTarget, setThrottle]
  generalize low.toUInt32 ||| high.toUInt32 <<< 8 = mms at word
  have bounded : (if maxThrottle < mms then maxThrottle else mms).toNat = min mms.toNat 4095 := by
    split
    · rename_i above
      rw [UInt32.lt_iff_toNat_lt] at above
      exact (Nat.min_eq_right (Nat.le_of_lt above)).symm
    · rename_i below
      rw [UInt32.lt_iff_toNat_lt, not_lt] at below
      exact (Nat.min_eq_left below).symm
  rw [bounded, word, Int16.toInt_ofInt_of_le (by omega) (by omega)]

end OlympusFirmware.Hermes

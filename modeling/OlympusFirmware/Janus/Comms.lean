import OlympusFirmware.Lib.Bytes
import OlympusFirmware.Update.Board

/-!
# The gear selector of Janus (`janus/drivers/comms.c`, `fnr.c`)

`setFNR` drives the two control pins, one write after the other, so that the direction
that is left is switched off first; `getFNR` reads the three sense pins.
-/

namespace OlympusFirmware.Janus

open OlympusFirmware.Lib OlympusFirmware.SlaveLib
open OlympusFirmware.Update (Application getStatusCallback bootload)

/-- `NEUTRAL`, `FORWARD`, `REVERSE`, `INVALID` of `fnr_t`. -/
def neutral : UInt8 := 0
@[inherit_doc neutral] def forward : UInt8 := 1
@[inherit_doc neutral] def reverse : UInt8 := 2
@[inherit_doc neutral] def invalid : UInt8 := 3

/-- The control pins. -/
inductive CtrlPin
  | forward | reverse
deriving DecidableEq

/-- `HAL_GPIO_WritePin` on a control pin. -/
structure PinWrite where
  pin : CtrlPin
  set : Bool
deriving DecidableEq

/-- The levels of the sense pins. -/
structure Vars where
  forwardSense : Bool
  reverseSense : Bool
  neutralSense : Bool
deriving DecidableEq

/-- `getFNR`. -/
def getFNR (v : Vars) : UInt8 :=
  if v.forwardSense then forward
  else if v.reverseSense then reverse
  else if v.neutralSense = false then neutral
  else invalid

/-- `setFNR`. -/
def setFNR (state : UInt8) : List PinWrite :=
  (if state = neutral then [⟨.forward, false⟩, ⟨.reverse, false⟩] else []) ++
  (if state = forward then [⟨.reverse, false⟩, ⟨.forward, true⟩] else []) ++
  (if state = reverse then [⟨.forward, false⟩, ⟨.reverse, true⟩] else [])

/-- `set_fnr_callback`. -/
def setFnrCallback (data : Mem UInt8) (v : Vars) : CallResult Vars PinWrite :=
  let state := data 0
  if state ≠ forward ∧ state ≠ reverse ∧ state ≠ neutral then ⟨some wrErrInvArg, data, v, []⟩
  else ⟨some wrOk, data, v, (setFNR state).map .device⟩

/-- `get_fnr_callback`. -/
def getFnrCallback (data : Mem UInt8) (v : Vars) : CallResult Vars PinWrite :=
  ⟨some wrOk, data.store 0 [getFNR v], v, []⟩

/-- `msgResp`. -/
def janus : Application Vars PinWrite where
  start := ⟨false, false, false⟩
  msgResp
    | 0 => ⟨0, 0, some getStatusCallback⟩
    | 1 => ⟨0, 1, some getFnrCallback⟩
    | 2 => ⟨1, 0, some setFnrCallback⟩
    -- 3 to 9 are unused
    | 10 => ⟨0, 0, some bootload⟩
    | _ => ⟨0, 0, none⟩
  status := rfl
  boot := rfl

/-! ## The pins -/

/-- The levels of the control pins. -/
structure Pins where
  forward : Bool
  reverse : Bool
deriving DecidableEq

/-- One write. -/
def Pins.write (pins : Pins) (w : PinWrite) : Pins :=
  match w.pin with
  | .forward => { pins with forward := w.set }
  | .reverse => { pins with reverse := w.set }

/-- A list of writes. -/
def Pins.writes (pins : Pins) (ws : List PinWrite) : Pins := ws.foldl Pins.write pins

/-- The pins of a state. -/
def pinsOf (state : UInt8) : Pins := ⟨state = forward, state = reverse⟩

/-- The states that are accepted. -/
def Accepted (state : UInt8) : Prop := state = 0 ∨ state = 1 ∨ state = 2

instance (state : UInt8) : Decidable (Accepted state) :=
  inferInstanceAs (Decidable (_ ∨ _ ∨ _))

/-- The callback drives the pins of an accepted state, whatever they were, and nothing
for any other. -/
theorem setFnrCallback_spec (data : Mem UInt8) (v : Vars) :
    setFnrCallback data v =
      if Accepted (data 0) then ⟨some wrOk, data, v, (setFNR (data 0)).map .device⟩
      else ⟨some wrErrInvArg, data, v, []⟩ := by
  have refused : (data 0 ≠ forward ∧ data 0 ≠ reverse ∧ data 0 ≠ neutral) ↔
      ¬ Accepted (data 0) := by
    simp only [Accepted, forward, reverse, neutral]
    tauto
  rw [setFnrCallback, if_congr refused rfl rfl, ite_not]

theorem pins_setFNR {state : UInt8} (accepted : Accepted state) (pins : Pins) :
    pins.writes (setFNR state) = pinsOf state := by
  rcases accepted with rfl | rfl | rfl <;> rfl

end OlympusFirmware.Janus

import OlympusFirmware.Usb.ClassData

/-!
# Requests without an answer

After a SETUP packet something must be armed on endpoint 0: data or a status packet to be sent,
data to be received, or STALL. Some requests leave nothing, and the host waits until it gives
up. Which they are is known from the request and the state of the device.
-/

namespace OlympusFirmware.Usb

open OlympusFirmware.Lib

/-- Endpoint 0 has something for the host. -/
def UsbDevice.Armed (s : UsbDevice) : Prop :=
  s.stallIn = true ∨ s.stallOut = true ∨ s.transmit ≠ none ∨ s.receive ≠ none

/-- A descriptor of which nothing is wanted, and features that are not known. -/
def SetupReq.IgnoredByDevice (req : SetupReq) (desc : UsbDescriptors) (devState : DevState) :
    Prop :=
  req.bRequest = 0x06 ∧ (∃ bytes, UsbDevice.findDescriptor desc req.wValue = some bytes ∧
      (bytes.length = 0 ∨ req.wLength = 0)) ∨
    req.bRequest = 0x03 ∧ req.wValue ≠ 1 ∨
    req.bRequest = 0x01 ∧ (devState = .addressed ∨ devState = .configured) ∧ req.wValue ≠ 1

/-- Requests with data that are neither of the class nor GET_INTERFACE. -/
def SetupReq.IgnoredByInterface (req : SetupReq) (devState : DevState) : Prop :=
  devState = .configured ∧ req.wIndex % 2 ^ 8 ≤ 1 ∧ req.wLength ≠ 0 ∧
    req.bmRequest &&& 0x60 ≠ 0x20 ∧ ¬ (req.bmRequest &&& 0x60 = 0 ∧ req.bRequest = 0x0A)

/-- Requests of the class without data; others that are not known, that come before the device
is configured, or that clear an unknown feature. -/
def SetupReq.IgnoredByEndpoint (req : SetupReq) (devState : DevState) : Prop :=
  if req.bmRequest &&& 0x60 = 0x20 then req.wLength = 0
  else if req.bRequest = 0x03 ∨ req.bRequest = 0x00 then devState = .addressed
  else if req.bRequest = 0x01 then
    devState = .addressed ∨ devState = .configured ∧ req.wValue ≠ 0
  else True

/-- By what the request is addressed to. -/
def SetupReq.Ignored (req : SetupReq) (desc : UsbDescriptors) (devState : DevState) : Prop :=
  if req.bmRequest &&& 0x1F = 0 then req.IgnoredByDevice desc devState
  else if req.bmRequest &&& 0x1F = 1 then req.IgnoredByInterface devState
  else if req.bmRequest &&& 0x1F = 2 then req.IgnoredByEndpoint devState
  else False

variable {s : UsbDevice} {req : SetupReq} {desc : UsbDescriptors}

theorem ctlSendData_armed (pbuf : Mem UInt8) (len : Nat) : (s.ctlSendData pbuf len).Armed :=
  .inr (.inr (.inl (Option.some_ne_none _)))

theorem ctlSendBytes_armed (bytes : List UInt8) : (s.ctlSendBytes bytes).Armed :=
  ctlSendData_armed _ _

theorem ctlSendStatus_armed : s.ctlSendStatus.Armed :=
  .inr (.inr (.inl (Option.some_ne_none _)))

theorem ctlError_armed : s.ctlError.Armed := by
  left
  show (s.stallIn || decide ((0x80 : UInt8) = 0x80) || decide ((0 : UInt8) = 0x80)) = true
  simp

/-- The direction of a request, which is also that of the endpoint. -/
theorem direction (bm : UInt8) : bm &&& 0x80 = 0x80 ∨ bm &&& 0x80 = 0 := by
  rw [← UInt8.toBitVec_inj, ← UInt8.toBitVec_inj]
  show bm.toBitVec &&& 0x80 = 0x80 ∨ bm.toBitVec &&& 0x80 = 0
  generalize bm.toBitVec = bits
  revert bits
  decide +kernel

/-- STALL of another endpoint is not one of endpoint 0. -/
theorem stallEP_armed {ep : UInt8} (in_ : ep ≠ 0x80) (out : ep ≠ 0) :
    (s.stallEP ep).Armed ↔ s.Armed := by
  unfold UsbDevice.Armed UsbDevice.stallEP
  simp [in_, out]

/-- What the class driver arms. -/
theorem cdcSetup_armed (quiet : ¬ s.Armed) :
    (s.cdcSetup req).1.Armed ↔ req.OfClass ∧ s.classData ≠ none ∨
      req.bmRequest &&& 0x60 = 0 ∧ req.bRequest = 0x0A := by
  unfold UsbDevice.cdcSetup SetupReq.OfClass
  by_cases type : req.bmRequest &&& 0x60 = 0x20
  · have other : ¬ (req.bmRequest &&& 0x60 = 0) := by
      rw [type]
      decide
    rw [if_pos type]
    by_cases asks : req.wLength ≠ 0
    · rw [if_pos asks]
      cases classData : s.classData with
      | none => simp [quiet, type]
      | some hcdc =>
          dsimp only
          split
          · simp [ctlSendData_armed, type, asks]
          · simp [UsbDevice.Armed, UsbDevice.ctlPrepareRx, UsbDevice.epReceive, type, asks]
    · rw [if_neg asks]
      simp [quiet, asks, other]
  · rw [if_neg type]
    split
    · rename_i interface
      simp [ctlSendBytes_armed, interface]
    · rename_i interface
      simp [quiet, type, interface]

theorem getDescriptor_armed (quiet : ¬ s.Armed) :
    ¬ (s.getDescriptor desc req).Armed ↔
      ∃ bytes, UsbDevice.findDescriptor desc req.wValue = some bytes ∧
        (bytes.length = 0 ∨ req.wLength = 0) := by
  unfold UsbDevice.getDescriptor
  cases UsbDevice.findDescriptor desc req.wValue with
  | none => simp [ctlError_armed]
  | some bytes =>
      dsimp only
      split
      · rename_i both
        refine iff_of_false (not_not.mpr (ctlSendData_armed _ _)) ?_
        rintro ⟨other, same, none⟩
        obtain rfl := Option.some.inj same
        omega
      · rename_i either
        exact iff_of_true quiet ⟨bytes, rfl, by omega⟩

theorem setAddress_armed : (s.setAddress req).Armed := by
  unfold UsbDevice.setAddress
  split
  · split
    · exact ctlError_armed
    · exact ctlSendStatus_armed
  · exact ctlError_armed

theorem setConfig_armed {malloc : Option (Mem UInt8)} : (s.setConfig req malloc).Armed := by
  have class_ {s : UsbDevice} : (s.setClassConfig malloc).Armed := by
    unfold UsbDevice.setClassConfig
    split
    · exact ctlSendStatus_armed
    · exact ctlError_armed
  unfold UsbDevice.setConfig
  dsimp only
  split
  · exact ctlError_armed
  · split
    · split
      · exact class_
      · exact ctlSendStatus_armed
    · split
      · exact ctlSendStatus_armed
      · split
        · exact class_
        · exact ctlSendStatus_armed
    · exact ctlError_armed
    · exact ctlError_armed

theorem getConfig_armed : (s.getConfig req).Armed := by
  unfold UsbDevice.getConfig
  split
  · exact ctlError_armed
  · split
    · exact ctlSendBytes_armed _
    · exact ctlSendBytes_armed _
    · exact ctlError_armed
    · exact ctlError_armed

theorem getStatus_armed : s.getStatus.Armed := by
  unfold UsbDevice.getStatus
  split
  · exact ctlSendBytes_armed _
  · exact ctlSendBytes_armed _
  · exact ctlError_armed
  · exact ctlError_armed

theorem setFeature_armed (quiet : ¬ s.Armed) :
    ¬ (s.setFeature req).1.Armed ↔ req.wValue ≠ 1 := by
  unfold UsbDevice.setFeature
  split
  · rename_i wakeup
    exact iff_of_false (not_not.mpr ctlSendStatus_armed) (not_not.mpr wakeup)
  · rename_i other
    exact iff_of_true quiet other

theorem clrFeature_armed (quiet : ¬ s.Armed) :
    ¬ (s.clrFeature req).1.Armed ↔
      (s.devState = .addressed ∨ s.devState = .configured) ∧ req.wValue ≠ 1 := by
  have feature : ¬ (if req.wValue = 1 then
        (({ s with devRemoteWakeup := false }.cdcSetup req).1.ctlSendStatus,
          ({ s with devRemoteWakeup := false }.cdcSetup req).2)
      else (s, [])).1.Armed ↔ req.wValue ≠ 1 := by
    split
    · rename_i wakeup
      exact iff_of_false (not_not.mpr ctlSendStatus_armed) (not_not.mpr wakeup)
    · rename_i other
      exact iff_of_true quiet other
  unfold UsbDevice.clrFeature
  split
  · rename_i state
    simpa only [state, true_or, true_and] using feature
  · rename_i state
    simpa only [state, or_true, true_and] using feature
  · rename_i state
    simp [state, ctlError_armed]
  · rename_i state
    simp [state, ctlError_armed]

theorem stdDevReq_armed (quiet : ¬ s.Armed) {malloc : Option (Mem UInt8)} :
    ¬ (s.stdDevReq desc req malloc).1.Armed ↔ req.IgnoredByDevice desc s.devState := by
  have other (value : UInt8) (is : req.bRequest = value) (get : value ≠ 0x06)
      (set : value ≠ 0x03) (clear : value ≠ 0x01) {s' : UsbDevice} (armed : s'.Armed) :
      ¬ (s', ([] : List ControlOutput)).1.Armed ↔ req.IgnoredByDevice desc s.devState := by
    unfold SetupReq.IgnoredByDevice
    rw [is]
    simp [get, set, clear, armed]
  unfold UsbDevice.stdDevReq
  by_cases get : req.bRequest = 0x06
  · rw [if_pos get, getDescriptor_armed quiet]
    simp [SetupReq.IgnoredByDevice, get]
  rw [if_neg get]
  by_cases address : req.bRequest = 0x05
  · rw [if_pos address]
    exact other _ address (by decide) (by decide) (by decide) setAddress_armed
  rw [if_neg address]
  by_cases config : req.bRequest = 0x09
  · rw [if_pos config]
    exact other _ config (by decide) (by decide) (by decide) setConfig_armed
  rw [if_neg config]
  by_cases getConfig : req.bRequest = 0x08
  · rw [if_pos getConfig]
    exact other _ getConfig (by decide) (by decide) (by decide) getConfig_armed
  rw [if_neg getConfig]
  by_cases status : req.bRequest = 0x00
  · rw [if_pos status]
    exact other _ status (by decide) (by decide) (by decide) getStatus_armed
  rw [if_neg status]
  by_cases set : req.bRequest = 0x03
  · rw [if_pos set, setFeature_armed quiet]
    simp [SetupReq.IgnoredByDevice, set]
  rw [if_neg set]
  by_cases clear : req.bRequest = 0x01
  · rw [if_pos clear, clrFeature_armed quiet]
    simp [SetupReq.IgnoredByDevice, clear]
  · rw [if_neg clear]
    simp [SetupReq.IgnoredByDevice, get, set, clear, ctlError_armed]

theorem stdItfReq_armed (quiet : ¬ s.Armed) (there : .badAccess ∉ (s.stdItfReq req).2) :
    ¬ (s.stdItfReq req).1.Armed ↔ req.IgnoredByInterface s.devState := by
  unfold UsbDevice.stdItfReq at there ⊢
  unfold SetupReq.IgnoredByInterface
  cases state : s.devState with
  | configured =>
      rw [state] at there
      dsimp only at there ⊢
      by_cases index : req.wIndex % 2 ^ 8 ≤ 1
      · rw [if_pos index] at there ⊢
        dsimp only at there ⊢
        rw [cdcSetup_badAccess] at there
        by_cases none : req.wLength = 0
        · rw [if_pos none]
          simp [ctlSendStatus_armed, none]
        · rw [if_neg none, cdcSetup_armed quiet]
          simp only [SetupReq.OfClass] at there ⊢
          tauto
      · rw [if_neg index]
        exact iff_of_false (not_not.mpr ctlError_armed) fun ignored => index ignored.2.1
  | default => simp [ctlError_armed]
  | addressed => simp [ctlError_armed]
  | suspended => simp [ctlError_armed]

theorem stdEPReq_armed (quiet : ¬ s.Armed) (there : .badAccess ∉ (s.stdEPReq req).2) :
    ¬ (s.stdEPReq req).1.Armed ↔ req.IgnoredByEndpoint s.devState := by
  rw [stdEPReq_badAccess] at there
  have stall (halt : UInt8 → Prop) [DecidablePred halt] (other : ∀ ep, halt ep → ep ≠ 0x80 ∧ ep ≠ 0)
      (ep : UInt8) : ¬ (if halt ep then s.stallEP ep else s).Armed := by
    split
    · rename_i halts
      rw [stallEP_armed (other ep halts).1 (other ep halts).2]
      exact quiet
    · exact quiet
  unfold UsbDevice.stdEPReq
  dsimp only
  by_cases type : req.bmRequest &&& 0x60 = 0x20
  · have ignored : req.IgnoredByEndpoint s.devState ↔ req.wLength = 0 := by
      simp [SetupReq.IgnoredByEndpoint, type]
    have standard : ¬ (req.bmRequest &&& 0x60 = 0) := by
      rw [type]
      decide
    rw [if_pos type, cdcSetup_armed quiet, ignored]
    simp only [SetupReq.OfClass] at there ⊢
    tauto
  rw [if_neg type]
  by_cases set : req.bRequest = 0x03
  · have ignored : req.IgnoredByEndpoint s.devState ↔ s.devState = .addressed := by
      simp [SetupReq.IgnoredByEndpoint, type, set]
    rw [if_pos set, ignored]
    cases s.devState with
    | addressed =>
        exact iff_of_true (stall (fun ep => ep ≠ 0 ∧ ep ≠ 0x80) (fun ep => And.symm) _) rfl
    | configured => simp [ctlSendStatus_armed]
    | default => simp [ctlError_armed]
    | suspended => simp [ctlError_armed]
  rw [if_neg set]
  by_cases clear : req.bRequest = 0x01
  · have ignored : req.IgnoredByEndpoint s.devState ↔
        s.devState = .addressed ∨ s.devState = .configured ∧ req.wValue ≠ 0 := by
      simp [SetupReq.IgnoredByEndpoint, type, clear]
    rw [if_pos clear, ignored]
    cases s.devState with
    | addressed =>
        exact iff_of_true (stall (fun ep => ep ≠ 0 ∧ ep ≠ 0x80) (fun ep => And.symm) _) (.inl rfl)
    | configured =>
        dsimp only
        by_cases halt : req.wValue = 0
        · rw [if_pos halt]
          split
          · simp [ctlSendStatus_armed, halt]
          · simp [ctlSendStatus_armed, halt]
        · rw [if_neg halt]
          exact iff_of_true quiet (.inr ⟨rfl, halt⟩)
    | default => simp [ctlError_armed]
    | suspended => simp [ctlError_armed]
  rw [if_neg clear]
  by_cases status : req.bRequest = 0x00
  · have ignored : req.IgnoredByEndpoint s.devState ↔ s.devState = .addressed := by
      simp [SetupReq.IgnoredByEndpoint, type, status]
    rw [if_pos status, ignored]
    cases s.devState with
    | addressed =>
        refine iff_of_true (stall (fun ep => ep &&& 0x7F ≠ 0) ?_ _) rfl
        intro ep halts
        refine ⟨?_, ?_⟩
        · rintro rfl
          exact halts (by decide)
        · rintro rfl
          exact halts (by decide)
    | configured => simp [ctlSendBytes_armed]
    | default => simp [ctlError_armed]
    | suspended => simp [ctlError_armed]
  · have ignored : req.IgnoredByEndpoint s.devState := by
      simp [SetupReq.IgnoredByEndpoint, type, set, clear, status]
    rw [if_neg status]
    exact iff_of_true quiet ignored

end OlympusFirmware.Usb

import OlympusFirmware.Usb.Control

/-!
# When the class data is there

The class data is allocated when the device is configured and freed when it no longer is. The
class driver follows `pClassData` without looking at it, and so does `USBD_CDC_SetTxBuffer`; that
the class data is there is left to the state of the device. It is, for what is addressed to an
interface and for data; it is not for a class request to an endpoint, or to the device under a
request for remote wakeup, and when the main loop writes to a device that is not configured.

What endpoint 0 does with a SETUP packet is known from the request and the state: for some
requests nothing at all is armed, and the host waits in vain.
-/

namespace OlympusFirmware.Usb

open OlympusFirmware.Lib

/-- There is memory for the class data, and the bus resumes only after it was suspended. -/
def ControlEvent.Orderly (s : UsbDevice) : ControlEvent → Prop
  | .setup _ malloc => malloc ≠ none
  | .resume => s.devState = .suspended
  | _ => True

/-- A request of the class with data. -/
def SetupReq.OfClass (req : SetupReq) : Prop :=
  req.bmRequest &&& 0x60 = 0x20 ∧ req.wLength ≠ 0

/-- The requests that come to the class driver in any state, or before the device is
configured. -/
def SetupReq.Unguarded (req : SetupReq) (devState : DevState) : Prop :=
  req.bmRequest &&& 0x1F = 2 ∨
    req.bmRequest &&& 0x1F = 0 ∧ req.wValue = 1 ∧
      (req.bRequest = 0x03 ∨ req.bRequest = 0x01 ∧ devState = .addressed)

/-- What follows a null pointer: without class data, such a request or a write of the main loop;
and data where the status packet is due, for which `xfer_buff` is `NULL`. -/
def Exposed (s : UsbDevice) : ControlEvent → Prop
  | .setup pdata _ => s.classData = none ∧ (parseSetupRequest pdata).OfClass ∧
      (parseSetupRequest pdata).Unguarded s.devState
  | .outPacket bytes _ => bytes ≠ [] ∧ s.stallOut = false ∧ s.receive = some none
  | .usbWrite => s.classData = none
  | _ => False

/-- A configured device has its class data, also when it is suspended, and so has one that
receives data for the class. -/
structure ClassInv (s : UsbDevice) : Prop where
  configured : s.devState = .configured → s.classData ≠ none
  suspended : s.devState = .suspended → s.devOldState = .configured → s.classData ≠ none
  receive : ∀ at_, s.receive = some (some at_) → s.classData ≠ none

section Steps

variable {s : UsbDevice} {req : SetupReq} {desc : UsbDescriptors}

/-- **The class driver** finds no class data exactly when a request of the class has data. -/
theorem cdcSetup_badAccess :
    .badAccess ∈ (s.cdcSetup req).2 ↔ req.OfClass ∧ s.classData = none := by
  unfold UsbDevice.cdcSetup SetupReq.OfClass
  by_cases type : req.bmRequest &&& 0x60 = 0x20
  · by_cases some : req.wLength ≠ 0
    · cases s.classData with
      | none => simp [type, some]
      | some hcdc =>
          by_cases dir : req.bmRequest &&& 0x80 ≠ 0
          · simp [type, some, dir]
          · simp [type, some, dir]
    · simp [type, some]
  · by_cases interface : req.bmRequest &&& 0x60 = 0 ∧ req.bRequest = 0x0A
    · simp [interface]
    · simp [type, interface]

theorem stdDevReq_badAccess {malloc : Option (Mem UInt8)}
    (configured : s.devState = .configured → s.classData ≠ none) :
    .badAccess ∈ (s.stdDevReq desc req malloc).2 ↔ s.classData = none ∧ req.OfClass ∧
      req.wValue = 1 ∧ (req.bRequest = 0x03 ∨ req.bRequest = 0x01 ∧ s.devState = .addressed) := by
  have other (value : UInt8) (is : req.bRequest = value) (set : value ≠ 0x03)
      (clear : value ≠ 0x01) {s' : UsbDevice} :
      ControlOutput.badAccess ∈ (s', ([] : List ControlOutput)).2 ↔
        s.classData = none ∧ req.OfClass ∧ req.wValue = 1 ∧
          (req.bRequest = 0x03 ∨ req.bRequest = 0x01 ∧ s.devState = .addressed) := by
    rw [is]
    simp [set, clear]
  unfold UsbDevice.stdDevReq
  by_cases get : req.bRequest = 0x06
  · rw [if_pos get]
    exact other _ get (by decide) (by decide)
  rw [if_neg get]
  by_cases address : req.bRequest = 0x05
  · rw [if_pos address]
    exact other _ address (by decide) (by decide)
  rw [if_neg address]
  by_cases config : req.bRequest = 0x09
  · rw [if_pos config]
    exact other _ config (by decide) (by decide)
  rw [if_neg config]
  by_cases getConfig : req.bRequest = 0x08
  · rw [if_pos getConfig]
    exact other _ getConfig (by decide) (by decide)
  rw [if_neg getConfig]
  by_cases status : req.bRequest = 0x00
  · rw [if_pos status]
    exact other _ status (by decide) (by decide)
  rw [if_neg status]
  by_cases set : req.bRequest = 0x03
  · rw [if_pos set]
    unfold UsbDevice.setFeature
    by_cases wakeup : req.wValue = 1
    · rw [if_pos wakeup]
      dsimp only
      rw [cdcSetup_badAccess]
      simp [set, wakeup, and_comm]
    · simp [wakeup]
  rw [if_neg set]
  by_cases clear : req.bRequest = 0x01
  · rw [if_pos clear]
    unfold UsbDevice.clrFeature
    cases state : s.devState with
    | addressed =>
        dsimp only
        by_cases wakeup : req.wValue = 1
        · rw [if_pos wakeup]
          dsimp only
          rw [cdcSetup_badAccess]
          simp [clear, wakeup, and_comm]
        · simp [wakeup]
    | configured =>
        dsimp only
        have there := configured state
        by_cases wakeup : req.wValue = 1
        · rw [if_pos wakeup]
          dsimp only
          rw [cdcSetup_badAccess]
          simp [there]
        · simp [wakeup]
    | default => simp [clear]
    | suspended => simp [clear]
  · rw [if_neg clear]
    simp [set, clear]

theorem stdItfReq_badAccess (configured : s.devState = .configured → s.classData ≠ none) :
    .badAccess ∉ (s.stdItfReq req).2 := by
  unfold UsbDevice.stdItfReq
  cases state : s.devState with
  | configured =>
      dsimp only
      split
      · rw [cdcSetup_badAccess]
        exact fun bad => configured state bad.2
      · exact List.not_mem_nil
  | default => exact List.not_mem_nil
  | addressed => exact List.not_mem_nil
  | suspended => exact List.not_mem_nil

theorem stdEPReq_badAccess :
    .badAccess ∈ (s.stdEPReq req).2 ↔ s.classData = none ∧ req.OfClass := by
  unfold UsbDevice.stdEPReq
  dsimp only
  by_cases type : req.bmRequest &&& 0x60 = 0x20
  · rw [if_pos type, cdcSetup_badAccess, and_comm]
  · have not : ¬ req.OfClass := fun class_ => type class_.1
    have quiet (s : UsbDevice) : ControlOutput.badAccess ∉ (s.cdcSetup req).2 := by
      rw [cdcSetup_badAccess]
      exact fun bad => not bad.1
    rw [if_neg type]
    simp only [not, and_false, iff_false]
    split
    · split
      · exact List.not_mem_nil
      · exact quiet _
      · exact List.not_mem_nil
      · exact List.not_mem_nil
    · split
      · split
        · exact List.not_mem_nil
        · split
          · split
            · exact quiet _
            · exact List.not_mem_nil
          · exact List.not_mem_nil
        · exact List.not_mem_nil
        · exact List.not_mem_nil
      · split
        · split
          · exact List.not_mem_nil
          · exact List.not_mem_nil
          · exact List.not_mem_nil
          · exact List.not_mem_nil
        · exact List.not_mem_nil

/-! ## What keeps the class data -/

/-- The state and the class data stay, and data for the class is received only where the class
data is there. -/
structure ClassKept (s s' : UsbDevice) : Prop where
  devState : s'.devState = s.devState
  devOldState : s'.devOldState = s.devOldState
  classData : s'.classData = none ↔ s.classData = none
  receive : ∀ at_, s'.receive = some (some at_) →
    s.receive = some (some at_) ∨ s.classData ≠ none

theorem ClassKept.refl (s : UsbDevice) : ClassKept s s :=
  ⟨rfl, rfl, Iff.rfl, fun _ => .inl⟩

theorem ClassKept.trans {s' s'' : UsbDevice} (first : ClassKept s s') (then_ : ClassKept s' s'') :
    ClassKept s s'' := by
  refine ⟨then_.devState.trans first.devState, then_.devOldState.trans first.devOldState,
    then_.classData.trans first.classData, ?_⟩
  intro at_ receive
  rcases then_.receive at_ receive with before | there
  · exact first.receive at_ before
  · exact .inr fun none => there (first.classData.mpr none)

theorem ClassInv.kept {s' : UsbDevice} (inv : ClassInv s) (kept : ClassKept s s') :
    ClassInv s' := by
  refine ⟨?_, ?_, ?_⟩
  · rw [kept.devState, ne_eq, kept.classData]
    exact inv.configured
  · rw [kept.devState, kept.devOldState, ne_eq, kept.classData]
    exact inv.suspended
  · intro at_ receive
    rw [ne_eq, kept.classData]
    rcases kept.receive at_ receive with before | there
    · exact inv.receive at_ before
    · exact there

theorem ctlSendStatus_kept : ClassKept s s.ctlSendStatus := ⟨rfl, rfl, Iff.rfl, fun _ => .inl⟩

theorem ctlSendBytes_kept (bytes : List UInt8) : ClassKept s (s.ctlSendBytes bytes) :=
  ⟨rfl, rfl, Iff.rfl, fun _ => .inl⟩

theorem ctlError_kept : ClassKept s s.ctlError := ⟨rfl, rfl, Iff.rfl, fun _ => .inl⟩

theorem stallEP_kept (ep : UInt8) : ClassKept s (s.stallEP ep) :=
  ⟨rfl, rfl, Iff.rfl, fun _ => .inl⟩

theorem cdcSetup_kept : ClassKept s (s.cdcSetup req).1 := by
  unfold UsbDevice.cdcSetup
  split
  · split
    · cases classData : s.classData with
      | none => exact .refl s
      | some hcdc =>
          have there : s.classData ≠ none := by
            rw [classData]
            exact Option.some_ne_none hcdc
          dsimp only
          split
          · exact ⟨rfl, rfl, Iff.rfl, fun _ => .inl⟩
          · exact ⟨rfl, rfl, ⟨fun none => (by cases none), fun none => absurd none there⟩,
              fun _ _ => .inr there⟩
    · exact .refl s
  · split
    · exact ctlSendBytes_kept _
    · exact .refl s

theorem stdItfReq_kept : ClassKept s (s.stdItfReq req).1 := by
  unfold UsbDevice.stdItfReq
  split
  · split
    · dsimp only
      split
      · exact cdcSetup_kept.trans ctlSendStatus_kept
      · exact cdcSetup_kept
    · exact ctlError_kept
  · exact ctlError_kept
  · exact ctlError_kept
  · exact ctlError_kept

theorem stdEPReq_kept : ClassKept s (s.stdEPReq req).1 := by
  unfold UsbDevice.stdEPReq
  dsimp only
  split
  · exact cdcSetup_kept
  · split
    · split
      · split
        · exact stallEP_kept _
        · exact .refl s
      · dsimp only
        refine ClassKept.trans ?_ (cdcSetup_kept.trans ctlSendStatus_kept)
        split
        · exact stallEP_kept _
        · exact .refl s
      · exact ctlError_kept
      · exact ctlError_kept
    · split
      · split
        · split
          · exact stallEP_kept _
          · exact .refl s
        · split
          · split
            · have cleared : ClassKept s (s.clearStallEP (UInt8.ofNat req.wIndex)) :=
                ⟨rfl, rfl, Iff.rfl, fun _ => .inl⟩
              exact cleared.trans (cdcSetup_kept.trans ctlSendStatus_kept)
            · exact ctlSendStatus_kept
          · exact .refl s
        · exact ctlError_kept
        · exact ctlError_kept
      · split
        · split
          · split
            · exact stallEP_kept _
            · exact .refl s
          · exact ctlSendBytes_kept _
          · exact ctlError_kept
          · exact ctlError_kept
        · exact .refl s

theorem getDescriptor_kept : ClassKept s (s.getDescriptor desc req) := by
  unfold UsbDevice.getDescriptor
  split
  · exact ctlError_kept
  · split
    · exact ⟨rfl, rfl, Iff.rfl, fun _ => .inl⟩
    · exact .refl s

theorem getConfig_kept : ClassKept s (s.getConfig req) := by
  unfold UsbDevice.getConfig
  split
  · exact ctlError_kept
  · split
    · exact ctlSendBytes_kept _
    · exact ctlSendBytes_kept _
    · exact ctlError_kept
    · exact ctlError_kept

theorem getStatus_kept : ClassKept s s.getStatus := by
  unfold UsbDevice.getStatus
  split
  · exact ctlSendBytes_kept _
  · exact ctlSendBytes_kept _
  · exact ctlError_kept
  · exact ctlError_kept

/-- A request for remote wakeup. -/
theorem wakeup_kept (wakeup : Bool) :
    ClassKept s (({ s with devRemoteWakeup := wakeup }.cdcSetup req).1.ctlSendStatus) := by
  have set : ClassKept s { s with devRemoteWakeup := wakeup } := ⟨rfl, rfl, Iff.rfl, fun _ => .inl⟩
  exact set.trans (cdcSetup_kept.trans ctlSendStatus_kept)

theorem setFeature_kept : ClassKept s (s.setFeature req).1 := by
  unfold UsbDevice.setFeature
  split
  · exact wakeup_kept true
  · exact .refl s

theorem clrFeature_kept : ClassKept s (s.clrFeature req).1 := by
  unfold UsbDevice.clrFeature
  split
  · split
    · exact wakeup_kept false
    · exact .refl s
  · split
    · exact wakeup_kept false
    · exact .refl s
  · exact ctlError_kept
  · exact ctlError_kept

/-- An address does not make a device configured. -/
theorem ClassInv.setAddress (inv : ClassInv s) : ClassInv (s.setAddress req) := by
  unfold UsbDevice.setAddress
  split
  · split
    · exact inv.kept ctlError_kept
    · refine ⟨?_, ?_, inv.receive⟩
      · intro configured
        have now : (if req.wValue % 2 ^ 7 ≠ 0 then DevState.addressed else .default) =
          .configured := configured
        split at now
        · cases now
        · cases now
      · intro suspended
        have now : (if req.wValue % 2 ^ 7 ≠ 0 then DevState.addressed else .default) =
          .suspended := suspended
        split at now
        · cases now
        · cases now
  · exact inv.kept ctlError_kept

/-- **The class data is there** as soon as the device is configured, and as long. -/
theorem ClassInv.setConfig (inv : ClassInv s) {malloc : Option (Mem UInt8)}
    (memory : malloc ≠ none) (quiet : s.receive = none) : ClassInv (s.setConfig req malloc) := by
  obtain ⟨hcdc, rfl⟩ := Option.ne_none_iff_exists'.mp memory
  have there {s' : UsbDevice} (classData : s'.classData = some hcdc) : ClassInv s' := by
    have some : s'.classData ≠ none := by
      rw [classData]
      exact Option.some_ne_none hcdc
    exact ⟨fun _ => some, fun _ _ => some, fun _ _ => some⟩
  unfold UsbDevice.setConfig
  dsimp only
  split
  · exact inv.kept ctlError_kept
  · split
    · split
      · exact there rfl
      · exact inv.kept ctlSendStatus_kept
    · split
      · refine ⟨fun now => (by cases now), fun now => (by cases now), ?_⟩
        intro at_ receive
        rw [show s.receive = some (some at_) from receive] at quiet
        cases quiet
      · split
        · exact there rfl
        · exact inv.kept ctlSendStatus_kept
    · exact inv.kept ctlError_kept
    · exact inv.kept ctlError_kept

theorem ClassInv.stdDevReq (inv : ClassInv s) {malloc : Option (Mem UInt8)}
    (memory : malloc ≠ none) (quiet : s.receive = none) :
    ClassInv (s.stdDevReq desc req malloc).1 := by
  unfold UsbDevice.stdDevReq
  split
  · exact inv.kept getDescriptor_kept
  split
  · exact inv.setAddress
  split
  · exact inv.setConfig memory quiet
  split
  · exact inv.kept getConfig_kept
  split
  · exact inv.kept getStatus_kept
  split
  · exact inv.kept setFeature_kept
  split
  · exact inv.kept clrFeature_kept
  · exact inv.kept ctlError_kept

/-- **A request.** -/
theorem ClassInv.setupPacket (inv : ClassInv s) {pdata : List UInt8}
    {malloc : Option (Mem UInt8)} (memory : malloc ≠ none) :
    ClassInv (s.setupPacket desc (parseSetupRequest pdata) malloc).1 ∧
      (.badAccess ∈ (s.setupPacket desc (parseSetupRequest pdata) malloc).2 ↔
        Exposed s (.setup pdata malloc)) := by
  dsimp only [Exposed]
  generalize parseSetupRequest pdata = req
  unfold UsbDevice.setupPacket UsbDevice.setupStage SetupReq.Unguarded
  dsimp only
  generalize is : ({ s with
    transmit := none, receive := none, stallIn := false, stallOut := false
    ep0State := .setup, ep0DataLen := req.wLength } : UsbDevice) = quiet
  have kept : ClassInv quiet := by
    subst is
    exact ⟨inv.configured, inv.suspended, fun at_ none => (by cases none)⟩
  have none : quiet.receive = none := by
    subst is
    rfl
  have classData : quiet.classData = s.classData := by
    subst is
    rfl
  have devState : quiet.devState = s.devState := by
    subst is
    rfl
  rw [← classData, ← devState]
  by_cases device : req.bmRequest &&& 0x1F = 0
  · rw [if_pos device, stdDevReq_badAccess kept.configured, device]
    exact ⟨kept.stdDevReq memory none, by simp⟩
  rw [if_neg device]
  by_cases interface : req.bmRequest &&& 0x1F = 1
  · rw [if_pos interface, interface]
    exact ⟨kept.kept stdItfReq_kept, by simp [stdItfReq_badAccess kept.configured]⟩
  rw [if_neg interface]
  by_cases endpoint : req.bmRequest &&& 0x1F = 2
  · rw [if_pos endpoint, stdEPReq_badAccess, endpoint]
    exact ⟨kept.kept stdEPReq_kept, by simp⟩
  · rw [if_neg endpoint]
    exact ⟨kept.kept (stallEP_kept _), by simp [device, endpoint]⟩

/-- **An IN token.** -/
theorem ClassInv.inToken (inv : ClassInv s) :
    ClassInv s.inToken.1 ∧ .badAccess ∉ s.inToken.2 := by
  have stage {s : UsbDevice} {pdata : Mem UInt8} : ClassKept s (s.dataInStage pdata) := by
    unfold UsbDevice.dataInStage
    split
    · split
      · exact ⟨rfl, rfl, Iff.rfl, fun at_ none => (by cases none)⟩
      · split
        · exact ⟨rfl, rfl, Iff.rfl, fun at_ none => (by cases none)⟩
        · exact ⟨rfl, rfl, Iff.rfl, fun at_ none => (by cases none)⟩
    · exact .refl s
  unfold UsbDevice.inToken
  split
  · exact ⟨inv, by simp⟩
  · split
    · exact ⟨inv, by simp⟩
    · have sent : ClassKept s { s with transmit := none } := ⟨rfl, rfl, Iff.rfl, fun _ => .inl⟩
      exact ⟨inv.kept (sent.trans stage), by simp⟩

/-- Data for the class is there when it has come in. -/
theorem dataOutStage_kept (pdata : Option Nat)
    (configured : s.devState = .configured → s.classData ≠ none)
    (place : ∀ at_, pdata = some at_ → s.classData ≠ none) :
    ClassKept s (s.dataOutStage pdata).1 ∧ .badAccess ∉ (s.dataOutStage pdata).2 := by
  unfold UsbDevice.dataOutStage
  split
  · split
    · refine ⟨⟨rfl, rfl, Iff.rfl, ?_⟩, List.not_mem_nil⟩
      intro at_ receive
      exact .inr (place at_ (Option.some.inj receive))
    · have ready : ClassKept s (if s.devState = .configured then s.cdcRxReady else (s, [])).1 ∧
          .badAccess ∉ (if s.devState = .configured then s.cdcRxReady else (s, [])).2 := by
        split
        · rename_i now
          obtain ⟨hcdc, classData⟩ := Option.ne_none_iff_exists'.mp (configured now)
          unfold UsbDevice.cdcRxReady
          rw [classData]
          dsimp only
          split
          · refine ⟨⟨rfl, rfl, ⟨fun none => (by cases none), ?_⟩, fun _ => .inl⟩, by simp⟩
            intro none
            rw [classData] at none
            cases none
          · exact ⟨.refl s, List.not_mem_nil⟩
        · exact ⟨.refl s, List.not_mem_nil⟩
      exact ⟨ready.1.trans ctlSendStatus_kept, ready.2⟩
  · exact ⟨.refl s, List.not_mem_nil⟩

/-- **An OUT packet.** -/
theorem ClassInv.outPacket (inv : ClassInv s) {bytes padding : List UInt8} :
    ClassInv (s.outPacket bytes padding).1 ∧
      (.badAccess ∈ (s.outPacket bytes padding).2 ↔ Exposed s (.outPacket bytes padding)) := by
  dsimp only [Exposed]
  unfold UsbDevice.outPacket
  by_cases stalled : s.stallOut = true
  · rw [if_pos stalled]
    exact ⟨inv, by simp [stalled]⟩
  rw [if_neg stalled]
  cases receive : s.receive with
  | none => exact ⟨inv, by simp⟩
  | some pbuf =>
      have taken : ClassInv { s with receive := none } :=
        ⟨inv.configured, inv.suspended, fun at_ none => (by cases none)⟩
      have place (at_ : Nat) (is : pbuf = some at_) : s.classData ≠ none :=
        inv.receive at_ (is ▸ receive)
      dsimp only
      by_cases empty : bytes = []
      · rw [if_pos empty]
        obtain ⟨kept, good⟩ := dataOutStage_kept (s := { s with receive := none }) pbuf
          inv.configured place
        exact ⟨taken.kept kept, by simp [good, empty]⟩
      · rw [if_neg empty]
        cases pbuf with
        | none => exact ⟨taken, by simp [empty, Bool.not_eq_true _ ▸ stalled]⟩
        | some at_ =>
            obtain ⟨hcdc, classData⟩ := Option.ne_none_iff_exists'.mp (place at_ rfl)
            rw [classData]
            dsimp only
            generalize is : ({ s with
              receive := none
              classData := some (hcdc.store at_
                (bytes ++ padding.take ((4 - bytes.length % 4) % 4))) } : UsbDevice) = stored
            have there : stored.classData ≠ none := by
              subst is
              exact Option.some_ne_none _
            have inv' : ClassInv stored :=
              ⟨fun _ => there, fun _ _ => there, fun _ _ => there⟩
            obtain ⟨kept, good⟩ := dataOutStage_kept (some (at_ + bytes.length))
              (fun _ => there) fun _ _ => there
            exact ⟨inv'.kept kept, by simp [good]⟩

/-- **One event.** -/
theorem ClassInv.step (inv : ClassInv s) {e : ControlEvent} (orderly : e.Orderly s) :
    ClassInv (controlStep desc s e).1 ∧
      (.badAccess ∈ (controlStep desc s e).2 ↔ Exposed s e) := by
  cases e with
  | setup pdata malloc => exact inv.setupPacket orderly
  | inToken => exact ⟨inv.inToken.1, iff_of_false inv.inToken.2 id⟩
  | outPacket bytes padding => exact inv.outPacket
  | reset =>
      refine ⟨⟨fun now => (by cases now), fun now => (by cases now), ?_⟩,
        iff_of_false List.not_mem_nil id⟩
      exact fun at_ none => (by cases none)
  | suspend =>
      refine ⟨⟨fun now => (by cases now), fun _ => inv.configured, inv.receive⟩,
        iff_of_false List.not_mem_nil id⟩
  | resume =>
      refine ⟨⟨inv.suspended orderly, ?_, inv.receive⟩, iff_of_false List.not_mem_nil id⟩
      intro suspended configured
      have old : s.devOldState = .suspended := suspended
      have other : s.devOldState = .configured := configured
      rw [old] at other
      cases other
  | disconnect =>
      refine ⟨⟨fun now => (by cases now), fun now => (by cases now), ?_⟩,
        iff_of_false List.not_mem_nil id⟩
      exact fun at_ none => (by cases none)
  | dataOut =>
      refine ⟨inv, iff_of_false ?_ id⟩
      dsimp only [controlStep]
      rw [if_neg]
      · exact List.not_mem_nil
      · rintro ⟨configured, none⟩
        exact inv.configured configured (Option.isNone_iff_eq_none.mp none)
  | usbWrite =>
      refine ⟨inv, ?_⟩
      dsimp only [controlStep, Exposed]
      rw [← Option.isNone_iff_eq_none]
      split
      · rename_i none
        simp [none]
      · rename_i there
        simp [there]

end Steps

end OlympusFirmware.Usb

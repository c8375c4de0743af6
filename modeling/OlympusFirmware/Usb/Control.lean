import Mathlib.Algebra.Group.Nat.Defs
import OlympusFirmware.Lib.Fsm
import OlympusFirmware.Lib.Mem

/-!
# The USB control endpoint (`peripherals/USB/usbd_core.c`, `usbd_ctlreq.c`, `usbd_ioreq.c`)

A SETUP packet is a request; it is answered on endpoint 0 with data, with a packet of no bytes,
with STALL, or by taking data. The class driver (`usbd_cdc.c`) comes in where a request is for
it. Endpoint 0 has packets of at most 64 bytes: `USB_EP0StartXfer` cuts each transfer to one
packet, and the end of a packet starts the next (`USBD_LL_DataInStage`,
`USBD_LL_DataOutStage`).

The device runs at full speed. A pointer to data to be sent is the memory from it on; one to
where data is received is an offset into the class data, `none` being NULL. The class data is
allocated when the device is configured: its `data` comes first, then `CmdOpCode` and
`CmdLength`. A host reads what it asked for before it sends the next request.
-/

namespace OlympusFirmware.Usb

open OlympusFirmware.Lib

/-- `USBD_STATE_DEFAULT` and so on. -/
inductive DevState
  | default
  | addressed
  | configured
  | suspended
deriving DecidableEq

/-- `ep0_state`, as far as it is used. -/
inductive Ep0State
  | idle
  | setup
  | dataIn
  | dataOut
  | statusIn
  | statusOut
deriving DecidableEq

/-- `USBD_SetupReqTypedef`. -/
structure SetupReq where
  bmRequest : UInt8
  bRequest : UInt8
  wValue : Nat
  wIndex : Nat
  wLength : Nat
deriving DecidableEq

/-- `USBD_DescriptorsTypeDef` and the configuration descriptor of the class. -/
structure UsbDescriptors where
  device : List UInt8
  configuration : List UInt8
  langId : List UInt8
  manufacturer : List UInt8
  product : List UInt8
  serial : List UInt8
  configStr : List UInt8
  interfaceStr : List UInt8

/-- `USBD_GetString`, for strings of at most 126 characters. -/
def getString (desc : List UInt8) : List UInt8 :=
  UInt8.ofNat (desc.length * 2 + 2) :: 3 :: desc.flatMap fun c => [c, 0]

/-- `VCP_Desc` and `USBD_CDC_CfgFSDesc`. The product is "IGVC USB ComPort" or, of a bootloader,
"IGVC USB Bootloader"; the serial number is made from the identifier of the chip. -/
def vcpDesc (product serial : List UInt8) : UsbDescriptors where
  device :=
    [0x12, 1, 0x00, 0x02, 0x00, 0x00, 0x00, 64, 0x83, 0x04, 0x40, 0x57, 0x00, 0x02, 1, 2, 3, 1]
  configuration :=
    [0x09, 2, 67, 0x00, 0x02, 0x01, 0x00, 0xC0, 0x32,
      -- the interface for commands, its functional descriptors and its endpoint
      0x09, 4, 0x00, 0x00, 0x01, 0x02, 0x02, 0x01, 0x00,
      0x05, 0x24, 0x00, 0x10, 0x01,
      0x05, 0x24, 0x01, 0x00, 0x01,
      0x04, 0x24, 0x02, 0x02,
      0x05, 0x24, 0x06, 0x00, 0x01,
      0x07, 5, 0x82, 0x03, 8, 0, 0x10,
      -- the interface for data and its endpoints
      0x09, 4, 0x01, 0x00, 0x02, 0x0A, 0x00, 0x00, 0x00,
      0x07, 5, 0x01, 0x02, 0x40, 0x00, 0x00,
      0x07, 5, 0x81, 0x02, 0x40, 0x00, 0x00]
  langId := [4, 3, 0x09, 0x04]
  -- "IGVC", "VCP Config" and "VCP Interface"
  manufacturer := getString [73, 71, 86, 67]
  product := getString product
  serial := serial
  configStr := getString [86, 67, 80, 32, 67, 111, 110, 102, 105, 103]
  interfaceStr := getString [86, 67, 80, 32, 73, 110, 116, 101, 114, 102, 97, 99, 101]

/-- `USBD_HandleTypeDef`, with what endpoint 0 sends next and how much, where it receives, and
whether it is stalled. -/
structure UsbDevice where
  devState : DevState
  devOldState : DevState
  devAddress : Nat
  devConfig : Nat
  devRemoteWakeup : Bool
  isStall : UInt8 → Bool
  ep0State : Ep0State
  ep0DataLen : Nat
  inTotal : Nat
  inRem : Nat
  outRem : Nat
  classData : Option (Mem UInt8)
  transmit : Option (Mem UInt8 × Nat)
  receive : Option (Option Nat)
  stallIn : Bool
  stallOut : Bool

/-- A packet of the host on endpoint 0 (words are written, so bytes behind the packet come
with it), a token of it, an event of the bus, data on endpoint 1, or a call of `usbWrite`.
`malloc` gives a block of some content, or none. -/
inductive ControlEvent
  | setup (pdata : List UInt8) (malloc : Option (Mem UInt8))
  | inToken
  | outPacket (bytes padding : List UInt8)
  | reset
  | suspend
  | resume
  | disconnect
  | dataOut
  | usbWrite

/-- What the host sees, a call of `CDC_Control`, or an access to class data that is not
there. -/
inductive ControlOutput
  | packet (bytes : List UInt8)
  | ack
  | nak
  | stall
  | control (cmd : UInt8) (data : List UInt8)
  | badAccess
deriving DecidableEq

/-- `USB_MAX_EP0_SIZE`. -/
def maxEp0Size : Nat := 64

/-- `sizeof` of `data` in `USBD_CDC_HandleTypeDef`: `CmdOpCode` is behind it. -/
def cdcDataSize : Nat := 512

/-- `SWAPBYTE`. -/
def swapByte (lo hi : UInt8) : Nat := lo.toNat + hi.toNat * 2 ^ 8

/-- `USBD_ParseSetupRequest`. -/
def parseSetupRequest (pdata : List UInt8) : SetupReq where
  bmRequest := pdata.getD 0 0
  bRequest := pdata.getD 1 0
  wValue := swapByte (pdata.getD 2 0) (pdata.getD 3 0)
  wIndex := swapByte (pdata.getD 4 0) (pdata.getD 5 0)
  wLength := swapByte (pdata.getD 6 0) (pdata.getD 7 0)

/-! ## `usbd_ioreq.c` -/

namespace UsbDevice

/-- `HAL_PCD_EP_Transmit` on endpoint 0. -/
def epTransmit (s : UsbDevice) (pbuf : Mem UInt8) (len : Nat) : UsbDevice :=
  { s with transmit := some (pbuf, min len maxEp0Size) }

/-- `HAL_PCD_EP_Receive` on endpoint 0. -/
def epReceive (s : UsbDevice) (pbuf : Option Nat) : UsbDevice := { s with receive := some pbuf }

/-- `USBD_CtlSendData`. -/
def ctlSendData (s : UsbDevice) (pbuf : Mem UInt8) (len : Nat) : UsbDevice :=
  { s with ep0State := .dataIn, inTotal := len, inRem := len }.epTransmit pbuf len

/-- `USBD_CtlSendData` of some bytes. -/
def ctlSendBytes (s : UsbDevice) (bytes : List UInt8) : UsbDevice :=
  s.ctlSendData (Mem.store (fun _ => 0) 0 bytes) bytes.length

/-- `USBD_CtlPrepareRx`. -/
def ctlPrepareRx (s : UsbDevice) (pbuf len : Nat) : UsbDevice :=
  { s with ep0State := .dataOut, outRem := len }.epReceive (some pbuf)

/-- `USBD_CtlSendStatus`. -/
def ctlSendStatus (s : UsbDevice) : UsbDevice :=
  { s with ep0State := .statusIn }.epTransmit (fun _ => 0) 0

/-- `USBD_CtlReceiveStatus`. -/
def ctlReceiveStatus (s : UsbDevice) : UsbDevice := { s with ep0State := .statusOut }.epReceive none

/-- `USBD_LL_StallEP`. -/
def stallEP (s : UsbDevice) (ep : UInt8) : UsbDevice :=
  { s with
    isStall := Function.update s.isStall ep true
    stallIn := s.stallIn || ep = 0x80
    stallOut := s.stallOut || ep = 0 }

/-- `USBD_CtlError`. -/
def ctlError (s : UsbDevice) : UsbDevice := (s.stallEP 0x80).stallEP 0

/-- `USBD_LL_ClearStallEP`, which is not called for endpoint 0. -/
def clearStallEP (s : UsbDevice) (ep : UInt8) : UsbDevice :=
  { s with isStall := Function.update s.isStall ep false }

/-! ## `usbd_cdc.c` -/

/-- `USBD_CDC_DeInit`. -/
def cdcDeInit (s : UsbDevice) : UsbDevice := { s with classData := none }

/-- `USBD_CDC_Setup`. -/
def cdcSetup (s : UsbDevice) (req : SetupReq) : UsbDevice × List ControlOutput :=
  if req.bmRequest &&& 0x60 = 0x20 then
    if req.wLength ≠ 0 then
      match s.classData with
      | none => (s, [.badAccess])
      | some hcdc =>
          if req.bmRequest &&& 0x80 ≠ 0 then
            (s.ctlSendData hcdc req.wLength,
              [.control req.bRequest (hcdc.load 0 req.wLength)])
          else
            -- `CmdLength` is an `uint8_t`
            ({ s with
              classData := some
                (hcdc.store cdcDataSize [req.bRequest, UInt8.ofNat req.wLength]) }.ctlPrepareRx
              0 req.wLength, [])
    else (s, [.control req.bRequest []])
  else if req.bmRequest &&& 0x60 = 0 ∧ req.bRequest = 0x0A then
    -- GET_INTERFACE; SET_INTERFACE does nothing
    (s.ctlSendBytes [0], [])
  else (s, [])

/-- `USBD_CDC_EP0_RxReady`. -/
def cdcRxReady (s : UsbDevice) : UsbDevice × List ControlOutput :=
  match s.classData with
  | none => (s, [.badAccess])
  | some hcdc =>
      if hcdc cdcDataSize ≠ 0xFF then
        ({ s with classData := some (hcdc.store cdcDataSize [0xFF]) },
          [.control (hcdc cdcDataSize) (hcdc.load 0 (hcdc (cdcDataSize + 1)).toNat)])
      else (s, [])

/-! ## `usbd_ctlreq.c` -/

/-- What `USBD_GetDescriptor` finds. -/
def findDescriptor (desc : UsbDescriptors) (wValue : Nat) : Option (List UInt8) :=
  match wValue / 2 ^ 8, wValue % 2 ^ 8 with
  | 1, _ => some desc.device
  | 2, _ => some desc.configuration
  | 3, 0 => some desc.langId
  | 3, 1 => some desc.manufacturer
  | 3, 2 => some desc.product
  | 3, 3 => some desc.serial
  | 3, 4 => some desc.configStr
  | 3, 5 => some desc.interfaceStr
  | _, _ => none

variable (desc : UsbDescriptors)

/-- `USBD_GetDescriptor`. -/
def getDescriptor (s : UsbDevice) (req : SetupReq) : UsbDevice :=
  match findDescriptor desc req.wValue with
  | none => s.ctlError
  | some bytes =>
      if bytes.length ≠ 0 ∧ req.wLength ≠ 0 then
        s.ctlSendData (Mem.store (fun _ => 0) 0 bytes) (min bytes.length req.wLength)
      else s

/-- `USBD_SetAddress`. -/
def setAddress (s : UsbDevice) (req : SetupReq) : UsbDevice :=
  if req.wIndex = 0 ∧ req.wLength = 0 then
    if s.devState = .configured then s.ctlError
    else
      let devAddr := req.wValue % 2 ^ 7
      { s with
        devAddress := devAddr
        devState := if devAddr ≠ 0 then .addressed else .default }.ctlSendStatus
  else s.ctlError

/-- `USBD_SetClassConfig` with `USBD_CDC_Init`, and what follows it. -/
def setClassConfig (s : UsbDevice) (malloc : Option (Mem UInt8)) : UsbDevice :=
  match malloc with
  | some hcdc => { s with classData := some hcdc }.ctlSendStatus
  | none => { s with classData := none }.ctlError

/-- `USBD_SetConfig`. -/
def setConfig (s : UsbDevice) (req : SetupReq) (malloc : Option (Mem UInt8)) : UsbDevice :=
  let cfgidx := req.wValue % 2 ^ 8
  if 1 < cfgidx then s.ctlError
  else
    match s.devState with
    | .addressed =>
        if cfgidx ≠ 0 then
          { s with devConfig := cfgidx, devState := .configured }.setClassConfig malloc
        else s.ctlSendStatus
    | .configured =>
        if cfgidx = 0 then
          { s with devState := .addressed, devConfig := cfgidx }.cdcDeInit.ctlSendStatus
        else if cfgidx ≠ s.devConfig then
          { s.cdcDeInit with devConfig := cfgidx }.setClassConfig malloc
        else s.ctlSendStatus
    | .default | .suspended => s.ctlError

/-- `USBD_GetConfig`. -/
def getConfig (s : UsbDevice) (req : SetupReq) : UsbDevice :=
  if req.wLength ≠ 1 then s.ctlError
  else
    match s.devState with
    | .addressed => s.ctlSendBytes [0]
    | .configured => s.ctlSendBytes [UInt8.ofNat s.devConfig]
    | .default | .suspended => s.ctlError

/-- `USBD_GetStatus`. The device is self powered. -/
def getStatus (s : UsbDevice) : UsbDevice :=
  match s.devState with
  | .addressed | .configured => s.ctlSendBytes [if s.devRemoteWakeup then 3 else 1, 0]
  | .default | .suspended => s.ctlError

/-- `USBD_SetFeature`. -/
def setFeature (s : UsbDevice) (req : SetupReq) : UsbDevice × List ControlOutput :=
  if req.wValue = 1 then
    let (s, out) := { s with devRemoteWakeup := true }.cdcSetup req
    (s.ctlSendStatus, out)
  else (s, [])

/-- `USBD_ClrFeature`. -/
def clrFeature (s : UsbDevice) (req : SetupReq) : UsbDevice × List ControlOutput :=
  match s.devState with
  | .addressed | .configured =>
      if req.wValue = 1 then
        let (s, out) := { s with devRemoteWakeup := false }.cdcSetup req
        (s.ctlSendStatus, out)
      else (s, [])
  | .default | .suspended => (s.ctlError, [])

/-- `USBD_StdDevReq`. It does not look at the type of the request. -/
def stdDevReq (s : UsbDevice) (req : SetupReq) (malloc : Option (Mem UInt8)) :
    UsbDevice × List ControlOutput :=
  if req.bRequest = 0x06 then (s.getDescriptor desc req, [])
  else if req.bRequest = 0x05 then (s.setAddress req, [])
  else if req.bRequest = 0x09 then (s.setConfig req malloc, [])
  else if req.bRequest = 0x08 then (s.getConfig req, [])
  else if req.bRequest = 0x00 then (s.getStatus, [])
  else if req.bRequest = 0x03 then s.setFeature req
  else if req.bRequest = 0x01 then s.clrFeature req
  else (s.ctlError, [])

/-- `USBD_StdItfReq`. -/
def stdItfReq (s : UsbDevice) (req : SetupReq) : UsbDevice × List ControlOutput :=
  match s.devState with
  | .configured =>
      -- the index may be `USBD_MAX_NUM_INTERFACES`
      if req.wIndex % 2 ^ 8 ≤ 1 then
        let (s, out) := s.cdcSetup req
        (if req.wLength = 0 then s.ctlSendStatus else s, out)
      else (s.ctlError, [])
  | .default | .addressed | .suspended => (s.ctlError, [])

/-- `USBD_StdEPReq`. -/
def stdEPReq (s : UsbDevice) (req : SetupReq) : UsbDevice × List ControlOutput :=
  let epAddr := UInt8.ofNat req.wIndex
  if req.bmRequest &&& 0x60 = 0x20 then s.cdcSetup req
  else if req.bRequest = 0x03 then
    match s.devState with
    | .addressed => (if epAddr ≠ 0 ∧ epAddr ≠ 0x80 then s.stallEP epAddr else s, [])
    | .configured =>
        let s := if req.wValue = 0 ∧ epAddr ≠ 0 ∧ epAddr ≠ 0x80 then s.stallEP epAddr else s
        let (s, out) := s.cdcSetup req
        (s.ctlSendStatus, out)
    | .default | .suspended => (s.ctlError, [])
  else if req.bRequest = 0x01 then
    match s.devState with
    | .addressed => (if epAddr ≠ 0 ∧ epAddr ≠ 0x80 then s.stallEP epAddr else s, [])
    | .configured =>
        if req.wValue = 0 then
          if epAddr &&& 0x7F ≠ 0 then
            let (s, out) := (s.clearStallEP epAddr).cdcSetup req
            (s.ctlSendStatus, out)
          else (s.ctlSendStatus, [])
        else (s, [])
    | .default | .suspended => (s.ctlError, [])
  else if req.bRequest = 0x00 then
    match s.devState with
    | .addressed => (if epAddr &&& 0x7F ≠ 0 then s.stallEP epAddr else s, [])
    | .configured => (s.ctlSendBytes [if s.isStall epAddr then 1 else 0, 0], [])
    | .default | .suspended => (s.ctlError, [])
  else (s, [])

/-! ## `usbd_core.c` -/

/-- `USBD_LL_SetupStage`. -/
def setupStage (s : UsbDevice) (req : SetupReq) (malloc : Option (Mem UInt8)) :
    UsbDevice × List ControlOutput :=
  let s := { s with ep0State := .setup, ep0DataLen := req.wLength }
  if req.bmRequest &&& 0x1F = 0 then s.stdDevReq desc req malloc
  else if req.bmRequest &&& 0x1F = 1 then s.stdItfReq req
  else if req.bmRequest &&& 0x1F = 2 then s.stdEPReq req
  else (s.stallEP (req.bmRequest &&& 0x80), [])

/-- `USBD_LL_DataInStage` for endpoint 0. `EP0_TxSent` is NULL. -/
def dataInStage (s : UsbDevice) (pdata : Mem UInt8) : UsbDevice :=
  if s.ep0State = .dataIn then
    if maxEp0Size < s.inRem then
      let rem := s.inRem - maxEp0Size
      ({ s with inRem := rem }.epTransmit pdata rem).epReceive none
    else if s.inTotal % maxEp0Size = 0 ∧ maxEp0Size ≤ s.inTotal ∧ s.inTotal < s.ep0DataLen then
      -- the last packet was full, so one of no bytes follows
      { s.epTransmit (fun _ => 0) 0 with ep0DataLen := 0 }.epReceive none
    else s.ctlReceiveStatus
  else s

/-- `USBD_LL_DataOutStage` for endpoint 0. -/
def dataOutStage (s : UsbDevice) (pdata : Option Nat) : UsbDevice × List ControlOutput :=
  if s.ep0State = .dataOut then
    if maxEp0Size < s.outRem then
      ({ s with outRem := s.outRem - maxEp0Size }.epReceive pdata, [])
    else
      let (s, out) := if s.devState = .configured then s.cdcRxReady else (s, [])
      (s.ctlSendStatus, out)
  else (s, [])

/-! ## Endpoint 0 -/

/-- A SETUP packet ends what endpoint 0 was at. -/
def setupPacket (s : UsbDevice) (req : SetupReq) (malloc : Option (Mem UInt8)) :
    UsbDevice × List ControlOutput :=
  { s with transmit := none, receive := none, stallIn := false, stallOut := false }.setupStage
    desc req malloc

/-- An IN token: the packet in the FIFO is sent, and `xfer_buff` is behind it. -/
def inToken (s : UsbDevice) : UsbDevice × List ControlOutput :=
  if s.stallIn then (s, [.stall])
  else
    match s.transmit with
    | none => (s, [.nak])
    | some (pbuf, len) =>
        ({ s with transmit := none }.dataInStage (pbuf.shift len), [.packet (pbuf.load 0 len)])

/-- An OUT packet: `USB_ReadPacket` stores words. -/
def outPacket (s : UsbDevice) (bytes padding : List UInt8) : UsbDevice × List ControlOutput :=
  if s.stallOut then (s, [.stall])
  else
    match s.receive with
    | none => (s, [.nak])
    | some pbuf =>
        let s := { s with receive := none }
        if bytes = [] then
          let (s, out) := s.dataOutStage pbuf
          (s, .ack :: out)
        else
          match pbuf, s.classData with
          | some at_, some hcdc =>
              let words := bytes ++ padding.take ((4 - bytes.length % 4) % 4)
              let (s, out) := { s with classData := some (hcdc.store at_ words) }.dataOutStage
                (some (at_ + bytes.length))
              (s, .ack :: out)
          | _, _ => (s, [.badAccess])

/-- `USBD_LL_Reset`, after the reset of the controller. -/
def reset (s : UsbDevice) : UsbDevice :=
  { s with
    devState := .default, transmit := none, receive := none
    stallIn := false, stallOut := false }.cdcDeInit

/-- `USBD_LL_DevDisconnected`. -/
def devDisconnected (s : UsbDevice) : UsbDevice :=
  { s with devState := .default, transmit := none, receive := none }.cdcDeInit

end UsbDevice

/-- One event. `USBD_CDC_SetTxBuffer` and, of a configured device, `USBD_CDC_DataOut` write to
the class data without looking whether it is there. -/
def controlStep (desc : UsbDescriptors) (s : UsbDevice) :
    ControlEvent → UsbDevice × List ControlOutput
  | .setup pdata malloc => s.setupPacket desc (parseSetupRequest pdata) malloc
  | .inToken => s.inToken
  | .outPacket bytes padding => s.outPacket bytes padding
  | .reset => (s.reset, [])
  | .suspend => ({ s with devOldState := s.devState, devState := .suspended }, [])
  | .resume => ({ s with devState := s.devOldState }, [])
  | .disconnect => (s.devDisconnected, [])
  | .dataOut =>
      (s, if s.devState = .configured ∧ s.classData.isNone then [.badAccess] else [])
  | .usbWrite => (s, if s.classData.isNone then [.badAccess] else [])

/-- The control endpoint as a machine. -/
def controlFSM (desc : UsbDescriptors) : Fsm UsbDevice ControlEvent ControlOutput where
  step := controlStep desc

/-- After `USBD_Init` and the first reset. -/
def UsbDevice.init : UsbDevice where
  devState := .default
  devOldState := .default
  devAddress := 0
  devConfig := 0
  devRemoteWakeup := false
  isStall := fun _ => false
  ep0State := .idle
  ep0DataLen := 0
  inTotal := 0
  inRem := 0
  outRem := 0
  classData := none
  transmit := none
  receive := none
  stallIn := false
  stallOut := false

end OlympusFirmware.Usb

import OlympusFirmware.Usb.Control

/-!
# Reading over the control endpoint

A host reads until a packet is not full or it has the bytes it asked for. The device sends full
packets, then what is left, and a packet of no bytes where the answer is shorter than what was
asked for and ends with a full packet. What the host gets is the answer, and the device then
waits for the status packet.
-/

namespace OlympusFirmware.Usb

open OlympusFirmware.Lib

/-- The host sends IN tokens. -/
def hostRead (wLength : Nat) : Nat → List UInt8 → UsbDevice → Option (List UInt8 × UsbDevice)
  | 0, _, _ => none
  | tokens + 1, got, s =>
      match s.inToken with
      | (s, [.packet bytes]) =>
          let got := got ++ bytes
          if bytes.length < maxEp0Size ∨ wLength ≤ got.length then some (got, s)
          else hostRead wLength tokens got s
      | _ => none

/-- A request for data: SETUP, the data, and a status packet. -/
def controlRead (desc : UsbDescriptors) (s : UsbDevice) (pdata : List UInt8) :
    Option (List UInt8 × UsbDevice) :=
  let req := parseSetupRequest pdata
  let s := (s.setupPacket desc req none).1
  match hostRead req.wLength (req.wLength / maxEp0Size + 1) [] s with
  | none => none
  | some (got, s) =>
      match s.outPacket [] [] with
      | (s, [.ack]) => some (got, s)
      | _ => none

/-- In the middle of an answer: `sent` bytes of `len` are sent. -/
structure Sending (pbuf : Mem UInt8) (len wLength sent : Nat) (s : UsbDevice) : Prop where
  stallIn : s.stallIn = false
  ep0State : s.ep0State = .dataIn
  ep0DataLen : s.ep0DataLen = wLength
  inTotal : s.inTotal = len
  inRem : s.inRem + sent = len
  transmit : s.transmit = some (pbuf.shift sent, min s.inRem maxEp0Size)

/-- After the answer. The rest of the device is as before. -/
structure Answered (s s' : UsbDevice) : Prop where
  ep0State : s'.ep0State = .statusOut
  transmit : s'.transmit = none
  receive : s'.receive = some none
  stallIn : s'.stallIn = s.stallIn
  stallOut : s'.stallOut = s.stallOut
  devState : s'.devState = s.devState
  classData : s'.classData = s.classData

variable {pbuf : Mem UInt8} {len wLength sent : Nat} {s : UsbDevice}

theorem inToken_packet (pbuf : Mem UInt8) (len : Nat) (stallIn : s.stallIn = false)
    (transmit : s.transmit = some (pbuf, len)) :
    s.inToken = ({ s with transmit := none }.dataInStage (pbuf.shift len),
      [.packet (pbuf.load 0 len)]) := by
  unfold UsbDevice.inToken
  rw [if_neg (by rw [stallIn]; exact Bool.false_ne_true), transmit]

/-- A packet that is not the last. -/
theorem Sending.more (sending : Sending pbuf len wLength sent s) (long : maxEp0Size < s.inRem) :
    ∃ s', s.inToken = (s', [.packet (pbuf.load sent maxEp0Size)]) ∧
      Sending pbuf len wLength (sent + maxEp0Size) s' ∧ s'.stallOut = s.stallOut ∧
      s'.devState = s.devState ∧ s'.classData = s.classData := by
  have rem := sending.inRem
  have full : min s.inRem maxEp0Size = maxEp0Size := Nat.min_eq_right (Nat.le_of_lt long)
  have behind : (pbuf.shift sent).shift maxEp0Size = pbuf.shift (sent + maxEp0Size) := by
    funext i
    simp only [Mem.shift, Nat.add_assoc]
  rw [inToken_packet _ _ sending.stallIn sending.transmit, full, behind, Mem.load_shift,
    Nat.add_zero]
  unfold UsbDevice.dataInStage
  rw [if_pos sending.ep0State, if_pos long]
  refine ⟨_, rfl, ⟨sending.stallIn, sending.ep0State, sending.ep0DataLen, sending.inTotal, ?_,
    rfl⟩, rfl, rfl, rfl⟩
  show s.inRem - maxEp0Size + (sent + maxEp0Size) = len
  omega

/-- At the end of the answer the device asks for the status packet. -/
theorem Answered.stage {s' : UsbDevice} {pdata : Mem UInt8} (ep0State : s'.ep0State = .dataIn)
    (transmit : s'.transmit = none) (short : ¬ maxEp0Size < s'.inRem)
    (ends : ¬ (s'.inTotal % maxEp0Size = 0 ∧ maxEp0Size ≤ s'.inTotal ∧
      s'.inTotal < s'.ep0DataLen))
    (stallIn : s'.stallIn = s.stallIn) (stallOut : s'.stallOut = s.stallOut)
    (devState : s'.devState = s.devState) (classData : s'.classData = s.classData) :
    Answered s (s'.dataInStage pdata) := by
  unfold UsbDevice.dataInStage
  rw [if_pos ep0State, if_neg short, if_neg ends]
  exact ⟨rfl, transmit, rfl, stallIn, stallOut, devState, classData⟩

/-- The last packet that is not empty. -/
theorem Sending.last (sending : Sending pbuf len wLength sent s) (short : s.inRem ≤ maxEp0Size) :
    ∃ s', s.inToken = (s', [.packet (pbuf.load sent s.inRem)]) ∧
      if len % maxEp0Size = 0 ∧ maxEp0Size ≤ len ∧ len < wLength then
        ∃ s'', s'.inToken = (s'', [.packet []]) ∧ Answered s s''
      else Answered s s' := by
  have all : min s.inRem maxEp0Size = s.inRem := Nat.min_eq_left short
  have notMore : ¬ maxEp0Size < s.inRem := Nat.not_lt.mpr short
  rw [inToken_packet _ _ sending.stallIn sending.transmit, all, Mem.load_shift, Nat.add_zero]
  refine ⟨_, rfl, ?_⟩
  have ends (pdata : Mem UInt8) : ({ s with transmit := none } : UsbDevice).dataInStage pdata =
      if len % maxEp0Size = 0 ∧ maxEp0Size ≤ len ∧ len < wLength then
        { ({ s with transmit := none } : UsbDevice).epTransmit (fun _ => 0) 0 with
          ep0DataLen := 0 }.epReceive none
      else ({ s with transmit := none } : UsbDevice).ctlReceiveStatus := by
    unfold UsbDevice.dataInStage
    rw [if_pos sending.ep0State, if_neg notMore]
    dsimp only
    rw [sending.inTotal, sending.ep0DataLen]
  rw [ends]
  split
  · -- the packet of no bytes
    refine ⟨_, inToken_packet (fun _ => 0) 0 sending.stallIn rfl, ?_⟩
    exact .stage sending.ep0State rfl notMore (fun zlp => Nat.not_lt_zero _ zlp.2.2) rfl rfl
      rfl rfl
  · exact ⟨rfl, rfl, rfl, rfl, rfl, rfl, rfl⟩

theorem hostRead_packet {tokens : Nat} {got bytes : List UInt8} {s' : UsbDevice}
    (token : s.inToken = (s', [.packet bytes])) :
    hostRead wLength (tokens + 1) got s =
      if bytes.length < maxEp0Size ∨ wLength ≤ (got ++ bytes).length then some (got ++ bytes, s')
      else hostRead wLength tokens (got ++ bytes) s' := by
  rw [hostRead, token]

/-- **A host reads the answer.** -/
theorem Sending.read (sending : Sending pbuf len wLength sent s) (some : sent < len)
    (few : len ≤ wLength) (whole : sent % maxEp0Size = 0) {tokens : Nat}
    (enough : (wLength - sent) / maxEp0Size + 1 ≤ tokens) :
    ∃ s', hostRead wLength tokens (pbuf.load 0 sent) s = Option.some (pbuf.load 0 len, s') ∧
      Answered s s' := by
  have rem := sending.inRem
  induction tokens generalizing sent s with
  | zero => exact absurd enough (Nat.not_succ_le_zero _)
  | succ tokens ih =>
      have size : maxEp0Size = 64 := rfl
      by_cases long : maxEp0Size < s.inRem
      · obtain ⟨s', token, next, stallOut, devState, classData⟩ := sending.more long
        have got : pbuf.load 0 sent ++ pbuf.load sent maxEp0Size =
            pbuf.load 0 (sent + maxEp0Size) := by
          rw [Mem.load_add, Nat.zero_add]
        rw [hostRead_packet token, got, Mem.length_load, Mem.length_load, if_neg (by omega)]
        rw [size] at long whole enough next ⊢
        obtain ⟨s'', read, answered⟩ :=
          ih next (by omega) (by rw [size]; omega) (by rw [size]; omega) next.inRem
        exact ⟨s'', read, answered.ep0State, answered.transmit, answered.receive,
          answered.stallIn.trans (next.stallIn.trans sending.stallIn.symm),
          answered.stallOut.trans stallOut, answered.devState.trans devState,
          answered.classData.trans classData⟩
      · obtain ⟨s', token, ends⟩ := sending.last (Nat.le_of_not_lt long)
        have got : pbuf.load 0 sent ++ pbuf.load sent s.inRem = pbuf.load 0 len := by
          rw [← rem, Nat.add_comm s.inRem, Mem.load_add, Nat.zero_add]
        rw [hostRead_packet token, got, Mem.length_load, Mem.length_load]
        rw [size] at long whole enough ends ⊢
        split at ends
        · obtain ⟨s'', empty, answered⟩ := ends
          obtain ⟨tokens, rfl⟩ := Nat.exists_eq_succ_of_ne_zero (show tokens ≠ 0 by omega)
          rw [if_neg (by omega), hostRead_packet empty, List.append_nil, if_pos (.inl (by decide))]
          exact ⟨s'', rfl, answered⟩
        · rw [if_pos (by omega)]
          exact ⟨s', rfl, ends⟩

/-- The answer starts. -/
theorem ctlSendData_sending (stallIn : s.stallIn = false) (ep0DataLen : s.ep0DataLen = wLength) :
    Sending pbuf len wLength 0 (s.ctlSendData pbuf len) := by
  have start : pbuf.shift 0 = pbuf := by
    funext i
    simp only [Mem.shift, Nat.zero_add]
  refine ⟨stallIn, rfl, ep0DataLen, rfl, Nat.add_zero len, ?_⟩
  rw [start]
  rfl

/-- The status packet of the host. -/
theorem outPacket_status (stallOut : s.stallOut = false) (receive : s.receive = some none)
    (ep0State : s.ep0State = .statusOut) :
    s.outPacket [] [] = ({ s with receive := none }, [.ack]) := by
  unfold UsbDevice.outPacket
  rw [if_neg (by rw [stallOut]; exact Bool.false_ne_true), receive]
  dsimp only
  rw [if_pos rfl]
  unfold UsbDevice.dataOutStage
  rw [if_neg (by rw [ep0State]; decide)]

/-- **A descriptor is read in full, up to the length the host asks for**, and the device is
ready for the next request. This holds in any state of the device. -/
theorem controlRead_descriptor (desc : UsbDescriptors) (s : UsbDevice) (pdata : List UInt8)
    (device : (parseSetupRequest pdata).bmRequest &&& 0x1F = 0)
    (get : (parseSetupRequest pdata).bRequest = 0x06)
    (asks : (parseSetupRequest pdata).wLength ≠ 0) {bytes : List UInt8}
    (found : UsbDevice.findDescriptor desc (parseSetupRequest pdata).wValue = some bytes)
    (some : bytes ≠ []) :
    ∃ s', controlRead desc s pdata =
        Option.some (bytes.take (parseSetupRequest pdata).wLength, s') ∧
      s'.devState = s.devState ∧ s'.classData = s.classData ∧ s'.transmit = none ∧
      s'.receive = none ∧ s'.stallIn = false ∧ s'.stallOut = false := by
  unfold controlRead
  generalize parseSetupRequest pdata = req at device get asks found ⊢
  dsimp only
  have positive : 0 < bytes.length := List.length_pos_iff.mpr some
  -- what endpoint 0 was at is over
  let quiet : UsbDevice :=
    { s with
      transmit := none, receive := none, stallIn := false, stallOut := false
      ep0State := .setup, ep0DataLen := req.wLength }
  have answer : (s.setupPacket desc req none).1 =
      quiet.ctlSendData (Mem.store (fun _ => 0) 0 bytes) (min bytes.length req.wLength) := by
    unfold UsbDevice.setupPacket UsbDevice.setupStage
    dsimp only
    rw [if_pos device]
    unfold UsbDevice.stdDevReq
    rw [if_pos get]
    unfold UsbDevice.getDescriptor
    rw [found]
    dsimp only
    rw [if_pos ⟨Nat.ne_of_gt positive, asks⟩]
  have sending : Sending (Mem.store (fun _ => 0) 0 bytes) (min bytes.length req.wLength)
      req.wLength 0 (quiet.ctlSendData (Mem.store (fun _ => 0) 0 bytes)
        (min bytes.length req.wLength)) := ctlSendData_sending rfl rfl
  obtain ⟨s', read, answered⟩ := sending.read (by omega) (Nat.min_le_right ..) (Nat.zero_mod _)
    (Nat.le_refl _)
  rw [Mem.load_zero, Nat.sub_zero] at read
  have data : (Mem.store (fun _ => 0) 0 bytes).load 0 (min bytes.length req.wLength) =
      bytes.take req.wLength := by
    rw [← Mem.load_take (Nat.min_le_left ..), Mem.load_store_self, Nat.min_comm]
    exact List.take_eq_take_min.symm
  rw [answer, read, data]
  dsimp only
  rw [outPacket_status answered.stallOut answered.receive answered.ep0State]
  exact ⟨_, rfl, answered.devState, answered.classData, answered.transmit, rfl, answered.stallIn,
    answered.stallOut⟩

/-- The configuration descriptor, of which the host asks for more than there is. -/
theorem controlRead_configuration :
    ∃ s', controlRead (vcpDesc [] []) .init [0x80, 6, 0, 2, 0, 0, 255, 0] =
        some ((vcpDesc [] []).configuration.take 255, s') ∧
      s'.devState = .default ∧ s'.classData = none ∧ s'.transmit = none ∧ s'.receive = none ∧
      s'.stallIn = false ∧ s'.stallOut = false :=
  controlRead_descriptor (vcpDesc [] []) .init [0x80, 6, 0, 2, 0, 0, 255, 0] (by decide)
    (by decide) (by decide) rfl (by decide)

end OlympusFirmware.Usb

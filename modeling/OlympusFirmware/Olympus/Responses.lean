import OlympusFirmware.Olympus.UsbResponse

/-!
# The bytes of a response (`sendResponse` in `olympus/drivers/comms.c`)

`sendResponse` writes the response into its static buffer, field by field, and passes the
buffer on with the length byte as the number of bytes, over USB or over TCP. Here it is
followed store by store; what is passed on is the packet of `outPacket`, and that is a
valid frame for every entry of the table.
-/

namespace OlympusFirmware.Olympus

open OlympusFirmware.Lib

/-- `outPacket->header.packetLen`. -/
def responseLen (r : PacketResponse) : UInt8 :=
  UInt8.ofNat (r.responseDataLen + packetHeaderSize + 1)

/-- The loop that copies the response data, `idx` bytes of it. -/
def copyResponse (held : Nat → UInt8) : Nat → Mem UInt8 → Mem UInt8
  | 0, packetBuffer => packetBuffer
  | idx + 1, packetBuffer =>
      (copyResponse held idx packetBuffer).store (packetHeaderSize + idx) [held idx]

/-- The packet before the checksum is stored. -/
def fillResponse (held : Option ResponseData → Nat → UInt8) (r : PacketResponse) (p : Packet)
    (packetBuffer : Mem UInt8) : Mem UInt8 :=
  copyResponse (held r.responseData) r.responseDataLen
    (packetBuffer.store 0
      [startByte1, startByte2, p.msgType ||| 1, p.seqNumber, responseLen r])

/-- The buffer after `sendResponse`. The checksum runs over what the buffer holds. -/
def buildResponse (held : Option ResponseData → Nat → UInt8) (r : PacketResponse) (p : Packet)
    (packetBuffer : Mem UInt8) : Mem UInt8 :=
  let filled := fillResponse held r p packetBuffer
  filled.store (packetHeaderSize + r.responseDataLen)
    [crc8 (filled.load 0 ((responseLen r).toNat - 1))]

/-- The call `sendResponse` ends with: `usbWrite` or `tcp_server_send`. -/
inductive Emission
  | usbWrite (bytes : List UInt8)
  | tcpServerSend (bytes : List UInt8)

/-- The bytes passed on. -/
def Emission.bytes : Emission → List UInt8
  | .usbWrite bytes => bytes
  | .tcpServerSend bytes => bytes

/-- `sendResponse`, up to the call it ends with. -/
def emitResponse (usingUSB : Bool) (held : Option ResponseData → Nat → UInt8)
    (r : PacketResponse) (p : Packet) (packetBuffer : Mem UInt8) : Emission :=
  let bytes := (buildResponse held r p packetBuffer).load 0 (responseLen r).toNat
  if usingUSB then .usbWrite bytes else .tcpServerSend bytes

/-- A valid response to a packet: what each byte is. -/
structure ResponseFrame (held : Option ResponseData → Nat → UInt8) (r : PacketResponse)
    (p : Packet) (bytes : List UInt8) : Prop where
  layout : ∃ (len : UInt8) (data : List UInt8) (last : UInt8),
    bytes = [0xF0, 0x5A, p.msgType ||| 1, p.seqNumber, len] ++ data ++ [last] ∧
      len.toNat = bytes.length ∧ data.length = r.responseDataLen ∧
      ∀ i < r.responseDataLen, ∃ array, r.responseData = some array ∧ i < array.size ∧
        data[i]? = some (held r.responseData i)
  bounded : bytes.length ≤ 64
  checked : crc8 bytes = 0

/-! ## What the stores leave -/

section Stores

variable (held : Option ResponseData → Nat → UInt8) (r : PacketResponse) (p : Packet)
  (packetBuffer : Mem UInt8)

/-- The loop leaves the header and puts the data behind it. -/
theorem copyResponse_load (data : Nat → UInt8) (n : Nat) :
    (copyResponse data n packetBuffer).load 0 (packetHeaderSize + n) =
      packetBuffer.load 0 packetHeaderSize ++ (List.range n).map data := by
  induction n with
  | zero => simp [copyResponse]
  | succ n ih =>
      have grown := Mem.load_store_behind (copyResponse data n packetBuffer) 0
        (packetHeaderSize + n) [data n]
      rw [Nat.zero_add, List.length_singleton, Nat.add_assoc, ih] at grown
      rw [copyResponse, grown, List.range_succ, List.map_append, List.append_assoc]
      rfl

theorem fillResponse_load :
    (fillResponse held r p packetBuffer).load 0 (packetHeaderSize + r.responseDataLen) =
      [startByte1, startByte2, p.msgType ||| 1, p.seqNumber, responseLen r] ++
        (List.range r.responseDataLen).map (held r.responseData) := by
  have header := Mem.load_store_self packetBuffer 0
    [startByte1, startByte2, p.msgType ||| 1, p.seqNumber, responseLen r]
  rw [fillResponse, copyResponse_load]
  exact congrArg (· ++ _) header

variable {r p}

/-- The sum fits in the length byte. -/
theorem responseLen_toNat (entry : p.entry = some r) :
    (responseLen r).toNat = packetHeaderSize + r.responseDataLen + 1 := by
  have small := responseDataLen_le entry
  have fits : r.responseDataLen + packetHeaderSize + 1 < UInt8.size := by
    show r.responseDataLen + 5 + 1 < 256
    omega
  rw [responseLen, UInt8.toNat_ofNat_of_lt' fits, Nat.add_comm packetHeaderSize]

/-- **The stores** produce the packet. -/
theorem emitResponse_bytes (usingUSB : Bool) (entry : p.entry = some r) :
    (emitResponse usingUSB held r p packetBuffer).bytes = outPacket held r p := by
  have length := responseLen_toNat entry
  have whole : (buildResponse held r p packetBuffer).load 0 (responseLen r).toNat =
      outPacket held r p := by
    have grown := Mem.load_store_behind (fillResponse held r p packetBuffer) 0
      (packetHeaderSize + r.responseDataLen)
      [crc8 ((fillResponse held r p packetBuffer).load 0 ((responseLen r).toNat - 1))]
    rw [Nat.zero_add, List.length_singleton, ← length] at grown
    rw [buildResponse, grown, length, Nat.add_sub_cancel, fillResponse_load]
    rfl
  cases usingUSB <;> exact whole

/-- An entry with an array behind it reads only that array. -/
theorem responseData_inside (entry : p.entry = some r)
    (present : r.responseData.isSome ∨ r.responseDataLen = 0) :
    ∀ i < r.responseDataLen, ∃ array, r.responseData = some array ∧ i < array.size := by
  have sized : ∀ array ∈ r.responseData, r.responseDataLen ≤ array.size :=
    Packet.entry_all (P := fun r => ∀ array ∈ r.responseData, r.responseDataLen ≤ array.size)
      (by decide) entry
  intro i inside
  rcases present with array | empty
  · obtain ⟨array, known⟩ := Option.isSome_iff_exists.mp array
    exact ⟨array, known, Nat.lt_of_lt_of_le inside (sized array known)⟩
  · omega

end Stores

/-- **Responses are valid frames**, whatever the arrays hold, over USB and over TCP. A
message and a byte have the checksum zero if and only if the byte is its checksum. -/
theorem emitResponse_frames :
    (∀ (usingUSB : Bool) (held : Option ResponseData → Nat → UInt8) (p : Packet)
      (r : PacketResponse) (packetBuffer : Mem UInt8), p.entry = some r →
      (r.responseData.isSome ∨ r.responseDataLen = 0) →
      ResponseFrame held r p (emitResponse usingUSB held r p packetBuffer).bytes) ∧
    ∀ (m : List UInt8) (c : UInt8), crc8 (m ++ [c]) = 0 ↔ c = crc8 m := by
  refine ⟨?_, crc8_concat_eq_zero_iff⟩
  intro usingUSB held p r packetBuffer entry present
  have length := responseLen_toNat entry
  have small := responseDataLen_le entry
  have size : (outPacket held r p).length = packetHeaderSize + r.responseDataLen + 1 := by
    simp [outPacket, packetHeaderSize]
    omega
  rw [emitResponse_bytes held packetBuffer usingUSB entry]
  refine ⟨⟨responseLen r, (List.range r.responseDataLen).map (held r.responseData), _, rfl, ?_, ?_,
    ?_⟩, ?_, ?_⟩
  · rw [length, size]
  · simp
  · intro i inside
    obtain ⟨array, known, within⟩ := responseData_inside entry present i inside
    exact ⟨array, known, within, by simp [inside]⟩
  · rw [size, packetHeaderSize]
    omega
  · exact crc8_append_self _

/-- A status request, over USB. -/
theorem emitResponse_frames_status :
    ResponseFrame (fun _ i => UInt8.ofNat i) ⟨0, none, 5, some .status, none⟩
      ⟨Vector.replicate 256 0⟩
      (emitResponse true (fun _ i => UInt8.ofNat i) ⟨0, none, 5, some .status, none⟩
        ⟨Vector.replicate 256 0⟩ fun _ => 0).bytes := by
  apply emitResponse_frames.1
  · decide +kernel
  · decide

end OlympusFirmware.Olympus

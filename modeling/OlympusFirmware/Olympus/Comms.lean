import OlympusFirmware.Lib.Fsm
import OlympusFirmware.Olympus.Crc8

/-!
# The host packet parser (`olympus/drivers/comms.c`, `comms.h`)

`runCommsFSM` collects one packet at a time in `packetBuffer` and hands it to
`runPacket` and `sendResponse` when its checksum is zero. The handler is an
explicit state; a call of `runPacket` or `sendResponse` is an output that
carries the packet it was given. What the two callees do never flows back into
the parser.

A `Packet_t` is a 256-byte view that starts at the 64-byte `packetBuffer`, so
the code can read past the buffer's end when the length byte says so. The bytes
found there are the parameter `behind`; they may depend on the handler, since
`packetIdx` is one of the things stored there. Plain `char` is unsigned.
-/

namespace OlympusFirmware.Olympus

open OlympusFirmware.Lib

/-- `MAX_PACKET_SIZE`. -/
def maxPacketSize : Nat := 64

/-- `START_BYTE_1`. -/
def startByte1 : UInt8 := 0xF0

/-- `START_BYTE_2`. -/
def startByte2 : UInt8 := 0x5A

/-- `sizeof(PacketHeader_t)`: two start bytes, type, sequence number, length. -/
def packetHeaderSize : Nat := 5

/-- `CommsState_t`. -/
inductive CommsState
  | waitingForStart1
  | waitingForStart2
  | waitingForHeader
  | waitingForData
  | waitingForCrc
deriving DecidableEq, Repr

/-- `CommsHandler_t`, without the connection argument and the `packet` pointer
that nothing sets. -/
structure CommsHandler where
  state : CommsState
  packetBuffer : Vector UInt8 64
  packetIdx : Nat
deriving DecidableEq

/-- `Packet_t`: a header of five bytes and `data[251]`. -/
structure Packet where
  memory : Vector UInt8 256
deriving DecidableEq

namespace Packet

/-- `header.msgType`. -/
def msgType (p : Packet) : UInt8 := p.memory[2]

/-- `header.seqNumber`. -/
def seqNumber (p : Packet) : UInt8 := p.memory[3]

/-- `header.packetLen`. -/
def packetLen (p : Packet) : UInt8 := p.memory[4]

/-- The bytes a packet claims to have: the first `packetLen` of the view. -/
def bytes (p : Packet) : List UInt8 := p.memory.toList.take p.packetLen.toNat

end Packet

/-- What the parser calls. -/
inductive Call
  | runPacket (packet : Packet)
  | sendResponse (packet : Packet)
deriving DecidableEq

/-- `checkPacket`. -/
def checkPacket (p : Packet) : Bool :=
  crc8 p.bytes == 0

namespace CommsHandler

/-- `initCommsHandler`: the buffer keeps whatever the memory held. -/
def init (raw : Vector UInt8 64) : CommsHandler :=
  { state := .waitingForStart1, packetBuffer := raw, packetIdx := 0 }

/-- `packet->header.packetLen`, read through the buffer. -/
def packetLen (h : CommsHandler) : UInt8 := h.packetBuffer[4]

/-- `packet->header.packetLen - 1` as it is compared with the unsigned
`packetIdx`: a length of zero gives `2 ^ 32 - 1`. -/
def lastIdx (h : CommsHandler) : Nat :=
  if h.packetLen = 0 then 4294967295 else h.packetLen.toNat - 1

/-- `packetBuffer[i] = data`. -/
def store (h : CommsHandler) (i : Nat) (data : UInt8) : CommsHandler :=
  { h with packetBuffer := h.packetBuffer.setIfInBounds i data }

/-- `packetBuffer[packetIdx++] = data`. -/
def push (h : CommsHandler) (data : UInt8) : CommsHandler :=
  { h.store h.packetIdx data with packetIdx := h.packetIdx + 1 }

/-- The bytes collected for the current packet. -/
def received (h : CommsHandler) : List UInt8 := h.packetBuffer.toList.take h.packetIdx

end CommsHandler

section Parser

variable (behind : CommsHandler → Nat → UInt8)

/-- `(Packet_t *)(hdl->packetBuffer)`: the buffer, then the memory behind it. -/
def CommsHandler.packet (h : CommsHandler) : Packet where
  memory := Vector.ofFn fun i =>
    if hi : i.val < 64 then h.packetBuffer.get ⟨i.val, hi⟩ else behind h i.val

/-- The body of the loop of `runCommsFSM`. -/
def commsStep (h : CommsHandler) (data : UInt8) : CommsHandler × List Call :=
  match h.state with
  | .waitingForStart1 =>
      if data = startByte1 then
        ({ h.store 0 data with state := .waitingForStart2, packetIdx := 1 }, [])
      else
        ({ h with packetIdx := 0 }, [])
  | .waitingForStart2 =>
      if data = startByte2 then
        ({ h.store 1 data with state := .waitingForHeader, packetIdx := 2 }, [])
      else
        ({ h with state := .waitingForStart1 }, [])
  | .waitingForHeader =>
      let h := h.push data
      if h.packetIdx = packetHeaderSize - 1 then
        -- the length byte has not been received yet: `lastIdx` reads what an
        -- earlier packet left there
        if h.packetIdx = h.lastIdx then
          ({ h with state := .waitingForCrc }, [])
        else
          ({ h with state := .waitingForData }, [])
      else
        (h, [])
  | .waitingForData =>
      let h := h.push data
      if h.packetIdx = h.lastIdx then
        ({ h with state := .waitingForCrc }, [])
      else if maxPacketSize - 1 ≤ h.packetIdx then
        ({ h with state := .waitingForStart1 }, [])
      else
        (h, [])
  | .waitingForCrc =>
      let h := h.store h.packetIdx data
      let p := h.packet behind
      if checkPacket p then
        ({ h with state := .waitingForStart1 }, [.runPacket p, .sendResponse p])
      else
        ({ h with state := .waitingForStart1 }, [])

/-- The parser as a machine over bytes. -/
def commsFSM : Fsm CommsHandler UInt8 Call where
  step := commsStep behind

/-- `runCommsFSM`: one call, over the bytes it is given. -/
def runCommsFSM (h : CommsHandler) (buff : List UInt8) : CommsHandler × List Call :=
  ((commsFSM behind).after h buff, (commsFSM behind).outputs h buff)

/-- Successive calls of `runCommsFSM` on one handler. -/
def runCalls (h : CommsHandler) : List (List UInt8) → CommsHandler × List Call
  | [] => (h, [])
  | buff :: rest =>
      let first := runCommsFSM behind h buff
      let later := runCalls first.1 rest
      (later.1, first.2 ++ later.2)

/-- How a stream is cut into calls does not matter. -/
theorem runCalls_eq_flatten (h : CommsHandler) (calls : List (List UInt8)) :
    runCalls behind h calls = runCommsFSM behind h calls.flatten := by
  induction calls generalizing h with
  | nil => rfl
  | cons buff rest ih =>
      simp only [runCalls, ih, runCommsFSM, List.flatten_cons, Fsm.after_append,
        Fsm.outputs_append]

end Parser

/-! ## What the steps leave in the buffer -/

namespace CommsHandler

@[simp] theorem store_state (h : CommsHandler) (i : Nat) (data : UInt8) :
    (h.store i data).state = h.state := rfl

@[simp] theorem store_packetIdx (h : CommsHandler) (i : Nat) (data : UInt8) :
    (h.store i data).packetIdx = h.packetIdx := rfl

@[simp] theorem push_state (h : CommsHandler) (data : UInt8) :
    (h.push data).state = h.state := rfl

@[simp] theorem push_packetIdx (h : CommsHandler) (data : UInt8) :
    (h.push data).packetIdx = h.packetIdx + 1 := rfl

theorem store_getElem (h : CommsHandler) {i j : Nat} (data : UInt8) (inside : j < 64) :
    (h.store i data).packetBuffer[j] = if i = j then data else h.packetBuffer[j] := by
  simp [store, Vector.getElem_setIfInBounds]

/-- A store leaves the other cells. -/
theorem store_kept (h : CommsHandler) {i j : Nat} (data : UInt8) (inside : j < 64)
    (other : i ≠ j) : (h.store i data).packetBuffer[j] = h.packetBuffer[j] := by
  rw [h.store_getElem data inside, if_neg other]

theorem store_packetLen (h : CommsHandler) (i : Nat) (data : UInt8) :
    (h.store i data).packetLen = if i = 4 then data else h.packetLen := by
  simp [packetLen, store, Vector.getElem_setIfInBounds]

theorem push_packetLen (h : CommsHandler) (data : UInt8) :
    (h.push data).packetLen = if h.packetIdx = 4 then data else h.packetLen :=
  store_packetLen h h.packetIdx data

theorem length_received (h : CommsHandler) (fits : h.packetIdx ≤ 64) :
    h.received.length = h.packetIdx := by
  simp [received, Nat.min_eq_left fits]

/-- Storing at position `i` extends the first `i` bytes by one. -/
theorem take_store (h : CommsHandler) {i : Nat} (data : UInt8) (fits : i < 64) :
    (h.store i data).packetBuffer.toList.take (i + 1) =
      h.packetBuffer.toList.take i ++ [data] := by
  have bound : i < h.packetBuffer.toList.length := by simpa using fits
  simp only [store, Vector.toList_setIfInBounds]
  rw [List.take_add_one, List.getElem?_set_self bound, List.take_set_of_le (Nat.le_refl i)]
  rfl

theorem received_push (h : CommsHandler) (data : UInt8) (fits : h.packetIdx < 64) :
    (h.push data).received = h.received ++ [data] :=
  take_store h data fits

/-- Once five bytes are in, the length byte is one of them. -/
theorem received_packetLen (h : CommsHandler) (five : 5 ≤ h.packetIdx) :
    h.received[4]? = some h.packetLen := by
  have inside : 4 < h.packetIdx := by omega
  simp [received, packetLen, inside]

/-- The comparison with `packetLen - 1`, for an index that can occur. -/
theorem eq_lastIdx_iff (h : CommsHandler) {i : Nat} (small : i ≤ 64) :
    i = h.lastIdx ↔ i + 1 = h.packetLen.toNat := by
  have zero : h.packetLen = 0 ↔ h.packetLen.toNat = 0 := by simp [← UInt8.toNat_inj]
  simp only [lastIdx, zero]
  split <;> omega

@[simp] theorem packet_packetLen (behind : CommsHandler → Nat → UInt8) (h : CommsHandler) :
    (h.packet behind).packetLen = h.packetLen := by
  simp [packet, Packet.packetLen, packetLen, Vector.get]

/-- The view starts with the buffer. -/
theorem packet_take (behind : CommsHandler → Nat → UInt8) (h : CommsHandler) {n : Nat}
    (inside : n ≤ 64) :
    (h.packet behind).memory.toList.take n = h.packetBuffer.toList.take n := by
  apply List.ext_getElem
  · simp
    omega
  · intro i left right
    have small : i < 64 := by
      simp at right
      omega
    simp [packet, small, Vector.get]

/-- While the length byte stays within the buffer, so does the packet. -/
theorem packet_bytes (behind : CommsHandler → Nat → UInt8) (h : CommsHandler)
    (inside : h.packetLen.toNat ≤ 64) :
    (h.packet behind).bytes = h.packetBuffer.toList.take h.packetLen.toNat := by
  rw [Packet.bytes, packet_packetLen, h.packet_take behind inside]

end CommsHandler

end OlympusFirmware.Olympus

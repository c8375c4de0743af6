import OlympusFirmware.Lib.Bytes
import OlympusFirmware.Lib.Mem
import OlympusFirmware.Olympus.Framing

/-!
# Commands of the host (`olympus/drivers/comms.c`, `kill.c`)

`runPacket` looks a packet's type up in the table `response`, copies its payload to
the one `inputBuf` that all commands share and calls the entry's callback;
`sendResponse` builds the answer. Both index the table with half the type byte,
which nothing bounds. What a packet does whose type is outside is not defined: the
parameter `wild` stands for it.

A callback may not return: `killBoard` loops and `resetBoard` resets, if it is given
the key. Nothing is processed after that.
-/

namespace OlympusFirmware.Olympus

open OlympusFirmware.Lib

/-- The callbacks of the table. -/
inductive Callback
  | commsSetTurnSignal | commsSetHeadlights | commsSetMiscLights
  | commsSetFNR
  | commsSetSteering | commsSetBrake
  | commsSetSpeed | commsSetLeds | commsPwradcCallback | killBoard | resetBoard
deriving DecidableEq

/-- The arrays that `inputData` points to. -/
inductive InputData
  | inputBuf
deriving DecidableEq

/-- The arrays that `responseData` points to: `status`, `hermesData.speed`,
`olympusData.power.u8`. -/
inductive ResponseData
  | status | speed | power
deriving DecidableEq

/-- Their sizes. -/
def ResponseData.size : ResponseData → Nat
  | .status => 5
  | .speed => 2
  | .power => 16

/-- `packetResponse_t`. A pointer that is `NULL` is `none`. -/
structure PacketResponse where
  inputDataLen : Nat
  inputData : Option InputData
  responseDataLen : Nat
  responseData : Option ResponseData
  callback : Option Callback
deriving DecidableEq

/-- `response`. -/
def response : Vector PacketResponse 18 :=
  #v[
    ⟨0, none, 5, some .status, none⟩,                            -- 0x00
    -- Hermes
    ⟨0, none, 2, some .speed, none⟩,                             -- 0x02
    ⟨0, none, 2, none, none⟩,                                    -- 0x04
    ⟨0, none, 0, none, none⟩,                                    -- 0x06
    -- Apollo
    ⟨1, some .inputBuf, 0, none, some .commsSetTurnSignal⟩,      -- 0x08
    ⟨2, some .inputBuf, 0, none, some .commsSetHeadlights⟩,      -- 0x0A
    ⟨2, some .inputBuf, 0, none, some .commsSetMiscLights⟩,      -- 0x0C
    -- Janus
    ⟨0, none, 1, none, none⟩,                                    -- 0x0E
    ⟨0, none, 1, none, none⟩,                                    -- 0x10
    ⟨1, some .inputBuf, 0, none, some .commsSetFNR⟩,             -- 0x12
    -- Hephaestus
    ⟨1, some .inputBuf, 0, none, some .commsSetSteering⟩,        -- 0x14
    ⟨2, some .inputBuf, 0, none, some .commsSetBrake⟩,           -- 0x16
    ⟨0, none, 0, none, none⟩,                                    -- 0x18
    -- Olympus
    ⟨2, some .inputBuf, 0, none, some .commsSetSpeed⟩,           -- 0x1A
    ⟨2, some .inputBuf, 0, none, some .commsSetLeds⟩,            -- 0x1C
    ⟨0, none, 16, some .power, some .commsPwradcCallback⟩,       -- 0x1E
    ⟨0, none, 0, none, some .killBoard⟩,                         -- 0x20
    ⟨4, some .inputBuf, 0, none, some .resetBoard⟩]              -- 0x22

/-- `packetType`: the index into the table. -/
def Packet.packetType (p : Packet) : Nat := (p.msgType >>> 1).toNat

/-- `packet->data`. -/
def Packet.data (p : Packet) : List UInt8 := p.memory.toList.drop packetHeaderSize

/-- The table's entry for a packet, if its type is inside. -/
def Packet.entry (p : Packet) : Option PacketResponse := response[p.packetType]?

/-- What holds of every entry of the table holds of a packet's. -/
theorem Packet.entry_all {P : PacketResponse → Prop}
    (table : ∀ i (inside : i < 18), P response[i]) {p : Packet} {r : PacketResponse}
    (entry : p.entry = some r) : P r := by
  by_cases inside : p.packetType < 18
  · rw [Packet.entry, Vector.getElem?_eq_getElem inside] at entry
    cases entry
    exact table _ inside
  · rw [Packet.entry, Vector.getElem?_eq_none (by omega)] at entry
    cases entry

/-! ## The two functions -/

/-- `dataLen`, an 8-bit difference. -/
def Packet.dataLen (p : Packet) : UInt8 := p.packetLen - 5 - 1

/-- `bytesToCopy`. -/
def bytesToCopy (r : PacketResponse) (p : Packet) : Nat :=
  if p.dataLen.toNat < r.inputDataLen then p.dataLen.toNat else r.inputDataLen

/-- The loop that copies the payload to `inputBuf`. -/
def copyInput (r : PacketResponse) (p : Packet) (inputBuf : Mem UInt8) : Mem UInt8 :=
  if 0 < r.inputDataLen then inputBuf.store 0 (p.data.take (bytesToCopy r p)) else inputBuf

/-- `RESET_KEY`. -/
def resetKey : UInt32 := 0x464C4150

/-- Whether a callback returns. -/
def Callback.returns (inputData : Mem UInt8) : Callback → Bool
  | .killBoard => false
  | .resetBoard => leWord (inputData.load 0 4) != resetKey
  | _ => true

/-- The static data of the two functions, and whether the program still runs. -/
structure Server where
  inputBuf : Mem UInt8
  running : Bool

/-- The state at reset. -/
def Server.reset : Server := ⟨fun _ => 0, true⟩

/-- What is done for a packet: a callback is called with what `inputData` points to,
a response is sent. -/
inductive Action
  | callback (callback : Callback) (inputData : Mem UInt8)
  | sendResponse (packet : Packet)

/-- `runPacket`, for a type inside the table. -/
def runEntry (r : PacketResponse) (p : Packet) (s : Server) : Server × List Action :=
  let inputBuf := copyInput r p s.inputBuf
  match r.callback with
  | some callback => (⟨inputBuf, callback.returns inputBuf⟩, [.callback callback inputBuf])
  | none => ({ s with inputBuf := inputBuf }, [])

section Server

variable (wild : Packet → Server → Server)

/-- `runPacket`. -/
def runPacket (p : Packet) (s : Server) : Server × List Action :=
  match p.entry with
  | some r => runEntry r p s
  | none => (wild p s, [])

/-- A call of the parser. -/
def serverStep (s : Server) (call : Call) : Server × List Action :=
  if s.running then
    match call with
    | .runPacket p => runPacket wild p s
    | .sendResponse p => (s, [.sendResponse p])
  else
    (s, [])

/-- The two functions as a machine over the parser's calls. -/
def serverFSM : Fsm Server Call Action where
  step := serverStep wild

end Server

/-- `sendResponse`: the packet it builds. `held` is what the array `responseData`
points to holds, or what is at address zero. -/
def outPacket (held : Option ResponseData → Nat → UInt8) (r : PacketResponse) (p : Packet) :
    List UInt8 :=
  let packetLen := UInt8.ofNat (r.responseDataLen + packetHeaderSize + 1)
  let body := [startByte1, startByte2, p.msgType ||| 1, p.seqNumber, packetLen] ++
    (List.range r.responseDataLen).map (held r.responseData)
  body ++ [crc8 body]

/-! ## Parser and server together -/

/-- The state of the command interface. -/
structure Interface where
  handler : CommsHandler
  server : Server

/-- After `initCommsHandler`. -/
def Interface.init (raw : Vector UInt8 64) : Interface := ⟨.init raw, .reset⟩

section Interface

variable (behind : CommsHandler → Nat → UInt8) (wild : Packet → Server → Server)

/-- `runCommsFSM` with the functions it calls, one byte. -/
def interfaceStep (o : Interface) (data : UInt8) : Interface × List Action :=
  if o.server.running then
    let parsed := commsStep behind o.handler data
    (⟨parsed.1, (serverFSM wild).after o.server parsed.2⟩,
      (serverFSM wild).outputs o.server parsed.2)
  else
    (o, [])

/-- The command interface as a machine over bytes. -/
def interfaceFSM : Fsm Interface UInt8 Action where
  step := interfaceStep behind wild

/-- The packet a byte completes: `runPacket` is called with it. -/
def Dispatches (o : Interface) (data : UInt8) (p : Packet) : Prop :=
  o.server.running = true ∧ Call.runPacket p ∈ (commsStep behind o.handler data).2

end Interface

/-! ## What the parser keeps in its buffer -/

/-- What holds of the handler in each state whatever was received, a left-over five
included. -/
inductive BufferInv (h : CommsHandler) : Prop
  | idle (state : h.state = .waitingForStart1)
  | started (state : h.state = .waitingForStart2) (first : h.packetBuffer[0] = startByte1)
  | header (state : h.state = .waitingForHeader) (index : h.packetIdx = 2 ∨ h.packetIdx = 3)
      (first : h.packetBuffer[0] = startByte1) (second : h.packetBuffer[1] = startByte2)
  | data (state : h.state = .waitingForData) (low : 4 ≤ h.packetIdx) (high : h.packetIdx < 63)
      (first : h.packetBuffer[0] = startByte1) (second : h.packetBuffer[1] = startByte2)
  | crc (state : h.state = .waitingForCrc)
      (index : h.packetIdx = 4 ∨
        5 ≤ h.packetIdx ∧ h.packetIdx ≤ 63 ∧ h.packetIdx + 1 = h.packetLen.toNat)
      (first : h.packetBuffer[0] = startByte1) (second : h.packetBuffer[1] = startByte2)

section BufferInv

variable {behind : CommsHandler → Nat → UInt8} {h : CommsHandler} {data : UInt8}

/-- **One byte** keeps the invariant. -/
theorem bufferInv_next (inv : BufferInv h) : BufferInv (commsStep behind h data).1 := by
  cases inv with
  | idle state =>
      rw [step_start1 state]
      split
      · rename_i start
        exact .started rfl ((h.store_getElem data (by omega)).trans start)
      · exact .idle state
  | started state first =>
      rw [step_start2 state]
      split
      · rename_i start
        refine .header rfl (.inl rfl) ?_ ((h.store_getElem data (by omega)).trans start)
        exact (h.store_kept data (by omega) (by omega)).trans first
      · exact .idle rfl
  | header state index first second =>
      have first' : (h.push data).packetBuffer[0] = startByte1 :=
        (h.store_kept data (by omega) (by omega)).trans first
      have second' : (h.push data).packetBuffer[1] = startByte2 :=
        (h.store_kept data (by omega) (by omega)).trans second
      rcases index with two | three
      · rw [step_header_two state two]
        exact .header state (.inr (by simp [two])) first' second'
      · rw [step_header_three state three]
        split
        · exact .crc rfl (.inl (by simp [three])) first' second'
        · exact .data rfl (by simp [three]) (by simp [three]) first' second'
  | data state low high first second =>
      have first' : (h.push data).packetBuffer[0] = startByte1 :=
        (h.store_kept data (by omega) (by omega)).trans first
      have second' : (h.push data).packetBuffer[1] = startByte2 :=
        (h.store_kept data (by omega) (by omega)).trans second
      rw [step_data state (by omega)]
      split
      · rename_i last
        exact .crc rfl (.inr ⟨by simp; omega, by simp; omega, last⟩) first' second'
      · split
        · exact .idle rfl
        · exact .data state (by simp; omega) (by simp; omega) first' second'
  | crc state =>
      rw [step_crc state]
      exact .idle rfl

/-- The parser's calls, if it makes any. -/
theorem commsStep_calls (behind : CommsHandler → Nat → UInt8) (h : CommsHandler) (data : UInt8) :
    (commsStep behind h data).2 = [] ∨
      (h.state = .waitingForCrc ∧
        checkPacket ((h.store h.packetIdx data).packet behind) = true ∧
        (commsStep behind h data).2 =
          [.runPacket ((h.store h.packetIdx data).packet behind),
            .sendResponse ((h.store h.packetIdx data).packet behind)]) := by
  by_cases crc : h.state = .waitingForCrc
  · rw [step_crc crc]
    generalize (h.store h.packetIdx data).packet behind = p
    by_cases checked : checkPacket p = true
    · exact .inr ⟨crc, checked, if_pos checked⟩
    · exact .inl (if_neg checked)
  · exact .inl (emit_eq_nil crc)

/-- Bytes keep the invariant, also with the functions called. -/
theorem interface_bufferInv {wild : Packet → Server → Server} {o : Interface}
    (inv : BufferInv o.handler) (data : UInt8) :
    BufferInv ((interfaceFSM behind wild).next o data).handler := by
  show BufferInv (interfaceStep behind wild o data).1.handler
  unfold interfaceStep
  split
  · exact bufferInv_next inv
  · exact inv

/-- Bytes that complete no packet only move the parser. -/
theorem interface_silent {wild : Packet → Server → Server} {o : Interface}
    (running : o.server.running = true) {xs : List UInt8}
    (silent : (commsFSM behind).outputs o.handler xs = []) :
    (interfaceFSM behind wild).after o xs = ⟨(commsFSM behind).after o.handler xs, o.server⟩ := by
  induction xs generalizing o with
  | nil => rfl
  | cons x xs ih =>
      rw [Fsm.outputs_cons, List.append_eq_nil_iff] at silent
      have none : (commsStep behind o.handler x).2 = [] := silent.1
      have step : (interfaceFSM behind wild).next o x =
          ⟨(commsFSM behind).next o.handler x, o.server⟩ := by
        show (interfaceStep behind wild o x).1 = _
        simp only [interfaceStep, running, if_true, none, Fsm.after_nil]
        rfl
      rw [Fsm.after_cons, step, ih (o := ⟨(commsFSM behind).next o.handler x, o.server⟩) running
        silent.2]
      rfl

end BufferInv

/-! ## What is done for a packet -/

section Found

variable {behind : CommsHandler → Nat → UInt8} {wild : Packet → Server → Server}
  {o : Interface} {data : UInt8} {p : Packet} {r : PacketResponse}

/-- The packet is the parser's view, and it passed the check. -/
theorem Dispatches.view (dispatches : Dispatches behind o data p) :
    o.handler.state = .waitingForCrc ∧
      p = (o.handler.store o.handler.packetIdx data).packet behind ∧ checkPacket p = true ∧
      (commsStep behind o.handler data).2 = [.runPacket p, .sendResponse p] := by
  obtain ⟨-, member⟩ := dispatches
  rcases commsStep_calls behind o.handler data with
    silent | ⟨state, checked, calls⟩
  · rw [silent] at member
    cases member
  · rw [calls] at member
    obtain rfl : p = (o.handler.store o.handler.packetIdx data).packet behind := by
      simpa using member
    exact ⟨state, rfl, checked, calls⟩

/-- A view that passes the check is dispatched. -/
theorem dispatches_of_checked (running : o.server.running = true)
    (state : o.handler.state = .waitingForCrc)
    (view : (o.handler.store o.handler.packetIdx data).packet behind = p)
    (checked : checkPacket p = true) : Dispatches behind o data p := by
  refine ⟨running, ?_⟩
  rw [step_crc state, view, if_pos checked]
  exact List.mem_cons_self

/-- What is done for the packet. -/
theorem Dispatches.emit (dispatches : Dispatches behind o data p) (entry : p.entry = some r) :
    (interfaceFSM behind wild).emit o data = (runEntry r p o.server).2 ++
      if (runEntry r p o.server).1.running then [.sendResponse p] else [] := by
  have running := dispatches.1
  obtain ⟨-, -, -, calls⟩ := dispatches.view
  have run : serverStep wild o.server (.runPacket p) = runEntry r p o.server := by
    simp only [serverStep, running, if_true, runPacket, entry]
  have send : (serverStep wild (runEntry r p o.server).1 (.sendResponse p)).2 =
      if (runEntry r p o.server).1.running then [.sendResponse p] else [] := by
    unfold serverStep
    split <;> rfl
  show (interfaceStep behind wild o data).2 = _
  simp only [interfaceStep, running, if_true, calls, Fsm.outputs_cons, Fsm.outputs_nil, Fsm.emit,
    Fsm.next, serverFSM, run, send, List.append_nil]

/-- The callback is given what the copy left in the buffer. -/
theorem Dispatches.found (dispatches : Dispatches behind o data p) (entry : p.entry = some r)
    {callback : Callback} {inputData : Mem UInt8} :
    Action.callback callback inputData ∈ (interfaceFSM behind wild).emit o data ↔
      r.callback = some callback ∧ inputData = copyInput r p o.server.inputBuf := by
  rw [dispatches.emit entry, List.mem_append]
  constructor
  · rintro (called | sent)
    · unfold runEntry at called
      split at called
      · rename_i known
        simp only [List.mem_singleton, Action.callback.injEq] at called
        rw [called.1, called.2]
        exact ⟨known, rfl⟩
      · cases called
    · split at sent
      · simp at sent
      · cases sent
  · rintro ⟨known, rfl⟩
    left
    simp [runEntry, known]

end Found

end OlympusFirmware.Olympus

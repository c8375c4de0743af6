import OlympusFirmware.Hephaestus.Comms
import OlympusFirmware.Hermes.Comms
import OlympusFirmware.Janus.Comms
import OlympusFirmware.Olympus.InputData
import OlympusFirmware.SlaveLib.Exchange

/-!
# Requests to the submodules (`olympus/drivers/hermes.c`, `hephaestus.c`, `janus.c`, ...)

Each request function is one call of `messageSubmodule` with a module, a type, the
data to send and the number of bytes to receive, and something it then does with the
status and what was received. What it prints on an error is left out.

Three of them are called for commands of the host. A value crosses two encodings on
its way: little-endian in the host's packet, high byte first on SPI.
-/

namespace OlympusFirmware.Olympus

open OlympusFirmware.Lib OlympusFirmware.SlaveLib
open OlympusFirmware.MasterBoot (Module)

/-- `COMMS_OK`. -/
def commsOk : UInt8 := 0xAA
/-- `FNR_INVALID`. -/
def fnrInvalid : UInt8 := 3

/-- The master's copies: `hermesData`, `hephaestusData`, `janusData`. -/
structure SubmoduleData where
  speed : List UInt8
  aman : UInt8
  steerPot : List UInt8
  steerSpeed : List UInt8
  brakePot : List UInt8
  fnr : UInt8

/-- A call of `messageSubmodule` and what follows it. -/
structure Request where
  module : Module
  msgType : UInt8
  txData : List UInt8
  rxSize : Nat
  /-- what is done with the status and the received bytes -/
  store : UInt8 → List UInt8 → SubmoduleData → SubmoduleData

/-- What is sent before the wait. -/
def Request.bytes (r : Request) : List UInt8 := commsStartByte :: r.msgType :: r.txData

/-- A request that only wants the status. -/
def statusRequestTo (module : Module) : Request := ⟨module, 0, [], 0, fun _ _ d => d⟩

/-- A request for two bytes, which are copied if the status is good. -/
def halfRequest (module : Module) (msgType : UInt8)
    (copy : List UInt8 → SubmoduleData → SubmoduleData) : Request :=
  ⟨module, msgType, [], 2, fun status received d =>
    if status = commsOk then copy received d else d⟩

/-! ## Hermes -/

/-- `getHermesStatus`. -/
def getHermesStatus : Request := statusRequestTo .hermes

/-- `updateHermesAutoman`. -/
def updateHermesAutoman : Request :=
  ⟨.hermes, 1, [], 1, fun status received d =>
    let message := received.headD 0
    if status = commsOk ∧ message ≤ 1 then { d with aman := message } else d⟩

/-- `updateHermesSpeed`. -/
def updateHermesSpeed : Request :=
  halfRequest .hermes 2 fun received d => { d with speed := received }

/-- `updateHermesSetSpeedTarget`. -/
def updateHermesSetSpeedTarget (speedTargetMMs : UInt16) : Request :=
  ⟨.hermes, 5, [(speedTargetMMs >>> 8).toUInt8, speedTargetMMs.toUInt8], 0, fun _ _ d => d⟩

/-- `commsSetSpeed`. -/
def commsSetSpeed (data : Mem UInt8) : Request :=
  updateHermesSetSpeedTarget ((data 1).toUInt16 <<< 8 ||| (data 0).toUInt16)

/-! ## Hephaestus -/

/-- `getHephaestusStatus`. -/
def getHephaestusStatus : Request := statusRequestTo .hephaestus

/-- `setHephaestusSteering`. -/
def setHephaestusSteering (angle : UInt8) : Request :=
  ⟨.hephaestus, 1, [angle], 0, fun _ _ d => d⟩

/-- `commsSetSteering`. -/
def commsSetSteering (data : Mem UInt8) : Request := setHephaestusSteering (data 0)

/-- `getHephaestusSteerPot`. -/
def getHephaestusSteerPot : Request :=
  halfRequest .hephaestus 2 fun received d => { d with steerPot := received }

/-- `getHephaestusSteerSpeed`. -/
def getHephaestusSteerSpeed : Request :=
  halfRequest .hephaestus 3 fun received d => { d with steerSpeed := received }

/-- `getHephaestusBrakePot`. -/
def getHephaestusBrakePot : Request :=
  halfRequest .hephaestus 5 fun received d => { d with brakePot := received }

/-! ## Janus -/

/-- `getJanusStatus`. -/
def getJanusStatus : Request := statusRequestTo .janus

/-- `setFNR`. -/
def setFNR (state : UInt8) : Request := ⟨.janus, 2, [state], 0, fun _ _ d => d⟩

/-- `commsSetFNR`. -/
def commsSetFNR (data : Mem UInt8) : Request := setFNR (data 0)

/-- `updateFNR`. -/
def updateFNR : Request :=
  ⟨.janus, 1, [], 1, fun status received d =>
    let message := received.headD 0
    if status = commsOk ∧ message ≤ 2 then { d with fnr := message }
    else { d with fnr := fnrInvalid }⟩

/-! ## Apollo and Zeus -/

/-- `getApolloStatus`. -/
def getApolloStatus : Request := statusRequestTo .apollo

/-- `getZeusStatus`. -/
def getZeusStatus : Request := statusRequestTo .zeus

/-! ## Commands -/

/-- A request, delivered to a slave between messages: the slave after it, the one
status it writes back and what it does to its device. It stays between messages when
the status is received, unless the byte sent meanwhile is the start byte. -/
structure Executes {δ ε : Type} (msgResp : UInt8 → MsgInfo δ ε) (c : Comms δ) (r : Request)
    (c' : Comms δ) (status : UInt8) (device : List ε) : Prop where
  after : (SlaveLib.commsFSM msgResp).after c r.bytes = c'
  idle : c'.Idle
  status : statuses ((SlaveLib.commsFSM msgResp).outputs c r.bytes) = [status]
  device : effects ((SlaveLib.commsFSM msgResp).outputs c r.bytes) = device
  stays : ∀ dummy, dummy ≠ commsStartByte →
    ((SlaveLib.commsFSM msgResp).after c (r.bytes ++ [dummy])).Idle

/-- A request whose callback returns is executed, with its data in the buffer. -/
theorem executes_of_returns {δ ε : Type} (msgResp : UInt8 → MsgInfo δ ε) (r : Request)
    (status : UInt8) (device : List ε) {c : Comms δ} (idle : c.Idle)
    {callback : Mem UInt8 → δ → CallResult δ ε} (fits : Fits msgResp r.msgType r.txData)
    (nonempty : r.txData ≠ []) (known : (msgResp r.msgType).callback = some callback)
    (call : ∀ buff, buff.load 0 r.txData.length = r.txData →
      (callback buff c.prog).status = some status ∧
      (callback buff c.prog).outputs = device.map .device) :
    ∃ c' buff, Mem.load buff 0 r.txData.length = r.txData ∧
      c'.prog = (callback buff c.prog).prog ∧ Executes msgResp c r c' status device := by
  obtain ⟨c₁, prog, running, -, loaded, reached, emitted⟩ :=
    feed_request msgResp idle fits known
  rw [← prog] at call ⊢
  obtain ⟨returns, acts⟩ := call c₁.buff loaded
  have silent : acknowledged (ε := ε) r.msgType r.txData = [] :=
    if_neg fun both => nonempty both.2
  rw [runCallback_returns msgResp returns] at reached emitted
  rw [silent, acts] at emitted
  generalize settled : { c₁ with
    buff := (callback c₁.buff c₁.prog).buff, prog := (callback c₁.buff c₁.prog).prog
    state := .startByte } = c' at reached
  have idle' : c'.Idle := by
    rw [← settled]
    exact ⟨running, rfl⟩
  refine ⟨c', c₁.buff, loaded, by rw [← settled], reached, idle', ?_, ?_, ?_⟩
  · rw [Request.bytes, emitted]
    simp
  · rw [Request.bytes, emitted]
    simp [effects]
  · intro dummy other
    have inert : Inert msgResp [dummy] := other
    obtain ⟨c'', after, idle'', -⟩ := feed_inert msgResp [dummy] inert idle'
    rw [Fsm.after_append, Request.bytes, reached, after]
    exact idle''

/-- The bytes sent for a speed: the two it was put together from, the high one first. -/
theorem commsSetSpeed_txData (data : Mem UInt8) :
    (commsSetSpeed data).txData = [data 1, data 0] := by
  have low := (data 0).toNat_lt
  have high := (data 1).toNat_lt
  have sum : (data 1).toNat * 2 ^ 8 ||| (data 0).toNat = (data 1).toNat * 256 + (data 0).toNat := by
    rw [Nat.mul_comm, ← Nat.two_pow_add_eq_or_of_lt (by omega)]
    omega
  have word : ((data 1).toUInt16 <<< 8 ||| (data 0).toUInt16).toNat =
      (data 1).toNat * 256 + (data 0).toNat := by
    simp only [UInt16.toNat_or, UInt16.toNat_shiftLeft, UInt8.toNat_toUInt16,
      UInt16.reduceToNat, Nat.shiftLeft_eq, Nat.reduceMod]
    rw [Nat.mod_eq_of_lt (by omega), sum]
  simp only [commsSetSpeed, updateHermesSetSpeedTarget, List.cons.injEq, and_true,
    ← UInt8.toNat_inj, UInt16.toNat_toUInt8, UInt16.toNat_shiftRight, word, UInt16.reduceToNat,
    Nat.reduceMod, Nat.shiftRight_eq_div_pow]
  omega

/-- **Hermes** takes the nearest speed to the given one that its throttle takes. -/
theorem hermes_sets_speed {c : Comms Hermes.Vars} (idle : c.Idle) (data : Mem UInt8) :
    ∃ c', Executes Hermes.hermes.msgResp c (commsSetSpeed data) c' wrOk [] ∧
      c'.prog.throttle.goalSpeed.toInt = min (leValue (data.load 0 2)) 4095 := by
  have sent := commsSetSpeed_txData data
  obtain ⟨c', buff, loaded, prog, executes⟩ := executes_of_returns Hermes.hermes.msgResp
    (commsSetSpeed data) wrOk [] idle
    ⟨show ¬ numMsgs ≤ 0x05 by decide, Option.some_ne_none _, rfl⟩ (List.cons_ne_nil _ _) rfl
    (fun _ _ => ⟨rfl, rfl⟩)
  refine ⟨c', executes, ?_⟩
  rw [sent] at loaded
  obtain ⟨first, second⟩ : buff 0 = data 1 ∧ buff 1 = data 0 := by
    simpa [Mem.load, List.range_succ] using loaded
  have value : leValue (data.load 0 2) = 256 * (data 1).toNat + (data 0).toNat := by
    simp [Mem.load, List.range_succ, leValue]
    omega
  rw [prog, value]
  show (Hermes.setSpeedTarget (buff 0) (buff 1) c.prog.throttle).goalSpeed.toInt = _
  rw [Hermes.goalSpeed_setSpeedTarget, first, second]

/-- **Hephaestus** takes the target of an angle in range and refuses any other. -/
theorem hephaestus_sets_steering {c : Comms Hephaestus.Vars} (idle : c.Idle) (data : Mem UInt8) :
    ∃ c', Executes Hephaestus.hephaestus.msgResp c (commsSetSteering data) c'
        (if 45 ≤ data 0 ∧ data 0 ≤ 125 then wrOk else wrErrInvArg) [] ∧
      c'.prog.targetSteerValue.toNat =
        if 45 ≤ data 0 ∧ data 0 ≤ 125 then 11 * (data 0).toNat + 580
        else c.prog.targetSteerValue.toNat := by
  have angle : ∀ buff : Mem UInt8, buff.load 0 1 = [data 0] → buff 0 = data 0 := by
    intro buff loaded
    simpa [Mem.load] using loaded
  have refused : (Hephaestus.maxRightDeg < data 0 ∨ data 0 < Hephaestus.maxLeftDeg) ↔
      ¬ (45 ≤ data 0 ∧ data 0 ≤ 125) := by
    simp only [Hephaestus.maxRightDeg, Hephaestus.maxLeftDeg]
    rw [not_and_or, UInt8.not_le, UInt8.not_le, or_comm]
  have call : ∀ buff : Mem UInt8, buff.load 0 1 = [data 0] →
      Hephaestus.setSteerCallback buff c.prog =
        if 45 ≤ data 0 ∧ data 0 ≤ 125 then
          ⟨some wrOk, buff, Hephaestus.setSteerTarget (data 0) c.prog, []⟩
        else ⟨some wrErrInvArg, buff, c.prog, []⟩ := by
    intro buff loaded
    rw [Hephaestus.setSteerCallback, angle buff loaded, if_congr refused rfl rfl, ite_not]
  obtain ⟨c', buff, loaded, prog, executes⟩ := executes_of_returns Hephaestus.hephaestus.msgResp
    (commsSetSteering data) (if 45 ≤ data 0 ∧ data 0 ≤ 125 then wrOk else wrErrInvArg) [] idle
    ⟨show ¬ numMsgs ≤ 0x01 by decide, Option.some_ne_none _, rfl⟩ (List.cons_ne_nil _ _) rfl
    (by
      intro buff loaded
      rw [call buff loaded]
      split <;> exact ⟨rfl, rfl⟩)
  refine ⟨c', executes, ?_⟩
  rw [prog, call buff loaded]
  split
  · exact Hephaestus.degToPot_toNat (data 0)
  · rfl

/-- **Janus** drives the pins of a state it accepts and nothing for any other. -/
theorem janus_sets_fnr {c : Comms Janus.Vars} (idle : c.Idle) (data : Mem UInt8) :
    ∃ c', Executes Janus.janus.msgResp c (commsSetFNR data) c'
        (if Janus.Accepted (data 0) then wrOk else wrErrInvArg)
        (if Janus.Accepted (data 0) then Janus.setFNR (data 0) else []) := by
  have call : ∀ buff : Mem UInt8, buff.load 0 1 = [data 0] →
      Janus.setFnrCallback buff c.prog =
        if Janus.Accepted (data 0) then
          ⟨some wrOk, buff, c.prog, (Janus.setFNR (data 0)).map .device⟩
        else ⟨some wrErrInvArg, buff, c.prog, []⟩ := by
    intro buff loaded
    have state : buff 0 = data 0 := by simpa [Mem.load] using loaded
    rw [Janus.setFnrCallback_spec, state]
  obtain ⟨c', buff, loaded, prog, executes⟩ := executes_of_returns Janus.janus.msgResp
    (commsSetFNR data) (if Janus.Accepted (data 0) then wrOk else wrErrInvArg)
    (if Janus.Accepted (data 0) then Janus.setFNR (data 0) else []) idle
    ⟨show ¬ numMsgs ≤ 0x02 by decide, Option.some_ne_none _, rfl⟩ (List.cons_ne_nil _ _) rfl
    (by
      intro buff loaded
      rw [call buff loaded]
      split <;> exact ⟨rfl, rfl⟩)
  exact ⟨c', executes⟩

/-! ## From the packet to the actuator -/

/-- What is between header and checksum. -/
def Packet.payload (p : Packet) : List UInt8 := (p.bytes.drop 5).take (p.packetLen.toNat - 6)

/-- The callbacks that are called, each with its input. -/
def calledBack (actions : List Action) : List (Callback × Mem UInt8) :=
  actions.filterMap fun
    | .callback callback inputData => some (callback, inputData)
    | .sendResponse _ => none

section Packets

variable {behind : CommsHandler → Nat → UInt8} {wild : Packet → Server → Server}
  {o : Interface} {data : UInt8} {p : Packet}

variable (behind wild) in
/-- The byte has one callback called, once and with this input. -/
def CallsOnce (o : Interface) (data : UInt8) (callback : Callback) (inputData : Mem UInt8) : Prop :=
  calledBack ((interfaceFSM behind wild).emit o data) = [(callback, inputData)]

variable (wild) in
/-- A packet that brings what its command reads: the command is called once, with the
start of the payload. -/
theorem calls_with_payload (dispatches : Dispatches behind o data p) {r : PacketResponse}
    (entry : p.entry = some r) {callback : Callback} (known : r.callback = some callback)
    (enough : r.inputDataLen ≤ p.payload.length) (reads : 0 < r.inputDataLen) :
    ∃ inputData, CallsOnce behind wild o data callback inputData ∧
      inputData.load 0 r.inputDataLen = p.payload.take r.inputDataLen := by
  have long : r.inputDataLen + 6 ≤ p.packetLen.toNat := by
    rw [Packet.payload, List.length_take] at enough
    omega
  refine ⟨copyInput r p o.server.inputBuf, ?_, ?_⟩
  · have run : (runEntry r p o.server).2 =
        [.callback callback (copyInput r p o.server.inputBuf)] := by
      simp only [runEntry, known]
    rw [CallsOnce, dispatches.emit entry, run]
    split <;> rfl
  · rw [load_copyInput_bytes entry (.inr long), Packet.payload, List.take_take,
      Nat.min_eq_left (by omega)]

variable (wild) in
/-- A command that reads one byte finds the first of the payload. -/
theorem calls_with_byte (dispatches : Dispatches behind o data p) {r : PacketResponse}
    (entry : p.entry = some r) {callback : Callback} (known : r.callback = some callback)
    (one : r.inputDataLen = 1) {byte : UInt8} {rest : List UInt8}
    (payload : p.payload = byte :: rest) :
    ∃ inputData, CallsOnce behind wild o data callback inputData ∧ inputData 0 = byte := by
  obtain ⟨inputData, once, loaded⟩ := calls_with_payload wild dispatches entry known
    (by rw [payload, one]; exact Nat.le_add_left 1 rest.length) (by rw [one]; decide)
  rw [payload, one] at loaded
  exact ⟨inputData, once, (List.cons.inj loaded).1⟩

variable (wild) in
/-- **Actuator commands arrive unchanged.** Let a packet be dispatched. With type
`0x1A` and two payload bytes, Hermes is sent the speed they spell and takes the nearest
one up to 4095; with type `0x14` and one, Hephaestus takes the target of the angle if it
is in range and refuses it otherwise; with type `0x12` and one, Janus drives the pins of
the state if it is one and nothing otherwise. Each time the slave, between messages
before, is between messages after. -/
theorem actuator_commands_arrive (dispatches : Dispatches behind o data p) :
    (p.msgType = 0x1A → ∀ b₀ b₁ rest, p.payload = b₀ :: b₁ :: rest →
      ∃ inputData, CallsOnce behind wild o data .commsSetSpeed inputData ∧
        (commsSetSpeed inputData).module = .hermes ∧
        ∀ c : Comms Hermes.Vars, c.Idle →
          ∃ c', Executes Hermes.hermes.msgResp c (commsSetSpeed inputData) c' wrOk [] ∧
            c'.prog.throttle.goalSpeed.toInt = min (b₀.toNat + 256 * b₁.toNat) 4095) ∧
    (p.msgType = 0x14 → ∀ a rest, p.payload = a :: rest →
      ∃ inputData, CallsOnce behind wild o data .commsSetSteering inputData ∧
        (commsSetSteering inputData).module = .hephaestus ∧
        ∀ c : Comms Hephaestus.Vars, c.Idle →
          ∃ c', Executes Hephaestus.hephaestus.msgResp c (commsSetSteering inputData) c'
              (if 45 ≤ a ∧ a ≤ 125 then wrOk else wrErrInvArg) [] ∧
            c'.prog.targetSteerValue.toNat =
              if 45 ≤ a ∧ a ≤ 125 then 11 * a.toNat + 580
              else c.prog.targetSteerValue.toNat) ∧
    (p.msgType = 0x12 → ∀ s rest, p.payload = s :: rest →
      ∃ inputData, CallsOnce behind wild o data .commsSetFNR inputData ∧
        (commsSetFNR inputData).module = .janus ∧
        ∀ c : Comms Janus.Vars, c.Idle →
          ∃ c' device, Executes Janus.janus.msgResp c (commsSetFNR inputData) c'
              (if Janus.Accepted s then wrOk else wrErrInvArg) device ∧
            (∀ pins : Janus.Pins, pins.writes device =
              if Janus.Accepted s then Janus.pinsOf s else pins) ∧
            (¬ Janus.Accepted s → device = [])) := by
  refine ⟨?_, ?_, ?_⟩
  · intro type b₀ b₁ rest payload
    have entry : p.entry = some response[13] := by
      rw [Packet.entry, Packet.packetType, type]
      rfl
    obtain ⟨inputData, once, loaded⟩ := calls_with_payload wild dispatches entry rfl
      (by rw [payload]; exact Nat.le_add_left 2 rest.length) (by decide)
    refine ⟨inputData, once, rfl, ?_⟩
    intro c idle
    obtain ⟨c', executes, goal⟩ := hermes_sets_speed idle inputData
    refine ⟨c', executes, ?_⟩
    rw [goal, show inputData.load 0 2 = [b₀, b₁] by rw [payload] at loaded; exact loaded]
    simp [leValue]
  · intro type a rest payload
    have entry : p.entry = some response[10] := by
      rw [Packet.entry, Packet.packetType, type]
      rfl
    obtain ⟨inputData, once, angle⟩ := calls_with_byte wild dispatches entry rfl rfl payload
    refine ⟨inputData, once, rfl, ?_⟩
    intro c idle
    rw [← angle]
    exact hephaestus_sets_steering idle inputData
  · intro type s rest payload
    have entry : p.entry = some response[9] := by
      rw [Packet.entry, Packet.packetType, type]
      rfl
    obtain ⟨inputData, once, state⟩ := calls_with_byte wild dispatches entry rfl rfl payload
    refine ⟨inputData, once, rfl, ?_⟩
    intro c idle
    obtain ⟨c', executes⟩ := janus_sets_fnr idle inputData
    rw [state] at executes
    refine ⟨c', _, executes, ?_, fun other => if_neg other⟩
    intro pins
    by_cases accepted : Janus.Accepted s
    · rw [if_pos accepted, if_pos accepted, Janus.pins_setFNR accepted]
    · rw [if_neg accepted, if_neg accepted]
      rfl

end Packets

/-- The interface before the checksum of a command to steer to 90 degrees. -/
def beforeNinety : Interface :=
  (interfaceFSM (fun _ _ => 0) (fun _ s => s)).after (.init (Vector.replicate 64 0))
    [0xF0, 0x5A, 0x14, 0x00, 0x07, 0x5A]

/-- It reaches Hephaestus, which takes the target 1570. -/
theorem ninety_degrees_arrive :
    ∃ inputData c', CallsOnce (fun _ _ => 0) (fun _ s => s) beforeNinety 0xCD .commsSetSteering
        inputData ∧
      Executes Hephaestus.hephaestus.msgResp (.reset .reset) (commsSetSteering inputData) c'
        wrOk [] ∧
      c'.prog.targetSteerValue.toNat = 1570 := by
  have dispatches : Dispatches (fun _ _ => 0) beforeNinety 0xCD _ :=
    dispatches_of_checked (by decide +kernel) (by decide +kernel) rfl (by decide +kernel)
  obtain ⟨inputData, once, -, arrives⟩ :=
    (actuator_commands_arrive (fun _ s => s) dispatches).2.1 (by decide +kernel) 0x5A []
      (by decide +kernel)
  obtain ⟨c', executes, target⟩ := arrives (.reset .reset) ⟨rfl, rfl⟩
  exact ⟨inputData, c', once, executes, target⟩

end OlympusFirmware.Olympus

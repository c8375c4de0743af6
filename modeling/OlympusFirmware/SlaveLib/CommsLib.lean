import OlympusFirmware.Lib.Fsm
import OlympusFirmware.Lib.Mem

/-!
# Message reception on the slaves (`slave_lib/drivers/commsLib.c`)

All slave programs, the applications and the bootloader, link the same byte
machine: a start byte, a message type, and as many data bytes as the program's
table `msgResp` gives for the type; then the table's callback runs and its status
is written back. The machine is generic in the program: `δ` is the program's
static state and `ε` what its callbacks do to the device.

A callback may never return: it resets the processor or jumps to another
program. Its result then has no status, and the machine stops. The functions
around a callback (`pauseInterruptingPeripherals`, `restoreInterruptingPeripherals`)
are weak symbols that no program defines.
-/

namespace OlympusFirmware.SlaveLib

open OlympusFirmware.Lib

/-- `COMMS_START_BYTE`. -/
def commsStartByte : UInt8 := 0xEA
/-- `NUM_MSGS`. -/
def numMsgs : UInt8 := 11
/-- `BOOT_MSG`. -/
def bootMsg : UInt8 := 0x0A
/-- `WR_ERR`. -/
def wrErr : UInt8 := 0x05
/-- `WR_ERR_INV_ARG`. -/
def wrErrInvArg : UInt8 := 0x08
/-- `WR_OK`. -/
def wrOk : UInt8 := 0xAA

/-- `commState_t`. -/
inductive CommState
  | startByte | msgType | data
deriving DecidableEq

/-- What the machine does: it clears the interrupt line, calls a callback with
the buffer, writes a response; the program's own effects come in between. -/
inductive CommsOutput (ε : Type)
  | clearSPIInt
  | callback (msgType : UInt8) (buff : Mem UInt8)
  | writeResponse (status : UInt8) (data : List UInt8)
  | device (effect : ε)

/-- What calling a callback comes to. There is no status if it does not return. -/
structure CallResult (δ ε : Type) where
  status : Option UInt8
  buff : Mem UInt8
  prog : δ
  outputs : List (CommsOutput ε)

/-- `msgInfo_t`. -/
structure MsgInfo (δ ε : Type) where
  rxDataLength : UInt8
  txDataLength : UInt8
  callback : Option (Mem UInt8 → δ → CallResult δ ε)

/-- The static variables of `runCommsFSM`, with the program's and whether it
still runs. -/
structure Comms (δ : Type) where
  state : CommState
  dataSize : UInt8
  dataIdx : UInt8
  msgType : UInt8
  buff : Mem UInt8
  prog : δ
  running : Bool

/-- The state at reset, with the program's at `prog`. -/
def Comms.reset {δ : Type} (prog : δ) : Comms δ where
  state := .startByte
  dataSize := 0
  dataIdx := 0
  msgType := 0
  buff := fun _ => 0
  prog := prog
  running := true

section Step

variable {δ ε : Type} (msgResp : UInt8 → MsgInfo δ ε)

/-- Call the callback of the message and write back its status. -/
def runCallback (c : Comms δ) (callback : Mem UInt8 → δ → CallResult δ ε) :
    Comms δ × List (CommsOutput ε) :=
  let result := callback c.buff c.prog
  let called := CommsOutput.callback c.msgType c.buff :: result.outputs
  match result.status with
  | some status =>
      ({ c with buff := result.buff, prog := result.prog, state := .startByte },
        called ++ [.writeResponse status
          (result.buff.load 0 (msgResp c.msgType).txDataLength.toNat)])
  | none => ({ c with buff := result.buff, prog := result.prog, running := false }, called)

/-- `case MSG_TYPE`. -/
def runMsgType (c : Comms δ) (byte : UInt8) : Comms δ × List (CommsOutput ε) :=
  if numMsgs ≤ byte then ({ c with state := .startByte }, [])
  else
    let c := { c with msgType := byte, dataSize := (msgResp byte).rxDataLength }
    match (msgResp byte).callback with
    | none => ({ c with state := .startByte }, [])
    | some callback =>
        if c.dataSize = 0 then
          let result := runCallback msgResp c callback
          -- the response to the boot message cannot wait for its callback
          (result.1, (if byte = bootMsg then [.writeResponse wrOk []] else []) ++ result.2)
        else
          ({ c with dataIdx := 0, state := .data }, [])

/-- `case DATA`. -/
def runDataByte (c : Comms δ) (byte : UInt8) : Comms δ × List (CommsOutput ε) :=
  let c := { c with buff := c.buff.store c.dataIdx.toNat [byte], dataIdx := c.dataIdx + 1 }
  if c.dataIdx = c.dataSize then
    match (msgResp c.msgType).callback with
    | some callback => runCallback msgResp c callback
    -- not reached: the type was checked when it came in
    | none => ({ c with running := false }, [])
  else
    (c, [])

/-- `runCommsFSM(byte)`. -/
def commsStep (c : Comms δ) (byte : UInt8) : Comms δ × List (CommsOutput ε) :=
  if c.running then
    match c.state with
    | .startByte =>
        ({ c with state := if byte = commsStartByte then .msgType else .startByte },
          [.clearSPIInt])
    | .msgType => runMsgType msgResp c byte
    | .data => runDataByte msgResp c byte
  else
    (c, [])

/-- Message reception as a machine. -/
def commsFSM : Fsm (Comms δ) UInt8 (CommsOutput ε) where
  step := commsStep msgResp

end Step

/-- The statuses written back, in order. -/
def statuses {ε : Type} (outputs : List (CommsOutput ε)) : List UInt8 :=
  outputs.filterMap fun
    | .writeResponse status _ => some status
    | _ => none

section Statuses

variable {ε : Type} (rest : List (CommsOutput ε))

@[simp] theorem statuses_nil : statuses ([] : List (CommsOutput ε)) = [] := rfl

@[simp] theorem statuses_append (first : List (CommsOutput ε)) :
    statuses (first ++ rest) = statuses first ++ statuses rest := List.filterMap_append

@[simp] theorem statuses_clearSPIInt : statuses (.clearSPIInt :: rest) = statuses rest := rfl

@[simp] theorem statuses_callback (msgType : UInt8) (buff : Mem UInt8) :
    statuses (.callback msgType buff :: rest) = statuses rest := rfl

@[simp] theorem statuses_writeResponse (status : UInt8) (data : List UInt8) :
    statuses (.writeResponse status data :: rest) = status :: statuses rest := rfl

@[simp] theorem statuses_device (effect : ε) :
    statuses (.device effect :: rest) = statuses rest := rfl

@[simp] theorem statuses_map_device (effects : List ε) :
    statuses (effects.map .device) = [] := by
  induction effects with
  | nil => rfl
  | cons effect effects ih => exact ih

end Statuses

/-! ## One byte -/

section Steps

variable {δ ε : Type} (msgResp : UInt8 → MsgInfo δ ε) {c : Comms δ}

theorem commsStep_stopped (stopped : c.running ≠ true) (byte : UInt8) :
    commsStep msgResp c byte = (c, []) := if_neg stopped

/-- Between messages. -/
structure Comms.Idle (c : Comms δ) : Prop where
  running : c.running = true
  state : c.state = .startByte

theorem commsStep_start (idle : c.Idle) (byte : UInt8) :
    commsStep msgResp c byte =
      ({ c with state := if byte = commsStartByte then .msgType else .startByte },
        [.clearSPIInt]) := by
  rw [commsStep, if_pos idle.running, idle.state]

theorem commsStep_msgType (running : c.running = true) (state : c.state = .msgType)
    (byte : UInt8) : commsStep msgResp c byte = runMsgType msgResp c byte := by
  rw [commsStep, if_pos running, state]

theorem commsStep_data (running : c.running = true) (state : c.state = .data) (byte : UInt8) :
    commsStep msgResp c byte = runDataByte msgResp c byte := by
  rw [commsStep, if_pos running, state]

/-- What the machine knows while it collects data: the type has a callback, and
the size is the one of its table entry. -/
def Comms.Wf (c : Comms δ) : Prop :=
  c.state = .data →
    (msgResp c.msgType).callback ≠ none ∧ c.dataSize = (msgResp c.msgType).rxDataLength

variable {msgResp} in
theorem Comms.wf_of_ne (other : c.state ≠ .data) : c.Wf msgResp :=
  fun collecting => absurd collecting other

/-- A byte that runs no callback. -/
def Quiet (c : Comms δ) (result : Comms δ × List (CommsOutput ε)) : Prop :=
  result.1.prog = c.prog ∧ result.1.running = c.running ∧ result.1.Wf msgResp ∧
    (result.2 = [] ∨ result.2 = [.clearSPIInt])

/-- A byte that runs the callback of the message it completes. -/
def Calls (c : Comms δ) (result : Comms δ × List (CommsOutput ε)) : Prop :=
  ∃ (c₁ : Comms δ) (callback : _) (first : List (CommsOutput ε)),
    (msgResp c₁.msgType).callback = some callback ∧ c₁.prog = c.prog ∧ c₁.running = true ∧
      c₁.Wf msgResp ∧ (first = [] ∨ first = [.writeResponse wrOk []]) ∧
      result = ((runCallback msgResp c₁ callback).1,
        first ++ (runCallback msgResp c₁ callback).2)

/-- A callback that returns: its status is written back. -/
theorem runCallback_returns {callback : Mem UInt8 → δ → CallResult δ ε} {status : UInt8}
    (returns : (callback c.buff c.prog).status = some status) :
    runCallback msgResp c callback =
      ({ c with
          buff := (callback c.buff c.prog).buff
          prog := (callback c.buff c.prog).prog
          state := .startByte },
        .callback c.msgType c.buff :: (callback c.buff c.prog).outputs ++
          [.writeResponse status ((callback c.buff c.prog).buff.load 0
            (msgResp c.msgType).txDataLength.toNat)]) := by
  simp only [runCallback, returns]

/-- A callback that does not return. -/
theorem runCallback_leaves {callback : Mem UInt8 → δ → CallResult δ ε}
    (leaves : (callback c.buff c.prog).status = none) :
    runCallback msgResp c callback =
      ({ c with
          buff := (callback c.buff c.prog).buff
          prog := (callback c.buff c.prog).prog
          running := false },
        .callback c.msgType c.buff :: (callback c.buff c.prog).outputs) := by
  simp only [runCallback, leaves]

/-- A callback leaves the machine well formed. -/
theorem runCallback_wf {callback : Mem UInt8 → δ → CallResult δ ε} (wf : c.Wf msgResp) :
    (runCallback msgResp c callback).1.Wf msgResp := by
  cases status : (callback c.buff c.prog).status with
  | some value =>
      rw [runCallback_returns msgResp status]
      intro collecting
      cases collecting
  | none =>
      rw [runCallback_leaves msgResp status]
      exact wf

/-- The type byte of a message without callback, or out of the table. -/
theorem runMsgType_unknown {byte : UInt8}
    (unknown : numMsgs ≤ byte ∨ (msgResp byte).callback = none) :
    ∃ dataSize msgType, runMsgType msgResp c byte =
      ({ c with state := .startByte, dataSize := dataSize, msgType := msgType }, []) := by
  by_cases outside : numMsgs ≤ byte
  · exact ⟨c.dataSize, c.msgType, if_pos outside⟩
  · refine ⟨(msgResp byte).rxDataLength, byte, ?_⟩
    simp only [runMsgType, if_neg outside, unknown.resolve_left outside]

/-- The type byte of a message without data. -/
theorem runMsgType_short {byte : UInt8} {callback : Mem UInt8 → δ → CallResult δ ε}
    (inside : ¬ numMsgs ≤ byte) (known : (msgResp byte).callback = some callback)
    (short : (msgResp byte).rxDataLength = 0) :
    runMsgType msgResp c byte =
      ((runCallback msgResp { c with msgType := byte, dataSize := 0 } callback).1,
        (if byte = bootMsg then [.writeResponse wrOk []] else []) ++
          (runCallback msgResp { c with msgType := byte, dataSize := 0 } callback).2) := by
  simp only [runMsgType, if_neg inside, known, short, if_true]

/-- The type byte of a message with data. -/
theorem runMsgType_long {byte : UInt8} {callback : Mem UInt8 → δ → CallResult δ ε}
    (inside : ¬ numMsgs ≤ byte) (known : (msgResp byte).callback = some callback)
    (long : (msgResp byte).rxDataLength ≠ 0) :
    runMsgType msgResp c byte =
      ({ c with
          msgType := byte, dataSize := (msgResp byte).rxDataLength, dataIdx := 0
          state := .data }, []) := by
  simp only [runMsgType, if_neg inside, known, if_neg long]

/-- A data byte is stored. -/
def Comms.collect (c : Comms δ) (byte : UInt8) : Comms δ :=
  { c with buff := c.buff.store c.dataIdx.toNat [byte], dataIdx := c.dataIdx + 1 }

/-- The bytes collected so far are at the start of the buffer. -/
theorem Comms.load_collect (c : Comms δ) (byte : UInt8) :
    (c.collect byte).buff.load 0 (c.dataIdx.toNat + 1) =
      c.buff.load 0 c.dataIdx.toNat ++ [byte] := by
  have grown := c.buff.load_store_behind 0 c.dataIdx.toNat [byte]
  rw [Nat.zero_add] at grown
  exact grown

theorem runDataByte_more {byte : UInt8} (more : c.dataIdx + 1 ≠ c.dataSize) :
    runDataByte msgResp c byte = (c.collect byte, []) := if_neg more

theorem runDataByte_last {byte : UInt8} {callback : Mem UInt8 → δ → CallResult δ ε}
    (last : c.dataIdx + 1 = c.dataSize) (known : (msgResp c.msgType).callback = some callback) :
    runDataByte msgResp c byte = runCallback msgResp (c.collect byte) callback := by
  simp only [runDataByte, if_pos last, known]
  rfl

/-- A type byte is quiet or completes a message. -/
theorem runMsgType_cases (c : Comms δ) (byte : UInt8) (state : c.state = .msgType)
    (running : c.running = true) :
    Quiet msgResp c (runMsgType msgResp c byte) ∨ Calls msgResp c (runMsgType msgResp c byte) := by
  by_cases outside : numMsgs ≤ byte
  · obtain ⟨dataSize, msgType, result⟩ := runMsgType_unknown msgResp (c := c) (.inl outside)
    rw [result]
    exact .inl ⟨rfl, rfl, Comms.wf_of_ne (by simp), .inl rfl⟩
  cases known : (msgResp byte).callback with
  | none =>
      obtain ⟨dataSize, msgType, result⟩ := runMsgType_unknown msgResp (c := c) (.inr known)
      rw [result]
      exact .inl ⟨rfl, rfl, Comms.wf_of_ne (by simp), .inl rfl⟩
  | some callback =>
      by_cases short : (msgResp byte).rxDataLength = 0
      · rw [runMsgType_short msgResp outside known short]
        refine .inr ⟨{ c with msgType := byte, dataSize := 0 }, callback, _, known, rfl, running,
          Comms.wf_of_ne (by simp [state]), ?_, rfl⟩
        split
        · exact .inr rfl
        · exact .inl rfl
      · rw [runMsgType_long msgResp outside known short]
        exact .inl ⟨rfl, rfl, fun _ => ⟨by simp [known], rfl⟩, .inl rfl⟩

/-- A data byte is quiet or completes a message. -/
theorem runDataByte_cases (c : Comms δ) (byte : UInt8) (state : c.state = .data)
    (running : c.running = true) (wf : c.Wf msgResp) :
    Quiet msgResp c (runDataByte msgResp c byte) ∨
      Calls msgResp c (runDataByte msgResp c byte) := by
  by_cases last : c.dataIdx + 1 = c.dataSize
  · obtain ⟨callback, known⟩ := Option.ne_none_iff_exists'.mp (wf state).1
    rw [runDataByte_last msgResp last known]
    exact .inr ⟨c.collect byte, callback, [], known, rfl, running, wf, .inl rfl, rfl⟩
  · rw [runDataByte_more msgResp last]
    exact .inl ⟨rfl, rfl, wf, .inl rfl⟩

/-- **One byte** of a running machine is quiet or completes one message. -/
theorem commsStep_cases (running : c.running = true) (wf : c.Wf msgResp) (byte : UInt8) :
    Quiet msgResp c (commsStep msgResp c byte) ∨ Calls msgResp c (commsStep msgResp c byte) := by
  cases state : c.state with
  | startByte =>
      rw [commsStep_start msgResp ⟨running, state⟩]
      refine .inl ⟨rfl, rfl, Comms.wf_of_ne ?_, .inr rfl⟩
      by_cases start : byte = commsStartByte <;> simp [start]
  | msgType =>
      rw [commsStep_msgType msgResp running state]
      exact runMsgType_cases msgResp c byte state running
  | data =>
      rw [commsStep_data msgResp running state]
      exact runDataByte_cases msgResp c byte state running wf

/-- What every callback preserves of the program's variables, every byte preserves. -/
theorem commsStep_preserves {I : δ → Prop}
    (callbacks : ∀ msgType callback buff prog, (msgResp msgType).callback = some callback →
      I prog → I (callback buff prog).prog)
    (wf : c.Wf msgResp) (inv : I c.prog) (byte : UInt8) :
    (commsStep msgResp c byte).1.Wf msgResp ∧ I (commsStep msgResp c byte).1.prog := by
  by_cases running : c.running = true
  case neg =>
    rw [commsStep_stopped msgResp running]
    exact ⟨wf, inv⟩
  rcases commsStep_cases msgResp running wf byte with quiet | calls
  · obtain ⟨prog, -, wf', -⟩ := quiet
    exact ⟨wf', prog ▸ inv⟩
  · obtain ⟨c₁, callback, first, known, prog, -, wf₁, -, result⟩ := calls
    have kept : I (callback c₁.buff c₁.prog).prog :=
      callbacks c₁.msgType callback c₁.buff c₁.prog known (prog ▸ inv)
    rw [result]
    refine ⟨runCallback_wf msgResp wf₁, ?_⟩
    cases status : (callback c₁.buff c₁.prog).status with
    | some value => rwa [runCallback_returns msgResp status]
    | none => rwa [runCallback_leaves msgResp status]

end Steps

/-! ## One message -/

section Messages

variable {δ ε : Type} (msgResp : UInt8 → MsgInfo δ ε) {c : Comms δ}

/-- The start byte and the type byte of a message. -/
theorem feed_type (idle : c.Idle) (msgType : UInt8) (rest : List UInt8) :
    (commsFSM msgResp).after c (commsStartByte :: msgType :: rest) =
        (commsFSM msgResp).after (runMsgType msgResp { c with state := .msgType } msgType).1 rest ∧
      (commsFSM msgResp).outputs c (commsStartByte :: msgType :: rest) =
        .clearSPIInt :: (runMsgType msgResp { c with state := .msgType } msgType).2 ++
          (commsFSM msgResp).outputs
            (runMsgType msgResp { c with state := .msgType } msgType).1 rest := by
  have start : (commsFSM msgResp).step c commsStartByte = _ := commsStep_start msgResp idle _
  rw [if_pos rfl] at start
  have type : (commsFSM msgResp).step { c with state := .msgType } msgType = _ :=
    commsStep_msgType msgResp (c := { c with state := .msgType }) idle.running rfl msgType
  simp [Fsm.next, Fsm.emit, start, type]

/-- A type without callback gets no response. -/
theorem feed_unknown (idle : c.Idle) {msgType : UInt8}
    (unknown : numMsgs ≤ msgType ∨ (msgResp msgType).callback = none) :
    ∃ c', (commsFSM msgResp).after c [commsStartByte, msgType] = c' ∧ c'.Idle ∧
      c'.prog = c.prog ∧
      (commsFSM msgResp).outputs c [commsStartByte, msgType] = [.clearSPIInt] := by
  obtain ⟨dataSize, kind, result⟩ :=
    runMsgType_unknown msgResp (c := { c with state := .msgType }) unknown
  obtain ⟨reached, emitted⟩ := feed_type msgResp idle msgType []
  rw [reached, emitted, result]
  exact ⟨_, rfl, ⟨idle.running, rfl⟩, rfl, rfl⟩

/-- A message without data runs its callback on its type byte. -/
theorem feed_short (idle : c.Idle) {msgType : UInt8}
    {callback : Mem UInt8 → δ → CallResult δ ε} (inside : ¬ numMsgs ≤ msgType)
    (known : (msgResp msgType).callback = some callback)
    (short : (msgResp msgType).rxDataLength = 0) :
    ∃ c₁ : Comms δ, c₁.prog = c.prog ∧ c₁.running = true ∧ c₁.msgType = msgType ∧
      (commsFSM msgResp).after c [commsStartByte, msgType] =
        (runCallback msgResp c₁ callback).1 ∧
      (commsFSM msgResp).outputs c [commsStartByte, msgType] =
        .clearSPIInt :: (if msgType = bootMsg then [.writeResponse wrOk []] else []) ++
          (runCallback msgResp c₁ callback).2 := by
  obtain ⟨reached, emitted⟩ := feed_type msgResp idle msgType []
  rw [reached, emitted, runMsgType_short msgResp inside known short]
  exact ⟨{ c with state := .msgType, msgType := msgType, dataSize := 0 }, rfl, idle.running, rfl,
    rfl, by simp⟩

/-- The data bytes, by induction on those still to come. -/
theorem feed_data {callback : Mem UInt8 → δ → CallResult δ ε} (rest : List UInt8) :
    ∀ (byte : UInt8) (c : Comms δ), c.running = true → c.state = .data →
    (msgResp c.msgType).callback = some callback →
    c.dataIdx.toNat + rest.length + 1 = c.dataSize.toNat →
    ∃ c₁ : Comms δ, c₁.prog = c.prog ∧ c₁.running = true ∧ c₁.msgType = c.msgType ∧
      c₁.buff.load 0 c.dataSize.toNat = c.buff.load 0 c.dataIdx.toNat ++ byte :: rest ∧
      (commsFSM msgResp).after c (byte :: rest) = (runCallback msgResp c₁ callback).1 ∧
      (commsFSM msgResp).outputs c (byte :: rest) = (runCallback msgResp c₁ callback).2 := by
  induction rest with
  | nil =>
      intro byte c running state known size
      have last : c.dataIdx + 1 = c.dataSize := by
        have small := c.dataSize.toNat_lt
        simp only [List.length_nil] at size
        rw [← UInt8.toNat_inj, UInt8.toNat_add]
        simp only [UInt8.reduceToNat]
        omega
      have step : (commsFSM msgResp).step c byte = runCallback msgResp (c.collect byte) callback :=
        (commsStep_data msgResp running state byte).trans (runDataByte_last msgResp last known)
      refine ⟨c.collect byte, rfl, running, rfl, ?_, ?_, ?_⟩
      · rw [← size]
        exact c.load_collect byte
      · simp [Fsm.next, step]
      · simp [Fsm.emit, step]
  | cons next rest ih =>
      intro byte c running state known size
      have small := c.dataSize.toNat_lt
      simp only [List.length_cons] at size
      have advanced : (c.dataIdx + 1).toNat = c.dataIdx.toNat + 1 := by
        rw [UInt8.toNat_add]
        simp only [UInt8.reduceToNat]
        omega
      have more : c.dataIdx + 1 ≠ c.dataSize := by
        intro last
        have equal := congrArg UInt8.toNat last
        omega
      have step : (commsFSM msgResp).step c byte = (c.collect byte, []) :=
        (commsStep_data msgResp running state byte).trans (runDataByte_more msgResp more)
      obtain ⟨c₁, prog, running₁, type, bytes, reached, emitted⟩ :=
        ih next (c.collect byte) running state known (by simp only [Comms.collect, advanced]; omega)
      refine ⟨c₁, prog, running₁, type, ?_, ?_, ?_⟩
      · rw [show c.dataSize = (c.collect byte).dataSize from rfl, bytes,
          show (c.collect byte).dataIdx.toNat = c.dataIdx.toNat + 1 from advanced,
          c.load_collect byte, List.append_assoc]
        rfl
      · rw [Fsm.after_cons, Fsm.next, step, reached]
      · rw [Fsm.outputs_cons, Fsm.next, Fsm.emit, step, emitted, List.nil_append]

/-- A message with data runs its callback on its last byte, with the data at the
start of the buffer. -/
theorem feed_long (idle : c.Idle) {msgType : UInt8}
    {callback : Mem UInt8 → δ → CallResult δ ε} (inside : ¬ numMsgs ≤ msgType)
    (known : (msgResp msgType).callback = some callback) {data : List UInt8}
    (size : data.length = (msgResp msgType).rxDataLength.toNat) (nonempty : data ≠ []) :
    ∃ c₁ : Comms δ, c₁.prog = c.prog ∧ c₁.running = true ∧ c₁.msgType = msgType ∧
      c₁.buff.load 0 data.length = data ∧
      (commsFSM msgResp).after c (commsStartByte :: msgType :: data) =
        (runCallback msgResp c₁ callback).1 ∧
      (commsFSM msgResp).outputs c (commsStartByte :: msgType :: data) =
        .clearSPIInt :: (runCallback msgResp c₁ callback).2 := by
  obtain ⟨byte, rest, rfl⟩ := List.exists_cons_of_ne_nil nonempty
  have long : (msgResp msgType).rxDataLength ≠ 0 := by
    intro zero
    rw [zero] at size
    simp at size
  -- the type byte sets up the collection, from index 0
  obtain ⟨reached', emitted'⟩ := feed_type msgResp idle msgType (byte :: rest)
  rw [runMsgType_long msgResp inside known long] at reached' emitted'
  obtain ⟨c₁, prog, running, kind, bytes, reached, emitted⟩ := feed_data msgResp rest byte
    { c with
      msgType := msgType, dataSize := (msgResp msgType).rxDataLength, dataIdx := 0
      state := .data } idle.running rfl known (by simpa using size)
  refine ⟨c₁, prog, running, kind, ?_, ?_, ?_⟩
  · rw [size]
    simpa using bytes
  · exact reached'.trans reached
  · rw [emitted', emitted]
    rfl

end Messages

end OlympusFirmware.SlaveLib

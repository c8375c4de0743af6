import OlympusFirmware.SlaveBoot.Comms

/-!
# The slaves' bootloader, message by message

Each byte completes no message or one (`slaveBootStep_cases`), so the static
variables and the device's operations of a byte stream are those of the messages
it completes, whatever else the stream holds. In the other direction the bytes of
any message, sent to an idle machine, complete that message (`feed_message`).
-/

namespace OlympusFirmware.SlaveBoot

open OlympusFirmware.Lib OlympusFirmware.SlaveLib

@[simp] theorem messages_nil : messages [] = [] := rfl

@[simp] theorem messages_append (xs ys : List (CommsOutput FlashOp)) :
    messages (xs ++ ys) = messages xs ++ messages ys := List.filterMap_append

theorem messages_callback {msgType : UInt8} {buff : Mem UInt8} {message : Message}
    (reads : readMessage msgType buff = some message) (rest : List (CommsOutput FlashOp)) :
    messages (.callback msgType buff :: rest) = message :: messages rest :=
  List.filterMap_cons_some reads

@[simp] theorem flashOps_nil : flashOps [] = [] := rfl

@[simp] theorem flashOps_append (xs ys : List (CommsOutput FlashOp)) :
    flashOps (xs ++ ys) = flashOps xs ++ flashOps ys := List.filterMap_append

@[simp] theorem flashOps_clearSPIInt (rest : List (CommsOutput FlashOp)) :
    flashOps (.clearSPIInt :: rest) = flashOps rest := rfl

@[simp] theorem flashOps_callback (msgType : UInt8) (buff : Mem UInt8)
    (rest : List (CommsOutput FlashOp)) :
    flashOps (.callback msgType buff :: rest) = flashOps rest := rfl

@[simp] theorem flashOps_writeResponse (status : UInt8) (data : List UInt8)
    (rest : List (CommsOutput FlashOp)) :
    flashOps (.writeResponse status data :: rest) = flashOps rest := rfl

@[simp] theorem flashOps_map_device (ops : List FlashOp) :
    flashOps (ops.map .device) = ops := by
  induction ops with
  | nil => rfl
  | cons op ops ih => exact congrArg (op :: ·) ih

theorem messages_map_device (ops : List FlashOp) : messages (ops.map .device) = [] := by
  induction ops with
  | nil => rfl
  | cons op ops ih => exact ih

/-- Handling a message calls no callback. -/
theorem messages_handle (message : Message) (b : Bootloader) :
    messages (handle message b).outputs = [] := by
  cases message with
  | getStatus => rfl
  | header size key =>
      simp only [handle, writeHeader]
      split
      · rfl
      · exact messages_map_device _
  | data chunk =>
      simp only [handle, writeData]
      split
      · rfl
      · split <;> exact messages_map_device _
  | checksum hostChecksum =>
      simp only [handle, runChecksum]
      split
      · rfl
      · split <;> rfl

/-- The byte completes a message, and its callback runs. -/
structure Handles (c c' : Comms Bootloader) (message : Message)
    (outputs : List (CommsOutput FlashOp)) : Prop where
  ran : c.running = true
  received : messages outputs = [message]
  effects : flashOps outputs = flashOps (handle message c.prog).outputs
  prog : c'.prog = (handle message c.prog).boot
  running : c'.running = (handle message c.prog).status.isSome
  idle : c'.running = true → c'.Idle

/-- The byte completes no message. -/
structure Waits (c c' : Comms Bootloader) (outputs : List (CommsOutput FlashOp)) : Prop where
  received : messages outputs = []
  replied : statuses outputs = []
  effects : flashOps outputs = []
  prog : c'.prog = c.prog
  running : c'.running = c.running

/-- A callback handles the message in the buffer. -/
theorem runCallback_handles {c : Comms Bootloader} (running : c.running = true)
    {call : Mem UInt8 → Bootloader → CallResult Bootloader FlashOp}
    (known : (msgResp c.msgType).callback = some call) :
    ∃ message, Handles c (runCallback msgResp c call).1 message
      (runCallback msgResp c call).2 := by
  obtain ⟨read, rfl, reads⟩ := msgResp_callback known
  have silent := messages_handle (read c.buff) c.prog
  have called := messages_callback (reads c.buff)
  refine ⟨read c.buff, ?_⟩
  cases status : (handle (read c.buff) c.prog).status with
  | some value =>
      have result : runCallback msgResp c (callback read) = _ := runCallback_returns msgResp status
      rw [result]
      refine ⟨running, ?_, ?_, rfl, ?_, fun runs => ⟨runs, rfl⟩⟩
      · rw [List.cons_append, called, messages_append]
        exact congrArg (read c.buff :: · ++ []) silent
      · simp [callback]
      · simp [running, status]
  | none =>
      have result : runCallback msgResp c (callback read) = _ := runCallback_leaves msgResp status
      rw [result]
      refine ⟨running, ?_, ?_, rfl, ?_, fun runs => by cases runs⟩
      · rw [called]
        exact congrArg (read c.buff :: ·) silent
      · simp [callback]
      · simp [status]

/-- **One byte** of the bootloader completes no message, or one. -/
theorem slaveBootStep_cases {c : Comms Bootloader} (wf : c.Wf msgResp) (byte : UInt8) :
    (slaveBootFSM.next c byte).Wf msgResp ∧
      (Waits c (slaveBootFSM.next c byte) (slaveBootFSM.emit c byte) ∨
        ∃ message, Handles c (slaveBootFSM.next c byte) message (slaveBootFSM.emit c byte)) := by
  have step : slaveBootFSM.step c byte = commsStep msgResp c byte := rfl
  rw [Fsm.next, Fsm.emit, step]
  by_cases running : c.running = true
  swap
  · rw [commsStep_stopped msgResp running]
    exact ⟨wf, .inl ⟨rfl, rfl, rfl, rfl, rfl⟩⟩
  rcases commsStep_cases msgResp running wf byte with
    ⟨prog, runs, wf', silent⟩ | ⟨c₁, call, first, known, prog, running₁, wf₁, quiet, result⟩
  · refine ⟨wf', .inl ?_⟩
    rcases silent with nothing | cleared
    · rw [nothing]
      exact ⟨rfl, rfl, rfl, prog, runs⟩
    · rw [cleared]
      exact ⟨rfl, rfl, rfl, prog, runs⟩
  · -- `c₁` is the machine with the byte stored, as the callback finds it
    obtain ⟨message, handles⟩ := runCallback_handles running₁ known
    rw [result]
    refine ⟨runCallback_wf msgResp wf₁, .inr ⟨message, running, ?_, ?_, ?_, ?_, handles.idle⟩⟩
    · rcases quiet with rfl | rfl <;> exact handles.received
    · rw [← prog]
      rcases quiet with rfl | rfl <;> exact handles.effects
    · rw [← prog]
      exact handles.prog
    · rw [← prog]
      exact handles.running

/-! ## The bytes of a message -/

/-- The data bytes of a message. -/
def Message.payload : Message → List UInt8
  | .getStatus => []
  | .header size key => wordBytes size ++ wordBytes key
  | .data chunk => chunk.1
  | .checksum hostChecksum => wordBytes hostChecksum

/-- Its type. -/
def Message.type : Message → UInt8
  | .getStatus => 0
  | .header _ _ => 1
  | .data _ => 2
  | .checksum _ => 3

/-- The message on the wire. -/
def Message.bytes (message : Message) : List UInt8 :=
  commsStartByte :: message.type :: message.payload

/-- The statuses a message is answered with: one. -/
def replies (handled : Handled) : List UInt8 :=
  statuses handled.outputs ++ handled.status.toList

/-- A buffer that starts with a message's data bytes is read as that message. -/
theorem readMessage_payload {message : Message} {buff : Mem UInt8}
    (bytes : buff.load 0 message.payload.length = message.payload) :
    readMessage message.type buff = some message := by
  cases message with
  | getStatus => rfl
  | header size key =>
      have halves : buff.load 0 4 = wordBytes size ∧ buff.load 4 4 = wordBytes key := by
        have split := buff.load_add 0 4 4
        rw [Nat.zero_add] at split
        simp only [Message.payload, List.length_append, length_wordBytes] at bytes
        rw [split] at bytes
        exact List.append_inj bytes (by simp)
      show some (Message.header (leWord (buff.load 0 4)) (leWord (buff.load 4 4))) = _
      rw [halves.1, halves.2, leWord_wordBytes, leWord_wordBytes]
  | data chunk =>
      show some (Message.data ⟨buff.load 0 64, _⟩) = _
      have same : buff.load 0 64 = chunk.1 := by
        simpa [Message.payload, chunk.2] using bytes
      simp only [same]
  | checksum hostChecksum =>
      have four : buff.load 0 4 = wordBytes hostChecksum := by
        simpa [Message.payload] using bytes
      have cells : buff.load 0 4 = [buff 0, buff 1, buff 2, buff 3] := rfl
      show some (Message.checksum _) = _
      rw [← leWord_eq_or, ← cells, four, leWord_wordBytes]

/-- What an idle machine does with a message's bytes. -/
structure Answered (c c' : Comms Bootloader) (message : Message)
    (outputs : List (CommsOutput FlashOp)) : Prop where
  received : messages outputs = [message]
  replied : statuses outputs = replies (handle message c.prog)
  effects : flashOps outputs = flashOps (handle message c.prog).outputs
  prog : c'.prog = (handle message c.prog).boot
  running : c'.running = (handle message c.prog).status.isSome
  idle : c'.running = true → c'.Idle

/-- The callback of a message that is in the buffer. -/
theorem answered_runCallback {c c₁ : Comms Bootloader} {message : Message}
    {call : Mem UInt8 → Bootloader → CallResult Bootloader FlashOp}
    (known : (msgResp message.type).callback = some call) (type : c₁.msgType = message.type)
    (prog : c₁.prog = c.prog) (running : c₁.running = true)
    (bytes : c₁.buff.load 0 message.payload.length = message.payload) :
    Answered c (runCallback msgResp c₁ call).1 message
      (.clearSPIInt :: (runCallback msgResp c₁ call).2) := by
  obtain ⟨read, rfl, reads⟩ := msgResp_callback known
  have meant : callback read c₁.buff c₁.prog = ⟨(handle message c.prog).status, c₁.buff,
      (handle message c.prog).boot, (handle message c.prog).outputs⟩ := by
    have here := reads c₁.buff
    rw [readMessage_payload bytes] at here
    rw [callback, ← Option.some.inj here, prog]
  have silent := messages_handle message c.prog
  have called : ∀ outputs, messages (.clearSPIInt :: .callback c₁.msgType c₁.buff :: outputs) =
      message :: messages outputs := by
    intro outputs
    rw [type]
    show messages (.callback message.type c₁.buff :: outputs) = _
    exact messages_callback (readMessage_payload bytes) outputs
  cases status : (handle message c.prog).status with
  | some value =>
      have result : runCallback msgResp c₁ (callback read) = _ :=
        runCallback_returns msgResp (by rw [meant]; exact status)
      rw [meant] at result
      rw [result]
      refine ⟨?_, ?_, ?_, rfl, ?_, fun runs => ⟨runs, rfl⟩⟩
      · rw [List.cons_append, called, messages_append, silent]
        rfl
      · simp [replies, status]
      · simp
      · simp [running, status]
  | none =>
      have result : runCallback msgResp c₁ (callback read) = _ :=
        runCallback_leaves msgResp (by rw [meant]; exact status)
      rw [meant] at result
      rw [result]
      refine ⟨?_, ?_, ?_, rfl, ?_, fun runs => by cases runs⟩
      · rw [called, silent]
      · simp [replies, status]
      · simp
      · simp [status]

/-- **A message on the wire** is answered by its callback. -/
theorem feed_message {c : Comms Bootloader} (idle : c.Idle) (message : Message) :
    Answered c (slaveBootFSM.after c message.bytes) message
      (slaveBootFSM.outputs c message.bytes) := by
  have inside : ¬ numMsgs ≤ message.type := by
    cases message <;> simp [Message.type, numMsgs]
  obtain ⟨call, known⟩ : ∃ call, (msgResp message.type).callback = some call := by
    cases message <;> exact ⟨_, rfl⟩
  -- only the status request has no data
  by_cases short : message.payload = []
  · have none : (msgResp message.type).rxDataLength = 0 ∧ message.type ≠ bootMsg := by
      cases message with
      | getStatus => exact ⟨rfl, by decide⟩
      | header size key => simp [Message.payload, wordBytes, leBytes] at short
      | data chunk =>
          have size := chunk.2
          rw [show chunk.1 = [] from short] at size
          cases size
      | checksum hostChecksum => simp [Message.payload, wordBytes, leBytes] at short
    obtain ⟨c₁, prog, running, type, reached, emitted⟩ :=
      feed_short msgResp idle inside known none.1
    rw [Message.bytes, short, slaveBootFSM, reached, emitted, if_neg none.2]
    exact answered_runCallback known type prog running (by rw [short]; rfl)
  · have size : message.payload.length = (msgResp message.type).rxDataLength.toNat := by
      cases message with
      | getStatus => exact absurd rfl short
      | header size key => simp [Message.payload, Message.type, msgResp]
      | data chunk => exact chunk.2
      | checksum hostChecksum => simp [Message.payload, Message.type, msgResp]
    obtain ⟨c₁, prog, running, type, bytes, reached, emitted⟩ :=
      feed_long msgResp idle inside known size short
    rw [Message.bytes, slaveBootFSM, reached, emitted]
    exact answered_runCallback known type prog running bytes

/-- Only the callback of a checksum message may not return. -/
theorem handle_returns {message : Message} (other : ∀ sum, message ≠ .checksum sum)
    (b : Bootloader) : (handle message b).status.isSome = true := by
  cases message with
  | getStatus => rfl
  | header size key =>
      simp only [handle, writeHeader]
      split <;> rfl
  | data chunk =>
      simp only [handle, writeData]
      split
      · rfl
      · split <;> rfl
  | checksum hostChecksum => exact absurd rfl (other hostChecksum)

/-- Messages one after the other, none of them a checksum. -/
theorem feed_messages (sent : List Message) :
    ∀ c : Comms Bootloader, c.Idle → (∀ sum, .checksum sum ∉ sent) →
    (slaveBootFSM.after c (sent.flatMap Message.bytes)).Idle ∧
      messages (slaveBootFSM.outputs c (sent.flatMap Message.bytes)) = sent := by
  induction sent with
  | nil =>
      intro c idle _
      exact ⟨idle, rfl⟩
  | cons message sent ih =>
      intro c idle others
      have answered := feed_message idle message
      have running := answered.running
      rw [handle_returns fun sum same => others sum (same ▸ List.mem_cons_self)] at running
      obtain ⟨idle', received⟩ := ih (slaveBootFSM.after c message.bytes) (answered.idle running)
        fun sum member => others sum (List.mem_cons_of_mem _ member)
      rw [List.flatMap_cons, Fsm.after_append, Fsm.outputs_append, messages_append,
        answered.received, received]
      exact ⟨idle', rfl⟩

end OlympusFirmware.SlaveBoot

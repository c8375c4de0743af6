import OlympusFirmware.MasterBoot.Boot
import OlympusFirmware.SlaveBoot.Progress

/-!
# A slave behind the link

A slave board holds two programs, its application and the bootloader, and runs one
of them. Both receive messages with the same byte machine, each with its own table.
The application's message `0x0A` resets the processor, and after a software reset
`slave_boot/main.c` stays in the bootloader; the bootloader's checksum message
jumps to the application. Either way all variables of the other program start
anew.

`messageSubmodule` is the link of the master's model to one such board: the start
byte, the type and the data are delivered exactly, and the first status written
back is what it returns; if none is, it times out.
-/

namespace OlympusFirmware.Update

open OlympusFirmware.Lib OlympusFirmware.SlaveLib OlympusFirmware.SlaveBoot
open OlympusFirmware.MasterBoot (Module Link)

/-- `COMMS_ERR_TIMEOUT`. -/
def commsErrTimeout : UInt8 := 0x05

section Callbacks

variable {δ ε : Type}

/-- `get_status_callback` of the applications. -/
def getStatusCallback (buff : Mem UInt8) (prog : δ) : CallResult δ ε := ⟨some wrOk, buff, prog, []⟩

/-- `bootload`: the reset does not return. -/
def bootload (buff : Mem UInt8) (prog : δ) : CallResult δ ε := ⟨none, buff, prog, []⟩

end Callbacks

/-- An application: its variables at start and its table, of which the first and
the last entry are the same in all of them. -/
structure Application (δ ε : Type) where
  start : δ
  msgResp : UInt8 → MsgInfo δ ε
  status : msgResp 0 = ⟨0, 0, some getStatusCallback⟩
  boot : msgResp bootMsg = ⟨0, 0, some bootload⟩

/-- The application of Zeus, which has these two entries only. -/
def zeus : Application Unit Empty where
  start := ()
  msgResp
    | 0 => ⟨0, 0, some getStatusCallback⟩
    -- 1 to 9 are unused
    | 10 => ⟨0, 0, some bootload⟩
    | _ => ⟨0, 0, none⟩
  status := rfl
  boot := rfl

/-- The program a slave runs, with its state. -/
inductive Slave (δ : Type)
  | application (c : Comms δ)
  | bootloader (c : Comms Bootloader)

/-- The two programs. -/
inductive Program
  | application | bootloader
deriving DecidableEq

/-- The program of a slave. -/
def Slave.program {δ : Type} : Slave δ → Program
  | .application _ => .application
  | .bootloader _ => .bootloader

/-- One exchange, as the board sees it: the program that received the message, its
type, the status written back if any, and what was done to the flash. -/
structure Exchange where
  program : Program
  msgType : UInt8
  reply : Option UInt8
  flash : List FlashOp
deriving DecidableEq

/-- A slave and its exchanges so far. -/
structure Board (δ : Type) where
  slave : Slave δ
  log : List Exchange

/-- All that was done to the flash. -/
def Board.flash {δ : Type} (board : Board δ) : List FlashOp := board.log.flatMap Exchange.flash

section Exchange

variable {δ ε : Type} (app : Application δ ε)

/-- The exchange a message leads to, and the slave after it. -/
def deliver (msgType : UInt8) (data : List UInt8) : Slave δ → Exchange × Slave δ
  | .application c =>
      let bytes := commsStartByte :: msgType :: data
      let after := (commsFSM app.msgResp).after c bytes
      (⟨.application, msgType, (statuses ((commsFSM app.msgResp).outputs c bytes)).head?, []⟩,
        if after.running then .application after else .bootloader (.reset .reset))
  | .bootloader c =>
      let bytes := commsStartByte :: msgType :: data
      let outputs := slaveBootFSM.outputs c bytes
      let after := slaveBootFSM.after c bytes
      (⟨.bootloader, msgType, (statuses outputs).head?, flashOps outputs⟩,
        if after.running then .bootloader after else .application (.reset app.start))

/-- `messageSubmodule`, with the board as module `self`. No other module is there. -/
def messageSubmodule (self : Module) : Link (Board δ) := fun module msgType data board =>
  if module = self then
    let result := deliver app msgType data board.slave
    (result.1.reply.getD commsErrTimeout, ⟨result.2, board.log ++ [result.1]⟩)
  else
    (commsErrTimeout, board)

/-- The link to the board itself. -/
theorem messageSubmodule_eq (self : Module) (msgType : UInt8) (data : List UInt8)
    (board : Board δ) :
    messageSubmodule app self self msgType data board =
      ((deliver app msgType data board.slave).1.reply.getD commsErrTimeout,
        ⟨(deliver app msgType data board.slave).2,
          board.log ++ [(deliver app msgType data board.slave).1]⟩) := if_pos rfl

theorem messageSubmodule_self (self : Module) (msgType : UInt8) (data : List UInt8)
    (board : Board δ) {exchange : Exchange} {slave : Slave δ}
    (delivered : deliver app msgType data board.slave = (exchange, slave)) :
    messageSubmodule app self self msgType data board =
      (exchange.reply.getD commsErrTimeout, ⟨slave, board.log ++ [exchange]⟩) := by
  rw [messageSubmodule_eq, delivered]

/-! ## The exchanges of an update -/

/-- The application answers a status request and goes on. -/
theorem deliver_status {c : Comms δ} (idle : c.Idle) :
    ∃ c', deliver app 0x00 [] (.application c) =
        (⟨.application, 0x00, some wrOk, []⟩, .application c') ∧ c'.Idle := by
  obtain ⟨c₁, -, running, -, reached, emitted⟩ := feed_short app.msgResp idle
    (show ¬ numMsgs ≤ 0x00 by decide) (congrArg MsgInfo.callback app.status)
    (congrArg MsgInfo.rxDataLength app.status)
  have result : runCallback app.msgResp c₁ getStatusCallback = _ :=
    runCallback_returns app.msgResp rfl
  rw [result] at reached emitted
  refine ⟨(commsFSM app.msgResp).after c [commsStartByte, 0x00], ?_, ?_⟩
  · simp [deliver, reached, emitted, running, bootMsg, getStatusCallback]
  · rw [reached]
    exact ⟨running, rfl⟩

/-- The application answers the boot message and resets into the bootloader. -/
theorem deliver_boot {c : Comms δ} (idle : c.Idle) :
    deliver app bootMsg [] (.application c) =
      (⟨.application, bootMsg, some wrOk, []⟩, .bootloader (.reset .reset)) := by
  obtain ⟨c₁, -, -, -, reached, emitted⟩ := feed_short app.msgResp idle
    (show ¬ numMsgs ≤ bootMsg by decide) (congrArg MsgInfo.callback app.boot)
    (congrArg MsgInfo.rxDataLength app.boot)
  -- the response is written before the callback, which does not return
  have result : runCallback app.msgResp c₁ bootload = _ := runCallback_leaves app.msgResp rfl
  rw [result] at reached emitted
  simp [deliver, reached, emitted]

/-- A message to the bootloader, in terms of its bytes. -/
theorem deliver_bytes (c : Comms Bootloader) (message : Message) :
    deliver app message.type message.payload (.bootloader c) =
      (⟨.bootloader, message.type, (statuses (slaveBootFSM.outputs c message.bytes)).head?,
          flashOps (slaveBootFSM.outputs c message.bytes)⟩,
        if (slaveBootFSM.after c message.bytes).running then
          .bootloader (slaveBootFSM.after c message.bytes)
        else .application (.reset app.start)) := rfl

/-- The bootloader's callback for a message returns. -/
theorem deliver_message {c : Comms Bootloader} (idle : c.Idle) {message : Message}
    {status : UInt8} {b : Bootloader} {ops : List FlashOp}
    (handled : handle message c.prog = ⟨some status, b, ops.map .device⟩) :
    ∃ c', deliver app message.type message.payload (.bootloader c) =
        (⟨.bootloader, message.type, some status, ops⟩, .bootloader c') ∧
      c'.Idle ∧ c'.prog = b := by
  obtain ⟨-, replied, effects, prog, running, stays⟩ := feed_message idle message
  rw [handled] at replied effects prog running
  rw [flashOps_map_device] at effects
  refine ⟨slaveBootFSM.after c message.bytes, ?_, stays running, prog⟩
  rw [deliver_bytes, replied, effects, if_pos (show _ = true from running)]
  simp [replies]

/-- The bootloader accepts a checksum and jumps to the application. -/
theorem deliver_jump {c : Comms Bootloader} (idle : c.Idle)
    (complete : c.prog.flashComplete = true) :
    deliver app 0x03 (wordBytes c.prog.checksum) (.bootloader c) =
      (⟨.bootloader, 0x03, some wrOk, [.jumpToApp]⟩, .application (.reset app.start)) := by
  obtain ⟨-, replied, effects, -, running, -⟩ := feed_message idle (.checksum c.prog.checksum)
  rw [handle_checksum_ops, if_pos ⟨complete, rfl⟩] at effects
  have accepts : handle (.checksum c.prog.checksum) c.prog =
      ⟨none, c.prog, [.writeResponse wrOk [], .device .jumpToApp]⟩ := by
    simp [handle, runChecksum, complete]
  rw [accepts] at replied running
  have delivered := deliver_bytes app c (.checksum c.prog.checksum)
  rw [replied, effects, running] at delivered
  exact delivered

end Exchange

end OlympusFirmware.Update

import OlympusFirmware.Lib.Fsm
import OlympusFirmware.Olympus.Buffer8

/-!
# The I2C driver (`olympus/peripherals/i2c.c`)

A ring of transactions, a byte queue with the data of those that send and a state machine in
the interrupt handlers for the one that runs. `serviceI2C`, called from the main loop, finishes
a transaction when the bus is free again, calls its callback and starts the next one.

The peripheral raises the events. What it does between them is the phase of the bus: it sends
START and raises SB; it sends the byte that is written to the data register and raises ADDR or
BTF, or AF if it is not acknowledged; it takes bytes from the slave into the data register and
the shift register, acknowledges them as ACK and POS say, takes none after one that it has not
acknowledged, and raises BTF when both registers are full. It sends STOP after the byte under
way and is no longer busy. A write to the data register drops received bytes. Bus errors come
while it is busy, and end the transfer. An event that the phase excludes does nothing.

The sizes in `config.h` are parameters. A callback with its parameters is a number, and the
program is inside it from the call to the event `ret`, so that it can add transactions.
-/

namespace OlympusFirmware.Olympus

open OlympusFirmware.Lib

/-! ## The peripheral -/

/-- `BusPhase.address` and `write` have the byte that is being sent. -/
inductive BusPhase
  | free
  | start
  | started
  | address (byte : UInt8)
  | write (byte : UInt8)
  | written
  | read
  | aborted
deriving DecidableEq

/-- The last bit of the address byte says who sends next. -/
def BusPhase.behindAddress (byte : UInt8) : BusPhase :=
  if byte &&& 1 = 0 then .written else .read

/-- The peripheral: the bits ACK, POS and STOP, the received bytes that have not been read
(data register, shift register), and the last one read. `nacked` says that the last byte
received was not acknowledged, `nackNext` what POS has in store for the next. -/
structure I2cBus where
  phase : BusPhase
  ack : Bool
  pos : Bool
  stop : Bool
  received : List UInt8
  last : UInt8
  nacked : Bool
  nackNext : Bool
deriving DecidableEq

/-- The BUSY flag. -/
def I2cBus.busy (b : I2cBus) : Bool := b.phase ≠ .free && b.phase ≠ .start

/-- A write to the data register. -/
def I2cBus.writeDr (b : I2cBus) (byte : UInt8) : I2cBus :=
  let phase := match b.phase with
    | .started => .address byte
    | .written => .write byte
    | phase => phase
  { b with phase, received := [] }

/-- A read of the data register. -/
def I2cBus.readDr (b : I2cBus) : UInt8 × I2cBus :=
  match b.received with
  | [] => (b.last, b)
  | byte :: rest => (byte, { b with received := rest, last := byte })

/-- A byte from the slave. -/
def I2cBus.receive (b : I2cBus) (byte : UInt8) : I2cBus :=
  { b with
    received := b.received ++ [byte]
    nacked := if b.pos then b.nackNext else !b.ack
    nackNext := !b.ack }

/-! ## The driver's data -/

/-- `I2C_TransferType`. -/
inductive I2cTransferType
  | tx
  | rx
deriving DecidableEq

/-- `I2CStatus`. -/
inductive I2cStatus
  | ack
  | nack
  | err
deriving DecidableEq

/-- `I2CTransaction`. -/
structure I2cTransaction where
  ready : Bool
  numBytes : UInt8
  addr : UInt8
  type : I2cTransferType
  callback : Option Nat
deriving DecidableEq

/-- The sizes in `config.h`. -/
structure I2cConfig where
  maxNumTransactions : Nat
  txBufSize : Nat
  rxBufSize : Nat
  positive : 0 < maxNumTransactions

/-- The variables of the transfer that runs, and the peripheral. -/
structure I2cTransfer where
  i2cRxDataBuffer : Mem UInt8
  i2cRxDataBufferIdx : Nat
  i2cTxNextTransferBuffer : Mem UInt8
  i2cTxNextTransferIdx : Nat
  shouldServiceI2C : Bool
  i2cStatus : I2cStatus
  i2cBytesLeft : UInt8
  bus : I2cBus

/-- All variables, and the transaction whose callback is running. -/
structure I2c where
  transactionList : Mem I2cTransaction
  i2cTxDataFifo : Buffer8
  freeTransaction : Nat
  nextTransaction : Nat
  i2cRunning : Bool
  transfer : I2cTransfer
  calling : Option Nat

/-- The arguments of `i2cAddTxTransaction` and `i2cAddRxTransaction`. -/
inductive I2cRequest
  | tx (addr : UInt8) (txData : List UInt8) (callback : Option Nat)
  | rx (addr : UInt8) (numBytes : Nat) (callback : Option Nat)
deriving DecidableEq

/-- What the peripheral can raise, and the end of STOP. -/
inductive BusEvent
  | sb
  | addr
  | btf
  | af
  | arlo
  | berr
  | byte (byte : UInt8)
  | stop
deriving DecidableEq

/-- What can happen. -/
inductive I2cEvent
  | add (r : I2cRequest)
  | service
  | ret
  | bus (e : BusEvent)
deriving DecidableEq

/-- What is seen: the result of adding a transaction, START, bytes, errors and STOP on the bus,
callbacks with what `rxData` points to, and that a transaction is taken off the list. -/
inductive I2cOutput
  | accepted (r : I2cRequest)
  | refused
  | started
  | sent (byte : UInt8)
  | received (byte : UInt8)
  | failed (status : I2cStatus)
  | stopped
  | txCallback (callback : Nat) (status : I2cStatus)
  | rxCallback (callback : Nat) (rxData : List UInt8) (numBytes : Nat) (status : I2cStatus)
  | finished
deriving DecidableEq

/-! ## The interrupt handlers -/

namespace I2cTransfer

/-- The next byte to the data register. -/
def sendByte (x : I2cTransfer) : I2cTransfer :=
  { x with
    bus := x.bus.writeDr (x.i2cTxNextTransferBuffer x.i2cTxNextTransferIdx)
    i2cTxNextTransferIdx := x.i2cTxNextTransferIdx + 1
    i2cBytesLeft := x.i2cBytesLeft - 1 }

/-- The STOP bit. -/
def setStop (x : I2cTransfer) : I2cTransfer :=
  { x with bus := { x.bus with stop := true }, shouldServiceI2C := true }

/-- The data register to the buffer. -/
def takeByte (x : I2cTransfer) : I2cTransfer :=
  { x with
    i2cRxDataBuffer := x.i2cRxDataBuffer.store x.i2cRxDataBufferIdx [x.bus.readDr.1]
    i2cRxDataBufferIdx := x.i2cRxDataBufferIdx + 1
    bus := x.bus.readDr.2 }

/-- `readI2CByte`. -/
def readI2CByte (x : I2cTransfer) : I2cTransfer :=
  let x :=
    if x.i2cBytesLeft = 3 then { x with bus := { x.bus with ack := false } }
    else if x.i2cBytesLeft = 2 then
      { x.setStop.takeByte with i2cBytesLeft := x.i2cBytesLeft - 1 }
    else x
  { x.takeByte with i2cBytesLeft := x.i2cBytesLeft - 1 }

/-- The first part of `I2C2_EV_IRQHandler`: the start bit is sent. -/
def startBitSent (t : I2cTransaction) (x : I2cTransfer) : I2cTransfer :=
  match t.type with
  | .tx => { x with bus := x.bus.writeDr (t.addr <<< 1 ||| 0) }
  | .rx => { x with bus := x.bus.writeDr (t.addr <<< 1 ||| 1) }

/-- The second part: the address is sent. -/
def addressSent (t : I2cTransaction) (x : I2cTransfer) : I2cTransfer :=
  match t.type with
  | .tx => if 0 < x.i2cBytesLeft then x.sendByte else x.setStop
  | .rx =>
      if x.i2cBytesLeft = 1 then
        let x := { x with i2cBytesLeft := x.i2cBytesLeft - 1 }
        { x with bus := { x.bus with ack := false } }.setStop
      else if x.i2cBytesLeft = 2 then
        { x with bus := { x.bus with ack := false, pos := true } }
      else x

/-- The third part: a byte transfer is finished. -/
def byteTransferFinished (t : I2cTransaction) (x : I2cTransfer) : I2cTransfer :=
  match t.type with
  | .tx => if 0 < x.i2cBytesLeft then x.sendByte else x.setStop
  | .rx => x.readI2CByte

/-- `I2C2_EV_IRQHandler`, with the flags it finds. -/
def evIrqHandler (t : I2cTransaction) (sb addr btf : Bool) (x : I2cTransfer) : I2cTransfer :=
  let x := if sb then x.startBitSent t else x
  let x := if addr then x.addressSent t else x
  if btf then x.byteTransferFinished t else x

/-- `I2C2_ER_IRQHandler`, with the flags it finds. -/
def erIrqHandler (af arlo berr : Bool) (x : I2cTransfer) : I2cTransfer :=
  let x := if af then { x with shouldServiceI2C := true, i2cStatus := .nack } else x
  let x := if arlo then { x with shouldServiceI2C := true, i2cStatus := .err } else x
  let x := if berr then { x with shouldServiceI2C := true, i2cStatus := .err } else x
  { x with bus := { x.bus with stop := true } }

/-- The peripheral goes to another phase. -/
def enter (x : I2cTransfer) (phase : BusPhase) : I2cTransfer :=
  { x with bus := { x.bus with phase } }

end I2cTransfer

open I2cTransfer in
/-- An event of the peripheral while this transaction runs, and the handler it calls. -/
def busStep (t : I2cTransaction) (x : I2cTransfer) : BusEvent → I2cTransfer × List I2cOutput
  | .sb =>
      if x.bus.phase = .start then
        let bus := { x.bus with phase := .started, nacked := false, nackNext := false }
        (evIrqHandler t true false false { x with bus }, [.started])
      else (x, [])
  | .addr =>
      match x.bus.phase with
      | .address byte =>
          (evIrqHandler t false true false (x.enter (.behindAddress byte)), [.sent byte])
      | _ => (x, [])
  | .btf =>
      match x.bus.phase with
      | .write byte => (evIrqHandler t false false true (x.enter .written), [.sent byte])
      -- the flag is up until STOP is sent
      | .written => (evIrqHandler t false false true x, [])
      | .read =>
          if x.bus.received.length = 2 then (evIrqHandler t false false true x, []) else (x, [])
      | _ => (x, [])
  | .af =>
      match x.bus.phase with
      | .address byte | .write byte =>
          (erIrqHandler true false false (x.enter .aborted), [.sent byte, .failed .nack])
      | _ => (x, [])
  | .arlo =>
      if x.bus.busy then (erIrqHandler false true false (x.enter .aborted), [.failed .err])
      else (x, [])
  | .berr =>
      if x.bus.busy then (erIrqHandler false false true (x.enter .aborted), [.failed .err])
      else (x, [])
  | .byte byte =>
      if x.bus.phase = .read ∧ x.bus.received.length < 2 ∧ x.bus.nacked = false then
        ({ x with bus := x.bus.receive byte }, [.received byte])
      else (x, [])
  | .stop =>
      if x.bus.stop = true ∧ (x.bus.phase = .written ∨ x.bus.phase = .aborted ∨
          x.bus.phase = .read ∧ x.bus.nacked = true) then
        ({ x with bus := { x.bus with phase := .free, stop := false } }, [.stopped])
      else (x, [])

/-! ## The functions of the main loop -/

/-- The loop of `startI2CTransfer`, from index `i` on. -/
def copyFromFifo : Nat → Nat → Buffer8 → Mem UInt8 → Buffer8 × Mem UInt8
  | 0, _, fifo, buffer => (fifo, buffer)
  | n + 1, i, fifo, buffer =>
      let got := buffer8Get fifo
      copyFromFifo n (i + 1) got.1 (buffer.store i [got.2.value.getD 0])

/-- `startI2CTransfer`. -/
def startI2CTransfer (s : I2c) : I2c :=
  let t := s.transactionList s.nextTransaction
  let x := { s.transfer with i2cBytesLeft := t.numBytes }
  match t.type with
  | .tx =>
      let copied := copyFromFifo t.numBytes.toNat 0 s.i2cTxDataFifo x.i2cTxNextTransferBuffer
      let x := { x with i2cTxNextTransferBuffer := copied.2, i2cTxNextTransferIdx := 0 }
      { s with i2cTxDataFifo := copied.1, i2cRunning := true, transfer := x.enter .start }
  | .rx =>
      let x := { x with bus := { x.bus with ack := true } }
      { s with i2cRunning := true, transfer := x.enter .start }

namespace I2cRequest

/-- The entry in `transactionList`. -/
def transaction : I2cRequest → I2cTransaction
  | .tx addr txData callback => ⟨true, UInt8.ofNat txData.length, addr, .tx, callback⟩
  | .rx addr numBytes callback => ⟨true, UInt8.ofNat numBytes, addr, .rx, callback⟩

/-- The data to be sent. -/
def data : I2cRequest → List UInt8
  | .tx _ txData _ => txData
  | .rx _ _ _ => []

/-- It is copied to the FIFO. -/
def queueData (r : I2cRequest) (fifo : Buffer8) : Buffer8 :=
  match r with
  | .tx _ txData _ => (buffer8Write fifo txData).1
  | .rx _ _ _ => fifo

/-- The number of bytes to be sent or received. -/
def numBytes : I2cRequest → Nat
  | .tx _ txData _ => txData.length
  | .rx _ numBytes _ => numBytes

end I2cRequest

section Main

variable (cfg : I2cConfig)

/-- The next slot of the list. -/
def nextSlot (i : Nat) : Nat := if i + 1 = cfg.maxNumTransactions then 0 else i + 1

/-- The transaction in the list. -/
def setupTransaction (s : I2c) (r : I2cRequest) : I2c :=
  { s with
    transactionList := s.transactionList.store s.freeTransaction [r.transaction]
    i2cTxDataFifo := r.queueData s.i2cTxDataFifo
    freeTransaction := nextSlot cfg s.freeTransaction }

/-- `i2cAddTxTransaction` and `i2cAddRxTransaction`. -/
def i2cAddTransaction (s : I2c) (r : I2cRequest) : I2c × List I2cOutput :=
  if (s.transactionList s.freeTransaction).ready then (s, [.refused])
  else
    let s := setupTransaction cfg s r
    (if !s.i2cRunning then startI2CTransfer s else s, [.accepted r])

/-- The end of `serviceI2C`, behind the callback. -/
def finishTransaction (s : I2c) (lastTransaction : Nat) : I2c × List I2cOutput :=
  let t := s.transactionList lastTransaction
  let s := { s with
    transactionList := s.transactionList.store lastTransaction [{ t with ready := false }]
    i2cRunning := false
    calling := none }
  (if (s.transactionList s.nextTransaction).ready then startI2CTransfer s else s, [.finished])

/-- The call of a callback. -/
def callbackOutput (t : I2cTransaction) (x : I2cTransfer) (lastStatus : I2cStatus)
    (callback : Nat) : I2cOutput :=
  match t.type with
  | .tx => .txCallback callback lastStatus
  | .rx => .rxCallback callback (x.i2cRxDataBuffer.load 0 cfg.rxBufSize) x.i2cRxDataBufferIdx
      lastStatus

/-- What `serviceI2C` does to the transfer before the callback. -/
def endTransfer (t : I2cTransaction) (x : I2cTransfer) : I2cTransfer :=
  let x := { x with
    bus := { x.bus with stop := false, pos := false }
    shouldServiceI2C := false }
  let x := if x.i2cStatus = .ack ∧ t.numBytes = 1 then x.takeByte else x
  { x with i2cRxDataBufferIdx := 0, i2cStatus := .ack }

/-- `serviceI2C`, up to the callback, and to its end if there is none. -/
def serviceI2C (s : I2c) : I2c × List I2cOutput :=
  if s.transfer.shouldServiceI2C ∧ s.transfer.bus.busy = false then
    let lastTransaction := s.nextTransaction % 256
    let lastStatus := s.transfer.i2cStatus
    let x := endTransfer (s.transactionList s.nextTransaction) s.transfer
    let s := { s with transfer := x, nextTransaction := nextSlot cfg s.nextTransaction }
    let t := s.transactionList lastTransaction
    match t.callback with
    | some callback =>
        ({ s with calling := some lastTransaction }, [callbackOutput cfg t x lastStatus callback])
    | none => finishTransaction s lastTransaction
  else (s, [])

/-- One event. Inside a callback the main loop does not go on. -/
def i2cStep (s : I2c) : I2cEvent → I2c × List I2cOutput
  | .add r => i2cAddTransaction cfg s r
  | .service => if s.calling = none then serviceI2C cfg s else (s, [])
  | .ret =>
      match s.calling with
      | some lastTransaction => finishTransaction s lastTransaction
      | none => (s, [])
  | .bus e =>
      let result := busStep (s.transactionList s.nextTransaction) s.transfer e
      ({ s with transfer := result.1 }, result.2)

/-- The driver as a machine. -/
def i2cFSM : Fsm I2c I2cEvent I2cOutput where
  step := i2cStep cfg

/-- After `i2cInit`. -/
def I2c.init (memory rxBuffer txBuffer : Mem UInt8) (last : UInt8) : I2c where
  transactionList := fun _ => ⟨false, 0, 0, .tx, none⟩
  i2cTxDataFifo := .init 0 cfg.txBufSize memory
  freeTransaction := 0
  nextTransaction := 0
  i2cRunning := false
  transfer := ⟨rxBuffer, 0, txBuffer, 0, false, .ack, 0,
    ⟨.free, false, false, false, [], last, false, false⟩⟩
  calling := none

end Main

end OlympusFirmware.Olympus

import OlympusFirmware.SlaveLib.Exchange
import OlympusFirmware.Update.Board

/-!
# Master and slave side by side

`messageSubmodule` on the master and the slave's program run at the same time. They
share the SPI bus and one line, the interrupt line of the slave: each byte that the
master clocks goes to the slave's receive ring, and the head of the slave's transmit
ring comes back (what the line carries, if the ring is empty). Here the two are one
machine, whose inputs are the order of their steps:

* `start`, `transfer`, `poll`: the master begins a message, clocks one byte, looks at
  the interrupt line and the tick counter;
* `read`, `proceed`: the slave takes a byte from its ring, or goes on with what the last
  one made it do, so a callback takes as long as the input lets it;
* `work`: interrupts and the rest of the slave's main loop change the program's
  variables.

Each byte in the receive ring remembers the message whose request it is part of, so a
response is known by the message it answers.
-/

namespace OlympusFirmware.Update

open OlympusFirmware.Lib OlympusFirmware.SlaveLib

/-- The arguments of a call of `messageSubmodule`; `data` are the first `tx_size` bytes
of `buff`. -/
structure Message where
  msgType : UInt8
  data : List UInt8
  rxSize : UInt8
  timeout : UInt32
deriving DecidableEq

/-- What is sent before the wait. -/
def Message.request (m : Message) : List UInt8 := commsStartByte :: m.msgType :: m.data

/-- Where the master is in `messageSubmodule`. -/
inductive Master
  | idle
  | sending (m : Message) (rest : List UInt8)
  | waiting (m : Message) (timeUp : UInt32)
  | receiving (m : Message) (got : List UInt8)
  | finishing (m : Message) (got : List UInt8) (timeUp : UInt32)
deriving DecidableEq

/-- Where the slave is in `writeResponse`: not there, before `setSPIInt()`, or in the
loop of `runResponse`. -/
inductive Responding
  | no | raising | draining
deriving DecidableEq

/-- Both sides: the master with the number of messages it has begun, the two rings, the
interrupt line, the slave's program, what it has still to do before the next byte, and
the message this is for. -/
structure Link (δ ε : Type) where
  master : Master
  count : Nat
  rxBuffer : List (UInt8 × Option Nat)
  txBuffer : List UInt8
  int : Bool
  comms : Comms δ
  todo : List (CommsOutput ε)
  serving : Option Nat
  responding : Responding

/-- `TX_BUFFER_SIZE` and `RX_BUFFER_SIZE`. -/
def bufferSize : Nat := 256

/-- What is seen of a run, with the numbers of the messages. -/
inductive LinkOutput
  | started (k : Nat) (m : Message)
  | answered (k : Option Nat) (status : UInt8) (data : List UInt8)
  | returned (k : Nat) (status : UInt8) (data : List UInt8)
deriving DecidableEq

/-- One step of either side. -/
inductive LinkInput (δ : Type)
  | start (m : Message)
  | transfer (dummy : UInt8) (now : UInt32)
  | poll (now later : UInt32)
  | read
  | proceed
  | work (prog : δ)

section Machine

variable {δ ε : Type} (msgResp : UInt8 → MsgInfo δ ε) (line : UInt8)

/-! ## The bus -/

/-- `SPI1_IRQHandler`, a byte received. `rxBufferLen` is a byte, so a ring that becomes
full counts as empty. -/
def receiveByte (ring : List (UInt8 × Option Nat)) (entry : UInt8 × Option Nat) :
    List (UInt8 × Option Nat) :=
  if ring.length + 1 = bufferSize then [] else ring ++ [entry]

/-- One byte is clocked. -/
def Link.clock (s : Link δ ε) (entry : UInt8 × Option Nat) : Link δ ε :=
  { s with rxBuffer := receiveByte s.rxBuffer entry, txBuffer := s.txBuffer.tail }

/-! ## The master -/

/-- `messageSubmodule` is called. -/
def startMessage (s : Link δ ε) (m : Message) : Link δ ε × List LinkOutput :=
  match s.master with
  | .idle =>
      ({ s with master := .sending m m.request, count := s.count + 1 },
        [.started (s.count + 1) m])
  | _ => (s, [])

/-- Behind a byte of the request. -/
def Message.afterSend (m : Message) (now : UInt32) : List UInt8 → Master
  | [] => .waiting m (now + m.timeout)
  | rest => .sending m rest

/-- Behind a byte of the response. -/
def Message.afterReceive (m : Message) (now : UInt32) (got : List UInt8) : Master :=
  if got.length = 1 + m.rxSize.toNat then .finishing m got (now + m.timeout)
  else .receiving m got

/-- One byte of `HAL_SPI_TransmitReceive` or of `HAL_SPI_Receive`, which sends what is in
the memory it receives to. -/
def transferByte (s : Link δ ε) (dummy : UInt8) (now : UInt32) : Link δ ε :=
  match s.master with
  | .sending m (byte :: rest) =>
      { s.clock (byte, some s.count) with master := m.afterSend now rest }
  | .receiving m got =>
      { s.clock (dummy, none) with
        master := m.afterReceive now (got ++ [s.txBuffer.headD line]) }
  | _ => s

/-- One round of a wait: the line and `HAL_GetTick()` in the condition of the loop, and
`HAL_GetTick()` once more behind the first one. -/
def pollInt (s : Link δ ε) (now later : UInt32) : Link δ ε × List LinkOutput :=
  match s.master with
  | .waiting m timeUp =>
      if s.int = false ∧ now < timeUp then (s, [])
      else if timeUp ≤ later then
        ({ s with master := .idle }, [.returned s.count commsErrTimeout []])
      else ({ s with master := .receiving m [] }, [])
  | .finishing _ (status :: data) timeUp =>
      if s.int = true ∧ now < timeUp then (s, [])
      else ({ s with master := .idle }, [.returned s.count status data])
  | _ => (s, [])

/-! ## The slave -/

/-- `readByte` and `runCommsFSM` in the main loop. -/
def readByte (s : Link δ ε) : Link δ ε :=
  match s.responding, s.todo, s.rxBuffer with
  | .no, [], (byte, k) :: rest =>
      if s.comms.running then
        let result := commsStep msgResp s.comms byte
        { s with rxBuffer := rest, comms := result.1, todo := result.2, serving := k }
      else s
  | _, _, _ => s

/-- `writeResponse`, up to `runResponse`. `txBufferLen` is a byte as well. -/
def writeResponse (s : Link δ ε) (status : UInt8) (data : List UInt8) : Link δ ε :=
  let len := s.txBuffer.length + 1 + data.length
  if bufferSize < len then s
  else
    { s with
      txBuffer := if len = bufferSize then [] else s.txBuffer ++ status :: data
      responding := .raising }

/-- The slave goes on: with `runResponse`, or with the next thing to do. -/
def proceed (s : Link δ ε) : Link δ ε × List LinkOutput :=
  match s.responding with
  | .raising => ({ s with int := true, responding := .draining }, [])
  | .draining =>
      if s.txBuffer = [] then ({ s with int := false, responding := .no }, []) else (s, [])
  | .no =>
      match s.todo with
      | [] => (s, [])
      | .clearSPIInt :: rest => ({ s with int := false, todo := rest }, [])
      | .writeResponse status data :: rest =>
          (writeResponse { s with todo := rest } status data,
            [.answered s.serving status data])
      -- the callback and what it does to the device
      | _ :: rest => ({ s with todo := rest }, [])

/-- One step of either side. -/
def linkStep (s : Link δ ε) : LinkInput δ → Link δ ε × List LinkOutput
  | .start m => startMessage s m
  | .transfer dummy now => (transferByte line s dummy now, [])
  | .poll now later => pollInt s now later
  | .read => (readByte msgResp s, [])
  | .proceed => proceed s
  | .work prog => ({ s with comms := { s.comms with prog := prog } }, [])

/-- The two sides as a machine. -/
def linkFSM : Fsm (Link δ ε) (LinkInput δ) LinkOutput where
  step := linkStep msgResp line

end Machine

end OlympusFirmware.Update

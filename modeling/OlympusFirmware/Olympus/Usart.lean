import Mathlib.Data.Fin.Basic
import Mathlib.Logic.Function.Basic
import OlympusFirmware.Lib.Fsm
import OlympusFirmware.Lib.Mem

/-!
# The serial port's transmitter (`olympus/peripherals/usart.c`)

Four buffers in a ring. `usartWrite` fills the one `nextTxBuffer` points to and goes on to
the next when it is full; the DMA sends the one `dmaTxBuffer` points to; its interrupt only
sets a flag, and `serviceTxDma` moves on to the next buffer from the main loop. None of
the functions runs in an interrupt, so a call is one event.

The hardware is one bit: a transfer that has been started and has not completed. A
completion needs one.
-/

namespace OlympusFirmware.Olympus

open OlympusFirmware.Lib

/-- `COMMS_TX_BUFFER_SIZE`. -/
def commsTxBufferSize : Nat := 2048

/-- The transmitter. The index of a buffer is kept below `COMMS_TX_NUM_BUFFERS`, four. -/
structure Usart where
  txBuffers : Fin 4 → Mem UInt8
  txBufferLengths : Fin 4 → Nat
  nextTxBuffer : Fin 4
  dmaTxBuffer : Fin 4
  txDmaActive : Bool
  shouldServiceTxDma : Bool
  /-- The stream is enabled and its transfer has not completed. -/
  transferring : Bool

/-- What can happen: a call of `usartWrite` with the memory `data` points to, a completion,
a call of `serviceTxDma`. -/
inductive UsartEvent
  | write (data : Mem UInt8) (size : UInt16)
  | complete
  | service

/-- What comes of it: a buffer is handed to the DMA, or the rest of a write is to be
dropped. -/
inductive UsartOutput
  | handed (bytes : List UInt8)
  | overrun
deriving DecidableEq

/-- The state at reset, on whatever the buffers hold. -/
def Usart.reset (txBuffers : Fin 4 → Mem UInt8) : Usart :=
  ⟨txBuffers, fun _ => 0, 0, 0, false, false, false⟩

/-- `startTxDma`. -/
def startTxDma (u : Usart) : Usart × List UsartOutput :=
  let nextTxBuffer :=
    if u.nextTxBuffer = u.dmaTxBuffer then u.nextTxBuffer + 1 else u.nextTxBuffer
  ({ u with txDmaActive := true, nextTxBuffer := nextTxBuffer, transferring := true },
    [.handed ((u.txBuffers u.dmaTxBuffer).load 0 (u.txBufferLengths u.dmaTxBuffer))])

/-- `serviceTxDma`. -/
def serviceTxDma (u : Usart) : Usart × List UsartOutput :=
  if u.shouldServiceTxDma then
    let u := { u with
      txBufferLengths := Function.update u.txBufferLengths u.dmaTxBuffer 0
      dmaTxBuffer := u.dmaTxBuffer + 1 }
    let started :=
      if 0 < u.txBufferLengths u.dmaTxBuffer then startTxDma u
      else ({ u with txDmaActive := false }, [])
    ({ started.1 with shouldServiceTxDma := false }, started.2)
  else
    (u, [])

/-- The buffer that was sent, given back, and no transfer running: what `serviceTxDma` leaves
when it finds no more to send. -/
def Usart.giveBack (u : Usart) : Usart :=
  { u with
    txBufferLengths := Function.update u.txBufferLengths u.dmaTxBuffer 0
    dmaTxBuffer := u.dmaTxBuffer + 1
    txDmaActive := false }

/-- `COMMS_TX_DMA_ISR`, when a transfer completes. -/
def commsTxDmaIsr (u : Usart) : Usart :=
  if u.transferring then { u with shouldServiceTxDma := true, transferring := false } else u

/-- How far `usartWrite` is: `data` has moved on by `pos` bytes. -/
structure Writing where
  usart : Usart
  pos : Nat
  size : Nat

/-- The bytes the next round of `usartWrite` copies. -/
def bytesToWrite (w : Writing) : Nat :=
  let bufferSpace := commsTxBufferSize - w.usart.txBufferLengths w.usart.nextTxBuffer
  if w.size < bufferSpace then w.size else bufferSpace

/-- The buffer to write to, with these bytes at its end. -/
def Usart.append (u : Usart) (bytes : List UInt8) : Usart :=
  let i := u.nextTxBuffer
  { u with
    txBuffers := Function.update u.txBuffers i ((u.txBuffers i).store (u.txBufferLengths i) bytes)
    txBufferLengths := Function.update u.txBufferLengths i (u.txBufferLengths i + bytes.length) }

/-- One round of the loop of `usartWrite`. -/
def writeRound (data : Mem UInt8) (w : Writing) : Writing × List UsartOutput :=
  let n := bytesToWrite w
  let u := w.usart.append (data.load w.pos n)
  if u.txBufferLengths u.nextTxBuffer = commsTxBufferSize then
    let u := { u with nextTxBuffer := u.nextTxBuffer + 1 }
    if u.nextTxBuffer = u.dmaTxBuffer then
      -- `size = 0`; the subtraction, of sixteen bits, still follows
      (⟨u, w.pos + n, (0 + 65536 - n) % 65536⟩, [.overrun])
    else
      (⟨u, w.pos + n, (w.size + 65536 - n) % 65536⟩, [])
  else
    (⟨u, w.pos + n, (w.size + 65536 - n) % 65536⟩, [])

/-- The loop, for so many rounds. -/
def writeLoop (data : Mem UInt8) : Nat → Writing → Writing × List UsartOutput
  | 0, w => (w, [])
  | rounds + 1, w =>
      if w.size = 0 then (w, [])
      else
        let first := writeRound data w
        let rest := writeLoop data rounds first.1
        (rest.1, first.2 ++ rest.2)

/-- More rounds than the loop makes: a round that does not end it fills a buffer or passes
a full one. -/
def writeRounds : Nat := 16

/-- `usartWrite`. -/
def usartWrite (u : Usart) (data : Mem UInt8) (size : UInt16) : Usart × List UsartOutput :=
  if 0 < size.toNat then
    let written := writeLoop data writeRounds ⟨u, 0, size.toNat⟩
    if written.1.usart.txDmaActive then (written.1.usart, written.2)
    else
      let started := startTxDma written.1.usart
      (started.1, written.2 ++ started.2)
  else
    (u, [])

/-- One event. -/
def usartStep (u : Usart) : UsartEvent → Usart × List UsartOutput
  | .write data size => usartWrite u data size
  | .complete => (commsTxDmaIsr u, [])
  | .service => serviceTxDma u

/-- The transmitter as a machine. -/
def usartFSM : Fsm Usart UsartEvent UsartOutput where
  step := usartStep

/-! ## The transmitter as a queue -/

namespace Usart

/-- The length of the buffer `j` places behind the one of the DMA. -/
def length (u : Usart) (j : Fin 4) : Nat := u.txBufferLengths (u.dmaTxBuffer + j)

/-- What it holds. -/
def contents (u : Usart) (j : Fin 4) : List UInt8 :=
  (u.txBuffers (u.dmaTxBuffer + j)).load 0 (u.length j)

/-- The buffers that have not been handed over, in the order they will be. -/
def waiting (u : Usart) : List (Fin 4) := if u.txDmaActive then [1, 2, 3] else [0, 1, 2, 3]

/-- What has not been handed over. -/
def queued (u : Usart) : List UInt8 := u.waiting.flatMap u.contents

end Usart

/-- Everything written. -/
def written : List UsartEvent → List UInt8
  | [] => []
  | .write data size :: rest => data.load 0 size.toNat ++ written rest
  | .complete :: rest => written rest
  | .service :: rest => written rest

/-- Everything handed to the DMA. -/
def handedOver : List UsartOutput → List UInt8
  | [] => []
  | .handed bytes :: rest => bytes ++ handedOver rest
  | .overrun :: rest => handedOver rest

end OlympusFirmware.Olympus

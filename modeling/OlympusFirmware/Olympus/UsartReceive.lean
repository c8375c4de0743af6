import Mathlib.Data.List.Induction
import OlympusFirmware.Lib.Fsm
import OlympusFirmware.Lib.Ring

/-!
# The serial port's receiver (`olympus/peripherals/usart.c`)

A DMA stream in circular mode stores every received byte into `rxBuffer`; `NDTR` counts the
bytes it has left before it starts again. `rxBufferPos` is the address of the next byte to
read. `usartRead` computes how many bytes are there, and then copies in one or two pieces;
`usartGet` waits until there is one.

The stream stores at any time, so a call has steps of its own: bytes can arrive between the
computation of `usartRead` and its copy, and while `usartGet` waits. The ring is followed as
long as the stream does not overtake the reader.
-/

namespace OlympusFirmware.Olympus

open OlympusFirmware.Lib

/-- `COMMS_RX_BUFFER_SIZE`, the size of `rxBuffer`. -/
def commsRxBufferSize : Nat := 1024

/-- Where the program is. -/
inductive ReceiveCall
  /-- in neither function -/
  | none
  /-- `usartRead`, with `readLen` computed -/
  | reading (readLen : Nat)
  /-- `usartGet`, in its loop -/
  | getting
deriving DecidableEq

/-- The receiver: the memory, the registers of the stream, the static variable. -/
structure UsartReceiver where
  memory : Mem UInt8
  m0ar : Nat
  ndtr : Nat
  rxBufferPos : Nat
  call : ReceiveCall

/-- What can happen: the stream stores a byte, a function is called, the program goes on. -/
inductive ReceiveEvent
  | store (byte : UInt8)
  | usartRead (len : Nat)
  | usartGet
  | step
deriving DecidableEq

/-- A copied piece of memory: address and length. -/
structure Piece where
  address : Nat
  length : Nat
deriving DecidableEq

/-- What the functions return: `usartRead` a number, with the pieces it copied to `data`;
`usartGet` the byte it read at an address. -/
inductive ReceiveOutput
  | read (readLen : Nat) (pieces : List Piece) (data : List UInt8)
  | got (address : Nat) (byte : UInt8)
deriving DecidableEq

/-- After `commsUsartDmaInit`. `rxBuffer` is the address of the buffer. -/
def UsartReceiver.init (rxBuffer : Nat) (memory : Mem UInt8) : UsartReceiver :=
  ⟨memory, rxBuffer, commsRxBufferSize, rxBuffer, .none⟩

/-- The stream stores a byte. `NDTR` is reloaded when it reaches zero. -/
def dmaStore (u : UsartReceiver) (byte : UInt8) : UsartReceiver :=
  { u with
    memory := u.memory.store (u.m0ar + (commsRxBufferSize - u.ndtr)) [byte]
    ndtr := if u.ndtr = 1 then commsRxBufferSize else u.ndtr - 1 }

/-- `getRxDmaPosition`. -/
def getRxDmaPosition (u : UsartReceiver) : Nat :=
  u.m0ar + (commsRxBufferSize - u.ndtr)

/-- `getRxBytesAvailable`. -/
def getRxBytesAvailable (u : UsartReceiver) : Nat :=
  if u.rxBufferPos ≤ getRxDmaPosition u then getRxDmaPosition u - u.rxBufferPos
  else commsRxBufferSize - (u.rxBufferPos - getRxDmaPosition u)

section Receiver

variable (rxBuffer : Nat)

/-- `usartRead`, the copy: the pieces and the new `rxBufferPos`. -/
def readPieces (u : UsartReceiver) (readLen : Nat) : List Piece × Nat :=
  if readLen ≠ 0 then
    if u.rxBufferPos < u.m0ar then
      ([⟨u.rxBufferPos, readLen⟩], u.rxBufferPos + readLen)
    else
      let bytesUntilEnd := rxBuffer + commsRxBufferSize - u.rxBufferPos
      if readLen < bytesUntilEnd then
        ([⟨u.rxBufferPos, readLen⟩], u.rxBufferPos + readLen)
      else
        ([⟨u.rxBufferPos, bytesUntilEnd⟩, ⟨rxBuffer, readLen - bytesUntilEnd⟩],
          rxBuffer + (readLen - bytesUntilEnd))
  else
    ([], u.rxBufferPos)

/-- `usartRead`, the copy. -/
def readCopy (u : UsartReceiver) (readLen : Nat) : UsartReceiver × List ReceiveOutput :=
  let copied := readPieces rxBuffer u readLen
  ({ u with rxBufferPos := copied.2, call := .none },
    [.read readLen copied.1 (copied.1.flatMap fun piece =>
      u.memory.load piece.address piece.length)])

/-- `usartGet`: the loop is left when there is a byte. -/
def getStep (u : UsartReceiver) : UsartReceiver × List ReceiveOutput :=
  if u.rxBufferPos = getRxDmaPosition u then (u, [])
  else
    let rxBufferPos := u.rxBufferPos + 1
    ({ u with
      rxBufferPos :=
        if rxBufferPos - rxBuffer = commsRxBufferSize then rxBuffer else rxBufferPos
      call := .none },
      [.got u.rxBufferPos (u.memory u.rxBufferPos)])

/-- One event. A function is called when none is running. -/
def receiverStep (u : UsartReceiver) : ReceiveEvent → UsartReceiver × List ReceiveOutput
  | .store byte => (dmaStore u byte, [])
  | .usartRead len =>
      match u.call with
      | .none =>
          let haveBytes := getRxBytesAvailable u
          ({ u with call := .reading (if len < haveBytes then len else haveBytes) }, [])
      | _ => (u, [])
  | .usartGet =>
      match u.call with
      | .none => ({ u with call := .getting }, [])
      | _ => (u, [])
  | .step =>
      match u.call with
      | .none => (u, [])
      | .reading readLen => readCopy rxBuffer u readLen
      | .getting => getStep rxBuffer u

/-- The receiver as a machine. -/
def receiverFSM : Fsm UsartReceiver ReceiveEvent ReceiveOutput where
  step := receiverStep rxBuffer

end Receiver

/-- The bytes stored by the stream. -/
def storedBytes (events : List ReceiveEvent) : List UInt8 :=
  events.filterMap fun
    | .store byte => some byte
    | _ => none

/-- The bytes returned by the two functions. -/
def returnedBytes (outputs : List ReceiveOutput) : List UInt8 :=
  outputs.flatMap fun
    | .read _ _ data => data
    | .got _ byte => [byte]

/-! ## What is asked of a run -/

section Runs

variable (rxBuffer : Nat) (memory : Mem UInt8)

/-- How many bytes are unread. -/
def unreadBytes (events : List ReceiveEvent) : Nat :=
  (storedBytes events).length -
    (returnedBytes ((receiverFSM rxBuffer).outputs (.init rxBuffer memory) events)).length

/-- Never more than 1023 bytes are unread. -/
def NeverFull (events : List ReceiveEvent) : Prop :=
  ∀ pre post : List ReceiveEvent, events = pre ++ post →
    unreadBytes rxBuffer memory pre < commsRxBufferSize

/-- A piece inside the buffer. -/
def Piece.Inside (piece : Piece) : Prop :=
  rxBuffer ≤ piece.address ∧ piece.address + piece.length ≤ rxBuffer + commsRxBufferSize

/-- What is asked of an output: as many bytes as `usartRead` says, copied from inside the
buffer. -/
def ReceiveOutput.Sound : ReceiveOutput → Prop
  | .read readLen pieces data => data.length = readLen ∧ ∀ piece ∈ pieces, piece.Inside rxBuffer
  | .got address _ => Piece.Inside rxBuffer ⟨address, 1⟩

/-- What is asked of a run. -/
structure ReceivesInOrder (events : List ReceiveEvent) : Prop where
  /-- what was returned is the first part of what was stored -/
  order : ∀ pre post : List ReceiveEvent, events = pre ++ post →
    returnedBytes ((receiverFSM rxBuffer).outputs (.init rxBuffer memory) pre) <+: storedBytes pre
  /-- a call of `usartRead` is going to return the smaller of `len` and what is unread -/
  count : ∀ (pre post : List ReceiveEvent) (len : Nat),
    events = pre ++ ReceiveEvent.usartRead len :: post →
    ((receiverFSM rxBuffer).after (.init rxBuffer memory) pre).call = .none →
    ((receiverFSM rxBuffer).after (.init rxBuffer memory) (pre ++ [.usartRead len])).call =
      .reading (min len (unreadBytes rxBuffer memory pre))
  /-- and returns what it was going to return -/
  returns : ∀ (pre post : List ReceiveEvent) (readLen : Nat),
    events = pre ++ ReceiveEvent.step :: post →
    ((receiverFSM rxBuffer).after (.init rxBuffer memory) pre).call = .reading readLen →
    (∃ pieces data, (receiverFSM rxBuffer).emit
      ((receiverFSM rxBuffer).after (.init rxBuffer memory) pre) .step =
        [.read readLen pieces data]) ∧
    ((receiverFSM rxBuffer).after (.init rxBuffer memory) (pre ++ [.step])).call = .none
  /-- a call of `usartGet` enters its loop -/
  waits : ∀ pre post : List ReceiveEvent, events = pre ++ ReceiveEvent.usartGet :: post →
    ((receiverFSM rxBuffer).after (.init rxBuffer memory) pre).call = .none →
    ((receiverFSM rxBuffer).after (.init rxBuffer memory) (pre ++ [.usartGet])).call = .getting
  /-- where it stays while nothing is unread -/
  empty : ∀ pre post : List ReceiveEvent, events = pre ++ ReceiveEvent.step :: post →
    ((receiverFSM rxBuffer).after (.init rxBuffer memory) pre).call = .getting →
    unreadBytes rxBuffer memory pre = 0 →
    (receiverFSM rxBuffer).emit
        ((receiverFSM rxBuffer).after (.init rxBuffer memory) pre) .step = [] ∧
      ((receiverFSM rxBuffer).after (.init rxBuffer memory) (pre ++ [.step])).call = .getting
  /-- and from where it returns the first unread byte -/
  gets : ∀ pre post : List ReceiveEvent, events = pre ++ ReceiveEvent.step :: post →
    ((receiverFSM rxBuffer).after (.init rxBuffer memory) pre).call = .getting →
    0 < unreadBytes rxBuffer memory pre →
    (∃ address byte,
      (storedBytes pre)[(returnedBytes
        ((receiverFSM rxBuffer).outputs (.init rxBuffer memory) pre)).length]? = some byte ∧
      (receiverFSM rxBuffer).emit
        ((receiverFSM rxBuffer).after (.init rxBuffer memory) pre) .step = [.got address byte]) ∧
    ((receiverFSM rxBuffer).after (.init rxBuffer memory) (pre ++ [.step])).call = .none
  /-- a call ends by a step of its own only -/
  stays : ∀ (pre post : List ReceiveEvent) (event : ReceiveEvent), events = pre ++ event :: post →
    event ≠ .step → ((receiverFSM rxBuffer).after (.init rxBuffer memory) pre).call ≠ .none →
    ((receiverFSM rxBuffer).after (.init rxBuffer memory) (pre ++ [event])).call =
      ((receiverFSM rxBuffer).after (.init rxBuffer memory) pre).call
  /-- `rxBufferPos` points into the buffer -/
  position : ∀ pre post : List ReceiveEvent, events = pre ++ post →
    Piece.Inside rxBuffer
      ⟨((receiverFSM rxBuffer).after (.init rxBuffer memory) pre).rxBufferPos, 1⟩
  /-- and so does every access -/
  sound : ∀ output ∈ (receiverFSM rxBuffer).outputs (.init rxBuffer memory) events,
    output.Sound rxBuffer

end Runs

/-! ## What the events keep -/

/-- The receiver with these bytes returned and these unread. -/
structure ReceiverInv (rxBuffer : Nat) (done rest : List UInt8) (u : UsartReceiver) : Prop where
  m0ar : u.m0ar = rxBuffer
  ndtr : 0 < u.ndtr ∧ u.ndtr ≤ commsRxBufferSize
  offset : commsRxBufferSize - u.ndtr = (done.length + rest.length) % commsRxBufferSize
  position : u.rxBufferPos = rxBuffer + done.length % commsRxBufferSize
  cells : Ring.contents commsRxBufferSize (u.memory.shift rxBuffer) done.length rest.length = rest
  small : rest.length < commsRxBufferSize
  call : ∀ readLen, u.call = .reading readLen → readLen ≤ rest.length

section Steps

variable {rxBuffer : Nat} {done rest : List UInt8} {u : UsartReceiver}

theorem ReceiverInv.dmaPosition (inv : ReceiverInv rxBuffer done rest u) :
    getRxDmaPosition u = rxBuffer + (done.length + rest.length) % commsRxBufferSize := by
  rw [getRxDmaPosition, inv.m0ar, inv.offset]

/-- **`getRxBytesAvailable`** is the number of unread bytes. -/
theorem ReceiverInv.available (inv : ReceiverInv rxBuffer done rest u) :
    getRxBytesAvailable u = rest.length := by
  have small := inv.small
  rw [getRxBytesAvailable, inv.dmaPosition, inv.position]
  unfold commsRxBufferSize at *
  split <;> omega

theorem ReceiverInv.inside (inv : ReceiverInv rxBuffer done rest u) :
    Piece.Inside rxBuffer ⟨u.rxBufferPos, 1⟩ := by
  have bound := Nat.mod_lt done.length (show 0 < commsRxBufferSize by decide)
  have position := inv.position
  show rxBuffer ≤ u.rxBufferPos ∧ u.rxBufferPos + 1 ≤ rxBuffer + commsRxBufferSize
  omega

/-- A byte is stored into a free cell. -/
theorem ReceiverInv.store (inv : ReceiverInv rxBuffer done rest u) (byte : UInt8)
    (room : rest.length + 1 < commsRxBufferSize) :
    ReceiverInv rxBuffer done (rest ++ [byte]) (dmaStore u byte) := by
  obtain ⟨low, high⟩ := inv.ndtr
  have offset := inv.offset
  have ndtr : 0 < (dmaStore u byte).ndtr ∧ (dmaStore u byte).ndtr ≤ commsRxBufferSize ∧
      commsRxBufferSize - (dmaStore u byte).ndtr =
        (done.length + (rest.length + 1)) % commsRxBufferSize := by
    simp only [dmaStore]
    unfold commsRxBufferSize at *
    split <;> omega
  refine ⟨inv.m0ar, ⟨ndtr.1, ndtr.2.1⟩, ?_, inv.position, ?_, ?_, ?_⟩
  · rw [List.length_append]
    exact ndtr.2.2
  · rw [List.length_append, List.length_singleton]
    simp only [dmaStore]
    rw [inv.m0ar, offset, Mem.shift_store, Ring.contents_store_one inv.small, inv.cells]
  · rw [List.length_append]
    exact room
  · intro readLen reading
    have known := inv.call readLen reading
    rw [List.length_append]
    omega

/-- **The copy** takes the first unread bytes, from inside the buffer. -/
theorem ReceiverInv.readPieces (inv : ReceiverInv rxBuffer done rest u) {readLen : Nat}
    (fits : readLen ≤ rest.length) :
    ((readPieces rxBuffer u readLen).1.flatMap fun piece =>
        u.memory.load piece.address piece.length) = rest.take readLen ∧
      (readPieces rxBuffer u readLen).2 =
        rxBuffer + (done.length + readLen) % commsRxBufferSize ∧
      ∀ piece ∈ (readPieces rxBuffer u readLen).1, piece.Inside rxBuffer := by
  have bound := Nat.mod_lt done.length (show 0 < commsRxBufferSize by decide)
  have small := inv.small
  have position := inv.position
  have first : rest.take readLen =
      Ring.contents commsRxBufferSize (u.memory.shift rxBuffer)
        (done.length % commsRxBufferSize) readLen := by
    rw [Ring.contents_mod, ← Ring.contents_take fits, inv.cells]
  rw [first]
  unfold Olympus.readPieces
  by_cases zero : readLen = 0
  · subst zero
    simp [position]
  · rw [if_pos zero, inv.m0ar, if_neg (by omega)]
    dsimp only
    split
    · -- the bytes lie before the end of the buffer
      rename_i before
      refine ⟨?_, ?_, ?_⟩
      · rw [Ring.contents_eq_load (by omega), Mem.load_shift, ← position]
        simp
      · unfold commsRxBufferSize at *
        omega
      · intro piece member
        obtain rfl := List.mem_singleton.mp member
        show rxBuffer ≤ u.rxBufferPos ∧ u.rxBufferPos + readLen ≤ rxBuffer + commsRxBufferSize
        omega
    · rename_i across
      have untilEnd : rxBuffer + commsRxBufferSize - u.rxBufferPos =
          commsRxBufferSize - done.length % commsRxBufferSize := by omega
      rw [untilEnd] at across ⊢
      refine ⟨?_, ?_, ?_⟩
      · rw [Ring.contents_wrap bound.le (by omega) (by omega), Mem.load_shift, Mem.load_shift,
          ← position]
        simp
      · unfold commsRxBufferSize at *
        omega
      · intro piece member
        rcases List.mem_cons.mp member with rfl | member
        · show rxBuffer ≤ u.rxBufferPos ∧
            u.rxBufferPos + (commsRxBufferSize - done.length % commsRxBufferSize) ≤
              rxBuffer + commsRxBufferSize
          omega
        · obtain rfl := List.mem_singleton.mp member
          show rxBuffer ≤ rxBuffer ∧
            rxBuffer + (readLen - (commsRxBufferSize - done.length % commsRxBufferSize)) ≤
              rxBuffer + commsRxBufferSize
          omega

/-- Unread bytes become returned ones. -/
theorem ReceiverInv.advance (inv : ReceiverInv rxBuffer done rest u) {n : Nat}
    (fits : n ≤ rest.length) {position : Nat}
    (moved : position = rxBuffer + (done.length + n) % commsRxBufferSize) :
    ReceiverInv rxBuffer (done ++ rest.take n) (rest.drop n)
      { u with rxBufferPos := position, call := .none } := by
  have length : (done ++ rest.take n).length = done.length + n := by
    rw [List.length_append, List.length_take, Nat.min_eq_left fits]
  have whole : done.length + n + (rest.length - n) = done.length + rest.length := by omega
  have small := inv.small
  refine ⟨inv.m0ar, inv.ndtr, ?_, ?_, ?_, ?_, ?_⟩
  · rw [length, List.length_drop, whole]
    exact inv.offset
  · rw [length]
    exact moved
  · rw [length, List.length_drop]
    show Ring.contents _ (u.memory.shift rxBuffer) _ _ = _
    rw [← Ring.contents_drop fits, inv.cells]
  · rw [List.length_drop]
    omega
  · intro readLen reading
    cases reading

/-- What an event comes to: bytes move from the stream to the unread ones and from there to
the caller. -/
structure Moves (rxBuffer : Nat) (done rest : List UInt8) (event : ReceiveEvent)
    (result : UsartReceiver × List ReceiveOutput) (rest' : List UInt8) : Prop where
  inv : ReceiverInv rxBuffer (done ++ returnedBytes result.2) rest' result.1
  bytes : rest ++ storedBytes [event] = returnedBytes result.2 ++ rest'
  sound : ∀ output ∈ result.2, output.Sound rxBuffer

/-- An event after which the program is somewhere else, and nothing else has changed. -/
theorem ReceiverInv.quiet (inv : ReceiverInv rxBuffer done rest u) {call : ReceiveCall}
    {event : ReceiveEvent} (silent : storedBytes [event] = [])
    (known : ∀ readLen, call = .reading readLen → readLen ≤ rest.length) :
    Moves rxBuffer done rest event ({ u with call := call }, []) rest := by
  refine ⟨?_, by simp [silent, returnedBytes], by simp⟩
  rw [returnedBytes, List.flatMap_nil, List.append_nil]
  exact ⟨inv.m0ar, inv.ndtr, inv.offset, inv.position, inv.cells, inv.small, known⟩

theorem ReceiverInv.stay (inv : ReceiverInv rxBuffer done rest u) {event : ReceiveEvent}
    (silent : storedBytes [event] = []) : Moves rxBuffer done rest event (u, []) rest :=
  inv.quiet silent inv.call

theorem ReceiverInv.readCopy (inv : ReceiverInv rxBuffer done rest u) {readLen : Nat}
    (fits : readLen ≤ rest.length) :
    Moves rxBuffer done rest .step (readCopy rxBuffer u readLen) (rest.drop readLen) := by
  obtain ⟨data, position, inside⟩ := inv.readPieces fits
  have returned : returnedBytes (Olympus.readCopy rxBuffer u readLen).2 = rest.take readLen := by
    simp only [Olympus.readCopy, data]
    exact List.append_nil _
  refine ⟨?_, ?_, ?_⟩
  · rw [returned]
    exact inv.advance fits position
  · rw [returned, List.take_append_drop]
    exact List.append_nil _
  · intro output member
    obtain rfl := List.mem_singleton.mp member
    refine ⟨?_, inside⟩
    rw [data, List.length_take, Nat.min_eq_left fits]

/-- The loop of `usartGet` is left when a byte is unread. -/
theorem ReceiverInv.position_eq_iff (inv : ReceiverInv rxBuffer done rest u) :
    u.rxBufferPos = getRxDmaPosition u ↔ rest = [] := by
  have small := inv.small
  rw [inv.dmaPosition, inv.position, ← List.length_eq_zero_iff]
  unfold commsRxBufferSize at *
  omega

/-- The reader stands at the first unread byte. -/
theorem ReceiverInv.front {byte : UInt8} {behind : List UInt8}
    (inv : ReceiverInv rxBuffer done (byte :: behind) u) : u.memory u.rxBufferPos = byte := by
  have cells := inv.cells
  rw [List.length_cons, Ring.contents_succ] at cells
  rw [inv.position]
  exact (List.cons.inj cells).1

theorem ReceiverInv.getStep (inv : ReceiverInv rxBuffer done rest u) :
    ∃ rest', Moves rxBuffer done rest .step (getStep rxBuffer u) rest' := by
  have small := inv.small
  have position := inv.position
  unfold Olympus.getStep
  by_cases empty : u.rxBufferPos = getRxDmaPosition u
  · rw [if_pos empty]
    exact ⟨rest, inv.stay rfl⟩
  · rw [if_neg empty]
    obtain ⟨byte, behind, rfl⟩ := List.exists_cons_of_ne_nil (mt inv.position_eq_iff.mpr empty)
    have front := inv.front
    have some : 1 ≤ (byte :: behind).length := by simp
    refine ⟨behind, ?_, ?_, ?_⟩
    · rw [front]
      refine inv.advance (n := 1) some ?_
      rw [position]
      unfold commsRxBufferSize at *
      split <;> omega
    · rw [front]
      exact List.append_nil _
    · intro output member
      obtain rfl := List.mem_singleton.mp member
      exact inv.inside

/-- **One event.** -/
theorem ReceiverInv.event (inv : ReceiverInv rxBuffer done rest u) (event : ReceiveEvent)
    (room : rest.length + (storedBytes [event]).length < commsRxBufferSize) :
    ∃ rest', Moves rxBuffer done rest event (receiverStep rxBuffer u event) rest' := by
  cases event with
  | store byte =>
      refine ⟨rest ++ [byte], ?_, rfl, by simp [receiverStep]⟩
      show ReceiverInv rxBuffer (done ++ []) (rest ++ [byte]) (dmaStore u byte)
      rw [List.append_nil]
      exact inv.store byte room
  | usartRead len =>
      unfold receiverStep
      cases call : u.call with
      | none =>
          refine ⟨rest, inv.quiet rfl ?_⟩
          rintro readLen ⟨⟩
          rw [inv.available]
          split <;> omega
      | reading readLen => exact ⟨rest, inv.stay rfl⟩
      | getting => exact ⟨rest, inv.stay rfl⟩
  | usartGet =>
      unfold receiverStep
      cases call : u.call with
      | none => exact ⟨rest, inv.quiet rfl (by simp)⟩
      | reading readLen => exact ⟨rest, inv.stay rfl⟩
      | getting => exact ⟨rest, inv.stay rfl⟩
  | step =>
      unfold receiverStep
      cases call : u.call with
      | none => exact ⟨rest, inv.stay rfl⟩
      | reading readLen => exact ⟨_, inv.readCopy (inv.call readLen call)⟩
      | getting => exact inv.getStep

end Steps

/-! ## Whole runs -/

section Whole

variable {rxBuffer : Nat} {memory : Mem UInt8} {events : List ReceiveEvent}

theorem returnedBytes_append (first rest : List ReceiveOutput) :
    returnedBytes (first ++ rest) = returnedBytes first ++ returnedBytes rest :=
  List.flatMap_append

theorem storedBytes_append (first rest : List ReceiveEvent) :
    storedBytes (first ++ rest) = storedBytes first ++ storedBytes rest :=
  List.filterMap_append

theorem NeverFull.of_append {post : List ReceiveEvent}
    (bounded : NeverFull rxBuffer memory (events ++ post)) : NeverFull rxBuffer memory events := by
  intro pre rest split
  exact bounded pre (rest ++ post) (by rw [split, List.append_assoc])

/-- The receiver after a run, with the bytes that are unread. -/
structure ReceiverRun (rxBuffer : Nat) (memory : Mem UInt8) (events : List ReceiveEvent)
    (rest : List UInt8) : Prop where
  inv : ReceiverInv rxBuffer
    (returnedBytes ((receiverFSM rxBuffer).outputs (.init rxBuffer memory) events)) rest
    ((receiverFSM rxBuffer).after (.init rxBuffer memory) events)
  bytes : storedBytes events =
    returnedBytes ((receiverFSM rxBuffer).outputs (.init rxBuffer memory) events) ++ rest
  sound : ∀ output ∈ (receiverFSM rxBuffer).outputs (.init rxBuffer memory) events,
    output.Sound rxBuffer

theorem ReceiverRun.unread {rest : List UInt8} (run : ReceiverRun rxBuffer memory events rest) :
    unreadBytes rxBuffer memory events = rest.length := by
  rw [unreadBytes, run.bytes, List.length_append, Nat.add_sub_cancel_left]

theorem receiverInv_init (rxBuffer : Nat) (memory : Mem UInt8) :
    ReceiverInv rxBuffer [] [] (.init rxBuffer memory) := by
  refine ⟨rfl, ⟨?_, Nat.le_refl _⟩, Nat.sub_self _, rfl, rfl, ?_, ?_⟩
  · show 0 < commsRxBufferSize
    decide
  · show 0 < commsRxBufferSize
    decide
  · intro readLen reading
    cases reading

/-- The stream has room for the next byte. -/
theorem ReceiverRun.room {rest : List UInt8} {event : ReceiveEvent}
    (run : ReceiverRun rxBuffer memory events rest)
    (bounded : NeverFull rxBuffer memory (events ++ [event])) :
    rest.length + (storedBytes [event]).length < commsRxBufferSize := by
  cases event with
  | store byte =>
      have now := bounded (events ++ [.store byte]) [] (by simp)
      have silent : (receiverFSM rxBuffer).outputs
          ((receiverFSM rxBuffer).after (.init rxBuffer memory) events) [.store byte] = [] := rfl
      rw [unreadBytes, storedBytes_append, run.bytes, Fsm.outputs_append, silent,
        List.append_nil] at now
      simp only [List.length_append] at now
      omega
  | usartRead len => exact run.inv.small
  | usartGet => exact run.inv.small
  | step => exact run.inv.small

/-- **A run** in which the stream never overtakes the reader. -/
theorem receiver_run (bounded : NeverFull rxBuffer memory events) :
    ∃ rest, ReceiverRun rxBuffer memory events rest := by
  induction events using List.reverseRecOn with
  | nil => exact ⟨[], receiverInv_init rxBuffer memory, rfl, by simp⟩
  | append_singleton events event ih =>
      obtain ⟨rest, run⟩ := ih bounded.of_append
      obtain ⟨rest', moves⟩ := run.inv.event event (run.room bounded)
      have outputs : (receiverFSM rxBuffer).outputs (.init rxBuffer memory) (events ++ [event]) =
          (receiverFSM rxBuffer).outputs (.init rxBuffer memory) events ++
            (receiverStep rxBuffer
              ((receiverFSM rxBuffer).after (.init rxBuffer memory) events) event).2 := by
        rw [Fsm.outputs_append, Fsm.outputs_cons, Fsm.outputs_nil, List.append_nil]
        rfl
      have after : (receiverFSM rxBuffer).after (.init rxBuffer memory) (events ++ [event]) =
          (receiverStep rxBuffer
            ((receiverFSM rxBuffer).after (.init rxBuffer memory) events) event).1 := by
        rw [Fsm.after_append]
        rfl
      refine ⟨rest', ?_, ?_, ?_⟩
      · rw [outputs, after, returnedBytes_append]
        exact moves.inv
      · rw [outputs, storedBytes_append, run.bytes, returnedBytes_append, List.append_assoc,
          moves.bytes, List.append_assoc]
      · rw [outputs]
        intro output member
        rcases List.mem_append.mp member with earlier | now
        · exact run.sound output earlier
        · exact moves.sound output now

theorem after_step (pre : List ReceiveEvent) :
    (receiverFSM rxBuffer).after (.init rxBuffer memory) (pre ++ [.step]) =
      (receiverStep rxBuffer
        ((receiverFSM rxBuffer).after (.init rxBuffer memory) pre) .step).1 := by
  rw [Fsm.after_append]
  rfl

/-- While a function runs, an event that is not its step does not change where it is. -/
theorem receiverStep_call {u : UsartReceiver} {event : ReceiveEvent} (other : event ≠ .step)
    (busy : u.call ≠ .none) : (receiverStep rxBuffer u event).1.call = u.call := by
  cases event with
  | store byte => rfl
  | usartRead len | usartGet =>
      unfold receiverStep
      cases call : u.call with
      | none => exact absurd call busy
      | reading readLen => exact call
      | getting => exact call
  | step => exact absurd rfl other

/-- **A call of `usartGet`** waits while nothing is unread, and then returns the first unread
byte. -/
theorem ReceiverRun.get {rest : List UInt8} (run : ReceiverRun rxBuffer memory events rest)
    (getting : ((receiverFSM rxBuffer).after (.init rxBuffer memory) events).call = .getting) :
    (rest = [] ∧
      receiverStep rxBuffer ((receiverFSM rxBuffer).after (.init rxBuffer memory) events) .step =
        ((receiverFSM rxBuffer).after (.init rxBuffer memory) events, [])) ∨
    ∃ (byte : UInt8) (behind : List UInt8) (u' : UsartReceiver) (address : Nat),
      rest = byte :: behind ∧ u'.call = .none ∧
      receiverStep rxBuffer ((receiverFSM rxBuffer).after (.init rxBuffer memory) events) .step =
        (u', [.got address byte]) := by
  have inv := run.inv
  generalize (receiverFSM rxBuffer).after (.init rxBuffer memory) events = u at inv getting ⊢
  have step : receiverStep rxBuffer u .step = getStep rxBuffer u := by
    simp only [receiverStep, getting]
  rw [step, getStep]
  by_cases none : u.rxBufferPos = getRxDmaPosition u
  · exact .inl ⟨inv.position_eq_iff.mp none, if_pos none⟩
  · obtain ⟨byte, behind, rfl⟩ := List.exists_cons_of_ne_nil (mt inv.position_eq_iff.mpr none)
    rw [if_neg none, inv.front]
    exact .inr ⟨byte, behind, _, _, rfl, rfl, rfl⟩

/-- **Receiving in order.** Wherever the buffer lies and whatever it holds, in every run in
which never more than 1023 bytes are unread, the bytes returned by `usartRead` and `usartGet`
are those stored, in order; `usartRead` returns the smaller of `len` and what is unread when
it looks, and `usartGet` the first unread byte as soon as there is one; and `rxBufferPos` and
every access stay inside the buffer. -/
theorem usart_receives_in_order (bounded : NeverFull rxBuffer memory events) :
    ReceivesInOrder rxBuffer memory events := by
  refine ⟨fun pre post split => ?_, fun pre post len split idle => ?_,
    fun pre post readLen split reading => ?_, fun pre post split idle => ?_,
    fun pre post split getting nothing => ?_, fun pre post split getting some => ?_,
    fun pre post event split other busy => ?_, fun pre post split => ?_, ?_⟩
  · obtain ⟨rest, run⟩ := receiver_run (NeverFull.of_append (split ▸ bounded))
    exact ⟨rest, run.bytes.symm⟩
  · obtain ⟨rest, run⟩ := receiver_run (NeverFull.of_append (split ▸ bounded))
    have available := run.inv.available
    rw [run.unread, Fsm.after_append]
    generalize (receiverFSM rxBuffer).after (.init rxBuffer memory) pre = u at idle available
    have smaller : (if len < rest.length then len else rest.length) = min len rest.length := by
      rw [Nat.min_def]
      split <;> split <;> omega
    show (receiverStep rxBuffer u (.usartRead len)).1.call = _
    simp only [receiverStep, idle, available, smaller]
  · rw [after_step]
    generalize (receiverFSM rxBuffer).after (.init rxBuffer memory) pre = u at reading
    have step : receiverStep rxBuffer u .step = readCopy rxBuffer u readLen := by
      simp only [receiverStep, reading]
    exact ⟨⟨_, _, congrArg Prod.snd step⟩, congrArg (·.1.call) step⟩
  · rw [Fsm.after_append]
    show (receiverStep rxBuffer _ .usartGet).1.call = _
    simp only [receiverStep, idle]
  · obtain ⟨rest, run⟩ := receiver_run (NeverFull.of_append (split ▸ bounded))
    rw [run.unread] at nothing
    rcases run.get getting with ⟨-, step⟩ | ⟨byte, behind, u', address, rfl, -, -⟩
    · rw [after_step, step]
      exact ⟨congrArg Prod.snd step, getting⟩
    · cases nothing
  · obtain ⟨rest, run⟩ := receiver_run (NeverFull.of_append (split ▸ bounded))
    rw [run.unread] at some
    rcases run.get getting with ⟨rfl, -⟩ | ⟨byte, behind, u', address, rfl, returned, step⟩
    · exact absurd some (Nat.lt_irrefl 0)
    · rw [after_step, step, run.bytes]
      exact ⟨⟨address, byte, by simp, congrArg Prod.snd step⟩, returned⟩
  · rw [Fsm.after_append]
    exact receiverStep_call other busy
  · obtain ⟨rest, run⟩ := receiver_run (NeverFull.of_append (split ▸ bounded))
    exact run.inv.inside
  · obtain ⟨rest, run⟩ := receiver_run bounded
    exact run.sound

end Whole

/-- A byte arrives while `usartRead` copies two others; `usartGet` returns it. -/
theorem byte_during_read_is_kept :
    ReceivesInOrder 0x20000000 (fun _ => 0)
        [.store 1, .store 2, .usartRead 5, .store 3, .step, .usartGet, .step] ∧
      returnedBytes ((receiverFSM 0x20000000).outputs (.init 0x20000000 fun _ => 0)
        [.store 1, .store 2, .usartRead 5, .store 3, .step, .usartGet, .step]) = [1, 2, 3] := by
  refine ⟨usart_receives_in_order ?_, by decide⟩
  intro pre post split
  have part : (storedBytes pre).length ≤ 3 := by
    have whole := congrArg (fun events => (storedBytes events).length) split
    simp only [storedBytes_append, List.length_append] at whole
    have three : (storedBytes [.store 1, .store 2, .usartRead 5, .store 3, .step, .usartGet,
        .step]).length = 3 := rfl
    omega
  unfold unreadBytes commsRxBufferSize
  omega

end OlympusFirmware.Olympus

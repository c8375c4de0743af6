import Mathlib.Data.List.Forall2
import OlympusFirmware.Lib.Ring
import OlympusFirmware.Olympus.I2cReceive
import OlympusFirmware.Olympus.I2cTransmit

/-!
# The queue of I2C transactions

The log of a run is cut where a transaction is taken off the list; the parts belong to the
accepted requests in their order. `Slots` says which transactions are in the list, `Queued`
whose data is in the byte queue. A transfer starts and ends between two times at which the
peripheral and the variables are at rest.
-/

namespace OlympusFirmware.Olympus

open OlympusFirmware.Lib

/-! ## The log of a run -/

/-- The requests that were accepted. -/
def acceptedRequests (log : List I2cOutput) : List I2cRequest :=
  log.filterMap fun
    | .accepted r => some r
    | _ => none

/-- A call of a callback. -/
def I2cOutput.isCallback : I2cOutput → Bool
  | .txCallback .. | .rxCallback .. => true
  | _ => false

def callbacks (log : List I2cOutput) : List I2cOutput := log.filter I2cOutput.isCallback

/-- The log, cut where transactions are finished: what belongs to each that is, and to the next. -/
def logStep (parts : List (List I2cOutput) × List I2cOutput) :
    I2cOutput → List (List I2cOutput) × List I2cOutput
  | .accepted _ | .refused => parts
  | .finished => (parts.1 ++ [parts.2], [])
  | o => (parts.1, parts.2 ++ [o])

def transfers (log : List I2cOutput) : List (List I2cOutput) × List I2cOutput :=
  log.foldl logStep ([], [])

@[simp] theorem acceptedRequests_append (log more : List I2cOutput) :
    acceptedRequests (log ++ more) = acceptedRequests log ++ acceptedRequests more :=
  List.filterMap_append

@[simp] theorem callbacks_append (log more : List I2cOutput) :
    callbacks (log ++ more) = callbacks log ++ callbacks more := List.filter_append ..

theorem transfers_append (log more : List I2cOutput) :
    transfers (log ++ more) = more.foldl logStep (transfers log) := List.foldl_append

/-- What happens on the bus belongs to the next transaction. -/
theorem transfers_onBus {log more : List I2cOutput} (bus : ∀ o ∈ more, o.onBus = true) :
    transfers (log ++ more) = ((transfers log).1, (transfers log).2 ++ more) := by
  rw [transfers_append]
  generalize transfers log = parts
  induction more generalizing parts with
  | nil => rw [List.foldl_nil, List.append_nil]
  | cons o more ih =>
      have first : logStep parts o = (parts.1, parts.2 ++ [o]) := by
        have onBus := bus o List.mem_cons_self
        cases o with
        | accepted r => cases onBus
        | refused => cases onBus
        | finished => cases onBus
        | _ => rfl
      rw [List.foldl_cons, first, ih (fun o' member => bus o' (List.mem_cons_of_mem o member))]
      rw [List.append_assoc]
      rfl

theorem acceptedRequests_onBus {log : List I2cOutput} (bus : ∀ o ∈ log, o.onBus = true) :
    acceptedRequests log = [] := by
  apply List.filterMap_eq_nil_iff.mpr
  intro o member
  have onBus := bus o member
  cases o with
  | accepted r => cases onBus
  | _ => rfl

theorem callbacks_onBus {log : List I2cOutput} (bus : ∀ o ∈ log, o.onBus = true) :
    callbacks log = [] := by
  apply List.filter_eq_nil_iff.mpr
  intro o member
  have onBus := bus o member
  cases o with
  | txCallback callback status => cases onBus
  | rxCallback callback rxData numBytes status => cases onBus
  | _ => exact Bool.false_ne_true

/-- So does the call of its callback. -/
theorem transfers_callback (log : List I2cOutput) {o : I2cOutput} (call : o.isCallback = true) :
    transfers (log ++ [o]) = ((transfers log).1, (transfers log).2 ++ [o]) ∧
      acceptedRequests (log ++ [o]) = acceptedRequests log := by
  rw [transfers_append, acceptedRequests_append]
  cases o with
  | txCallback callback status => exact ⟨rfl, List.append_nil _⟩
  | rxCallback callback rxData numBytes status => exact ⟨rfl, List.append_nil _⟩
  | _ => cases call

/-! ## What is asked -/

/-- The bytes the master sends. -/
def I2cRequest.wire : I2cRequest → List UInt8
  | .tx addr txData _ => (addr <<< 1 ||| 0) :: txData
  | .rx addr _ _ => [addr <<< 1 ||| 1]

/-- How the callback of a transaction is called: once, if there is one, with the status of the
transfer; with the bytes received and `counts n`, where `n` bytes were asked for. -/
def CalledBack (counts : Nat → Nat) (r : I2cRequest) (log : List I2cOutput) : Prop :=
  match r with
  | .tx _ _ none => callbacks log = []
  | .tx _ _ (some callback) => callbacks log = [.txCallback callback (endStatus log)]
  | .rx _ _ none => callbacks log = []
  | .rx _ n (some callback) => ∃ rxData numBytes,
      callbacks log = [.rxCallback callback rxData numBytes (endStatus log)] ∧
      (endStatus log = .ack → (receivedBytes log).length = n ∧
        rxData.take n = receivedBytes log ∧ numBytes = counts n)

/-- The log of a transaction that is finished. -/
structure Served (counts : Nat → Nat) (r : I2cRequest) (log : List I2cOutput) : Prop where
  sent : sentBytes log <+: r.wire
  whole : endStatus log = .ack → sentBytes log = r.wire
  called : CalledBack counts r log

/-- The log of the transaction that runs, if there is one. -/
def Current (counts : Nat → Nat) (log : List I2cOutput) : Option I2cRequest → Prop
  | none => log = []
  | some r => sentBytes log <+: r.wire ∧ (callbacks log = [] ∨ Served counts r log)

/-- The accepted requests are those served, in order, and those that wait. -/
structure InOrder (counts : Nat → Nat) (log : List I2cOutput) (served waiting : List I2cRequest) :
    Prop where
  requests : acceptedRequests log = served ++ waiting
  served : List.Forall₂ (Served counts) served (transfers log).1
  current : Current counts (transfers log).2 waiting.head?

/-! ## The list of transactions -/

/-- The transactions that wait are in the list from `head` on; the other slots are free. -/
structure Slots (cfg : I2cConfig) (waiting : List I2cRequest) (head : Nat)
    (list : Mem I2cTransaction) (free : Nat) : Prop where
  head_lt : head < cfg.maxNumTransactions
  cells : ∃ vacant, Ring.contents cfg.maxNumTransactions list head cfg.maxNumTransactions =
    waiting.map I2cRequest.transaction ++ vacant ∧ ∀ t ∈ vacant, t.ready = false
  free_eq : free = (head + waiting.length) % cfg.maxNumTransactions

theorem transaction_ready (r : I2cRequest) : r.transaction.ready = true := by
  cases r with
  | tx addr txData callback => rfl
  | rx addr numBytes callback => rfl

section Slots

variable {cfg : I2cConfig} {waiting rest : List I2cRequest} {head free : Nat} {r : I2cRequest}
  {list : Mem I2cTransaction}

theorem nextSlot_eq (inside : head < cfg.maxNumTransactions) :
    nextSlot cfg head = (head + 1) % cfg.maxNumTransactions := by
  unfold nextSlot
  by_cases last : head + 1 = cfg.maxNumTransactions
  · rw [if_pos last, last, Nat.mod_self]
  · rw [if_neg last, Nat.mod_eq_of_lt (by omega)]

theorem Slots.few (slots : Slots cfg waiting head list free) :
    waiting.length ≤ cfg.maxNumTransactions := by
  obtain ⟨vacant, cells, -⟩ := slots.cells
  have length := congrArg List.length cells
  rw [Ring.length_contents, List.length_append, List.length_map] at length
  omega

theorem slot_head (list : Mem I2cTransaction) (head : Nat) (cfg : I2cConfig) :
    (Ring.contents cfg.maxNumTransactions list head cfg.maxNumTransactions)[0]? =
      some (list (head % cfg.maxNumTransactions)) := Ring.contents_getElem? cfg.positive

/-- The first slot has the first transaction. -/
theorem Slots.first (slots : Slots cfg (r :: rest) head list free) :
    list head = r.transaction := by
  obtain ⟨vacant, cells, -⟩ := slots.cells
  have cell := slot_head list head cfg
  rw [cells, Nat.mod_eq_of_lt slots.head_lt] at cell
  exact (Option.some.inj cell).symm

/-- It is ready exactly when there is one. -/
theorem Slots.ready_iff (slots : Slots cfg waiting head list free) :
    (list head).ready = true ↔ waiting ≠ [] := by
  cases waiting with
  | nil =>
      obtain ⟨vacant, cells, notReady⟩ := slots.cells
      have cell := slot_head list head cfg
      rw [cells, Nat.mod_eq_of_lt slots.head_lt] at cell
      have member : list head ∈ vacant := List.mem_of_getElem? cell
      rw [notReady (list head) member]
      simp
  | cons r rest =>
      rw [slots.first]
      exact iff_of_true (transaction_ready r) (List.cons_ne_nil r rest)

/-- There is a free slot exactly when not all have a transaction. -/
theorem Slots.room (slots : Slots cfg waiting head list free)
    (notReady : (list free).ready ≠ true) : waiting.length < cfg.maxNumTransactions := by
  rcases Nat.lt_or_eq_of_le slots.few with room | full
  · exact room
  · have round : free = head := by
      rw [slots.free_eq, full, Nat.add_mod_right, Nat.mod_eq_of_lt slots.head_lt]
    rw [round] at notReady
    have none : waiting = [] := not_not.mp (mt slots.ready_iff.mpr notReady)
    have positive := cfg.positive
    rw [none, List.length_nil] at full
    omega

/-- **A transaction is added.** -/
theorem Slots.add (slots : Slots cfg waiting head list free)
    (room : waiting.length < cfg.maxNumTransactions) (r : I2cRequest) :
    Slots cfg (waiting ++ [r]) head (list.store free [r.transaction]) (nextSlot cfg free) := by
  obtain ⟨vacant, cells, notReady⟩ := slots.cells
  have length := congrArg List.length cells
  rw [Ring.length_contents, List.length_append, List.length_map] at length
  obtain ⟨slot, others, rfl⟩ : ∃ slot others, vacant = slot :: others :=
    List.exists_cons_of_length_pos (by omega)
  refine ⟨slots.head_lt, ⟨others, ?_, ?_⟩, ?_⟩
  · rw [slots.free_eq, Ring.contents_store_cell room, cells]
    rw [List.set_append_right _ _ (by rw [List.length_map])]
    rw [List.length_map, Nat.sub_self, List.set_cons_zero, List.map_append, List.append_assoc]
    rfl
  · intro t member
    exact notReady t (List.mem_cons_of_mem slot member)
  · have inside : free < cfg.maxNumTransactions := by
      rw [slots.free_eq]
      exact Nat.mod_lt _ cfg.positive
    rw [nextSlot_eq inside, slots.free_eq, Nat.mod_add_mod, List.length_append]
    rfl

/-- **A transaction is taken off.** -/
theorem Slots.finish (slots : Slots cfg (r :: rest) head list free) :
    Slots cfg rest (nextSlot cfg head)
      (list.store head [{ list head with ready := false }]) free := by
  obtain ⟨vacant, cells, notReady⟩ := slots.cells
  have stored : Ring.contents cfg.maxNumTransactions
      (list.store (head % cfg.maxNumTransactions) [{ list head with ready := false }]) head
      cfg.maxNumTransactions = _ :=
    Ring.contents_store_cell cfg.positive { list head with ready := false }
  rw [Nat.mod_eq_of_lt slots.head_lt, cells] at stored
  refine ⟨?_, ⟨vacant ++ [{ list head with ready := false }], ?_, ?_⟩, ?_⟩
  · rw [nextSlot_eq slots.head_lt]
    exact Nat.mod_lt _ cfg.positive
  · rw [nextSlot_eq slots.head_lt, Ring.contents_mod, Ring.contents_next cfg.positive, stored,
      Nat.mod_eq_of_lt slots.head_lt, Mem.store_inside (Nat.le_refl _) (by simp)]
    simp
  · intro t member
    rcases List.mem_append.mp member with before | last
    · exact notReady t before
    · rw [List.mem_singleton.mp last]
  · rw [nextSlot_eq slots.head_lt, Nat.mod_add_mod, slots.free_eq, List.length_cons,
      Nat.add_assoc, Nat.add_comm 1]

end Slots

/-! ## Starting and ending a transfer -/

/-- Between two transfers. -/
structure Rested (x : I2cTransfer) : Prop where
  phase : x.bus.phase = .free
  stop : x.bus.stop = false
  pos : x.bus.pos = false
  service : x.shouldServiceI2C = false
  status : x.i2cStatus = .ack
  idx : x.i2cRxDataBufferIdx = 0

/-- The transfer of a request, after the outputs `cur`. -/
def I2cRequest.Runs (r : I2cRequest) (cur : List I2cOutput) (x : I2cTransfer) : Prop :=
  match r with
  | .tx addr txData _ => TxRuns addr txData cur x
  | .rx addr n _ => RxRuns addr n cur x

/-- What fits into `uint8_t`, and into the buffer for what is received. -/
structure I2cRequest.Fits (cfg : I2cConfig) (r : I2cRequest) : Prop where
  positive : 0 < r.numBytes
  byte : r.numBytes < 256
  buffer : r.transaction.type = .rx → r.numBytes ≤ cfg.rxBufSize

/-- The bytes in the queue are those of the transactions behind the one that runs. -/
def Queued (cfg : I2cConfig) (behind : List I2cRequest) (fifo : Buffer8) : Prop :=
  ∃ total, Buffer8Inv 0 cfg.txBufSize total (behind.flatMap I2cRequest.data) fifo

/-- The loop of `startI2CTransfer` takes the bytes of the transaction from the queue. -/
theorem copyFromFifo_spec {size total : Nat} {more : List UInt8} (data : List UInt8) :
    ∀ (i : Nat) (fifo : Buffer8) (buffer : Mem UInt8),
      Buffer8Inv 0 size total (data ++ more) fifo →
      Buffer8Inv 0 size total more (copyFromFifo data.length i fifo buffer).1 ∧
        (copyFromFifo data.length i fifo buffer).2 = buffer.store i data := by
  induction data with
  | nil =>
      intro i fifo buffer inv
      refine ⟨inv, ?_⟩
      funext j
      simp [copyFromFifo, Mem.store]
  | cons byte data ih =>
      intro i fifo buffer inv
      obtain ⟨left, value⟩ := inv.get
      obtain ⟨rest, copied⟩ := ih (i + 1) (buffer8Get fifo).1 (buffer.store i [byte]) left
      have unfolded : copyFromFifo (byte :: data).length i fifo buffer =
          copyFromFifo data.length (i + 1) (buffer8Get fifo).1 (buffer.store i [byte]) := by
        rw [List.length_cons, copyFromFifo, value]
        rfl
      rw [unfolded]
      refine ⟨rest, ?_⟩
      rw [copied]
      exact Mem.store_append buffer i [byte] data

section Transfer

variable {cfg : I2cConfig} {r : I2cRequest} {rest : List I2cRequest} {s : I2c}

/-- What `startI2CTransfer` leaves. -/
structure Starts (cfg : I2cConfig) (r : I2cRequest) (rest : List I2cRequest) (s s' : I2c) :
    Prop where
  transactionList : s'.transactionList = s.transactionList
  freeTransaction : s'.freeTransaction = s.freeTransaction
  nextTransaction : s'.nextTransaction = s.nextTransaction
  calling : s'.calling = s.calling
  running : s'.i2cRunning = true
  fifo : Queued cfg rest s'.i2cTxDataFifo
  runs : r.Runs [] s'.transfer
  status : s'.transfer.i2cStatus = .ack

/-- **`startI2CTransfer`**, between two transfers. -/
theorem startI2CTransfer_starts (rested : Rested s.transfer) (fits : r.Fits cfg)
    (next : s.transactionList s.nextTransaction = r.transaction)
    (fifo : Queued cfg (r :: rest) s.i2cTxDataFifo) :
    Starts cfg r rest s (startI2CTransfer s) := by
  obtain ⟨total, inv⟩ := fifo
  have byte := fits.byte
  cases r with
  | tx addr txData callback =>
      have count : (UInt8.ofNat txData.length).toNat = txData.length :=
        UInt8.toNat_ofNat_of_lt' byte
      obtain ⟨left, copied⟩ := copyFromFifo_spec txData 0 s.i2cTxDataFifo
        s.transfer.i2cTxNextTransferBuffer inv
      unfold startI2CTransfer
      rw [next]
      dsimp only [I2cRequest.transaction]
      rw [count]
      refine ⟨rfl, rfl, rfl, rfl, rfl, ⟨total, left⟩, ⟨rfl, ⟨?_, ?_, ?_, ?_⟩, rfl, ?_⟩, ?_⟩
      · exact count
      · exact rested.status
      · exact rested.service
      · exact rested.stop
      · dsimp only [I2cTransfer.enter]
        rw [copied]
        exact Mem.load_store_self ..
      · exact rested.status
  | rx addr numBytes callback =>
      have count : (UInt8.ofNat numBytes).toNat = numBytes := UInt8.toNat_ofNat_of_lt' byte
      unfold startI2CTransfer
      rw [next]
      exact ⟨rfl, rfl, rfl, rfl, rfl, ⟨total, inv⟩,
        ⟨rfl, ⟨count, rested.status, rested.service, rested.stop⟩, rested.idx, rfl, rested.pos⟩,
        rested.status⟩

/-- `serviceI2C` puts the transfer to rest. -/
theorem endTransfer_rested (t : I2cTransaction) {x : I2cTransfer} (free : x.bus.phase = .free) :
    Rested (endTransfer t x) := by
  unfold endTransfer
  dsimp only
  by_cases one : x.i2cStatus = .ack ∧ t.numBytes = 1
  · rw [if_pos one]
    exact ⟨(takeByte_phase _).trans free, takeByte_stop _, takeByte_pos _, rfl, rfl, rfl⟩
  · rw [if_neg one]
    exact ⟨free, rfl, rfl, rfl, rfl, rfl⟩

/-- Between two transfers nothing happens on the bus. -/
theorem busStep_rested (t : I2cTransaction) {x : I2cTransfer} (free : x.bus.phase = .free)
    (e : BusEvent) : busStep t x e = (x, []) := by
  have effect := busStep_effect t x e
  have idle : x.bus.busy = false := by
    unfold I2cBus.busy
    rw [free]
    rfl
  generalize busStep t x e = result at effect
  cases effect with
  | none => rfl
  | sb phase => rw [free] at phase; cases phase
  | addr byte phase => rw [free] at phase; cases phase
  | btf byte phase => rw [free] at phase; cases phase
  | btfWritten phase => rw [free] at phase; cases phase
  | btfRead phase full => rw [free] at phase; cases phase
  | af byte phase =>
      rw [free] at phase
      rcases phase with phase | phase
      · cases phase
      · cases phase
  | arlo busy => rw [idle] at busy; cases busy
  | berr busy => rw [idle] at busy; cases busy
  | byte byte phase room more => rw [free] at phase; cases phase
  | stop bit phase =>
      rw [free] at phase
      rcases phase with phase | phase | ⟨phase, -⟩
      · cases phase
      · cases phase
      · cases phase

variable {x : I2cTransfer} {cur : List I2cOutput}

/-- **One event** of a transfer. -/
theorem I2cRequest.Runs.step (runs : r.Runs cur x) (fits : r.Fits cfg) (e : BusEvent) :
    r.Runs (cur ++ (busStep r.transaction x e).2) (busStep r.transaction x e).1 := by
  cases r with
  | tx addr txData callback =>
      have sending : TxRuns addr txData cur x := runs
      have isAddr : (I2cRequest.tx addr txData callback).transaction.addr = addr := rfl
      have next := sending.step rfl isAddr e
      exact next
  | rx addr n callback =>
      have receiving : RxRuns addr n cur x := runs
      have isAddr : (I2cRequest.rx addr n callback).transaction.addr = addr := rfl
      have next := receiving.step rfl isAddr fits.positive e
      exact next

theorem I2cRequest.Runs.sent (runs : r.Runs cur x) : sentBytes cur <+: r.wire := by
  cases r with
  | tx addr txData callback => exact TxRuns.sent runs
  | rx addr n callback => exact RxRuns.sent runs

/-- When `serviceI2C` goes on, the bus is free. -/
theorem I2cRequest.Runs.free (runs : r.Runs cur x) (service : x.shouldServiceI2C = true)
    (idle : x.bus.busy = false) : x.bus.phase = .free := by
  have phases : x.bus.phase = .free ∨ x.bus.phase = .start := by
    by_contra neither
    rw [not_or] at neither
    simp [I2cBus.busy, neither] at idle
  rcases phases with free | start
  · exact free
  · cases r with
    | tx addr txData callback =>
        obtain ⟨-, fresh⟩ := TxRuns.inPhase runs start
        rw [fresh.service] at service
        cases service
    | rx addr n callback =>
        obtain ⟨-, fresh⟩ := RxRuns.inPhase runs start
        rw [fresh.service] at service
        cases service

/-- `serviceI2C` fetches one byte from the data register. -/
theorem endTransfer_one {t : I2cTransaction} {last : UInt8} (ack : x.i2cStatus = .ack)
    (one : t.numBytes = 1) (received : x.bus.received = [last]) :
    (endTransfer t x).i2cRxDataBuffer = x.i2cRxDataBuffer.store x.i2cRxDataBufferIdx [last] := by
  unfold endTransfer
  dsimp only
  rw [if_pos ⟨ack, one⟩]
  simp only [I2cTransfer.takeByte, I2cBus.readDr, received]

theorem endTransfer_more {t : I2cTransaction} (more : t.numBytes ≠ 1) :
    (endTransfer t x).i2cRxDataBuffer = x.i2cRxDataBuffer := by
  unfold endTransfer
  dsimp only
  rw [if_neg (fun both => more both.2)]

theorem I2cRequest.Runs.service (runs : r.Runs cur x) (free : x.bus.phase = .free) :
    x.shouldServiceI2C = true := by
  cases r with
  | tx addr txData callback =>
      have isOver : TxOver addr txData cur x := TxRuns.inPhase runs free
      exact isOver.service
  | rx addr n callback =>
      have isOver : RxOver addr n cur x := RxRuns.inPhase runs free
      exact isOver.service

theorem I2cRequest.Runs.progress (runs : r.Runs cur x) (notFree : x.bus.phase ≠ .free) :
    CanAdvance r.transaction x := by
  cases r with
  | tx addr txData callback =>
      have sending : TxRuns addr txData cur x := runs
      exact sending.progress rfl notFree
  | rx addr n callback =>
      have receiving : RxRuns addr n cur x := runs
      exact receiving.progress rfl notFree

theorem callbackOutput_isCallback (cfg : I2cConfig) (t : I2cTransaction) (x : I2cTransfer)
    (status : I2cStatus) (callback : Nat) :
    (callbackOutput cfg t x status callback).isCallback = true := by
  unfold callbackOutput
  cases t.type with
  | tx => rfl
  | rx => rfl

/-- What the callback of a transaction that reads finds in the buffer. -/
theorem RxWhole.data {addr : UInt8} {n : Nat} {callback : Option Nat}
    (whole : RxWhole addr n cur x) (ack : x.i2cStatus = .ack) (byte : n < 256) :
    (endTransfer (I2cRequest.rx addr n callback).transaction x).i2cRxDataBuffer.load 0 n =
      receivedBytes cur := by
  rcases whole.bytes with ⟨rfl, idx, received⟩ | ⟨two, buffer⟩
  · obtain ⟨last, is⟩ := List.length_eq_one_iff.mp whole.count
    rw [endTransfer_one ack rfl (received.trans is), idx, is]
    exact Mem.load_store_self x.i2cRxDataBuffer 0 [last]
  · have more : UInt8.ofNat n ≠ 1 := by
      intro one
      have is : (UInt8.ofNat n).toNat = 1 := congrArg UInt8.toNat one
      rw [UInt8.toNat_ofNat_of_lt' byte] at is
      omega
    rw [endTransfer_more more]
    exact buffer

/-- A call is not on the bus. -/
theorem call_silent (log : List I2cOutput) {o : I2cOutput} (call : o.isCallback = true) :
    sentBytes (log ++ [o]) = sentBytes log ∧ receivedBytes (log ++ [o]) = receivedBytes log ∧
      endStatus (log ++ [o]) = endStatus log ∧ callbacks (log ++ [o]) = callbacks log ++ [o] := by
  have nothing : sentBytes [o] = [] ∧ receivedBytes [o] = [] ∧ failures [o] = [] ∧
      callbacks [o] = [o] := by
    cases o with
    | txCallback callback status => exact ⟨rfl, rfl, rfl, rfl⟩
    | rxCallback callback rxData numBytes status => exact ⟨rfl, rfl, rfl, rfl⟩
    | _ => cases call
  obtain ⟨noneSent, noneReceived, noneFailed, called⟩ := nothing
  refine ⟨sentBytes_silent noneSent, receivedBytes_silent noneReceived,
    endStatus_append noneFailed, ?_⟩
  rw [callbacks_append, called]

/-- A transfer that has sent, with the call of its callback. -/
theorem TxOver.served {addr : UInt8} {txData : List UInt8} (isOver : TxOver addr txData cur x)
    (status : x.i2cStatus = endStatus cur) (quiet : callbacks cur = []) (callback : Option Nat) :
    Served (fun _ => 0) (.tx addr txData callback)
      (cur ++ (callback.map fun c => I2cOutput.txCallback c x.i2cStatus).toList) := by
  cases callback with
  | none =>
      show Served _ _ (cur ++ [])
      rw [List.append_nil]
      exact ⟨isOver.sent, fun ack => isOver.whole (status.trans ack), quiet⟩
  | some callback =>
      show Served _ _ (cur ++ [.txCallback callback x.i2cStatus])
      have call : (I2cOutput.txCallback callback x.i2cStatus).isCallback = true := rfl
      obtain ⟨sent, -, same, called⟩ := call_silent cur call
      refine ⟨?_, ?_, ?_⟩
      · rw [sent]
        exact isOver.sent
      · intro ack
        rw [sent]
        exact isOver.whole (status.trans (same.symm.trans ack))
      · show callbacks _ = [_]
        rw [called, quiet, same, status]
        rfl

/-- A transfer that has received, with the call of its callback. -/
theorem RxOver.served {addr : UInt8} {n : Nat} (isOver : RxOver addr n cur x)
    (status : x.i2cStatus = endStatus cur) (quiet : callbacks cur = []) {rxData : List UInt8}
    (data : x.i2cStatus = .ack → rxData.take n = receivedBytes cur) (callback : Option Nat) :
    Served (fun _ => 0) (.rx addr n callback)
      (cur ++ (callback.map fun c => I2cOutput.rxCallback c rxData 0 x.i2cStatus).toList) := by
  cases callback with
  | none =>
      show Served _ _ (cur ++ [])
      rw [List.append_nil]
      exact ⟨isOver.sent, fun ack => (isOver.whole (status.trans ack)).sent, quiet⟩
  | some callback =>
      show Served _ _ (cur ++ [.rxCallback callback rxData 0 x.i2cStatus])
      have call : (I2cOutput.rxCallback callback rxData 0 x.i2cStatus).isCallback = true := rfl
      obtain ⟨sent, received, same, called⟩ := call_silent cur call
      have acked (ack : endStatus (cur ++ [.rxCallback callback rxData 0 x.i2cStatus]) = .ack) :
          x.i2cStatus = .ack := status.trans (same.symm.trans ack)
      refine ⟨?_, ?_, ⟨rxData, 0, ?_, ?_⟩⟩
      · rw [sent]
        exact isOver.sent
      · intro ack
        rw [sent]
        exact (isOver.whole (acked ack)).sent
      · rw [called, quiet, same, status]
        rfl
      · intro ack
        rw [received]
        exact ⟨(isOver.whole (acked ack)).count, data (acked ack), rfl⟩

/-- What `serviceI2C` calls, when the bus is free again. -/
theorem I2cRequest.Runs.served (runs : r.Runs cur x) (free : x.bus.phase = .free)
    (fits : r.Fits cfg) (status : x.i2cStatus = endStatus cur) (quiet : callbacks cur = []) :
    Served (fun _ => 0) r (cur ++ (r.transaction.callback.map
      (callbackOutput cfg r.transaction (endTransfer r.transaction x) x.i2cStatus)).toList) := by
  cases r with
  | tx addr txData callback =>
      have isOver : TxOver addr txData cur x := TxRuns.inPhase runs free
      exact isOver.served status quiet callback
  | rx addr n callback =>
      have isOver : RxOver addr n cur x := RxRuns.inPhase runs free
      refine isOver.served status quiet ?_ callback
      intro ack
      have room : n ≤ cfg.rxBufSize := fits.buffer rfl
      rw [Mem.load_take room]
      exact (isOver.whole ack).data ack fits.byte

end Transfer

end OlympusFirmware.Olympus

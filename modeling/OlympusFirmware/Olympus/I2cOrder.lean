import OlympusFirmware.Olympus.I2cQueue

/-!
# The transactions of the I2C driver

Whatever is added, also from callbacks, and whatever happens on the bus, the transactions run
one after the other in the order in which they were added, and each calls its callback once,
with the status of its transfer. `QueueInv` says what holds after any run: what is finished was
served in order, and what the driver is doing for the next transaction. What waits goes on.

`serviceI2C` resets `i2cRxDataBufferIdx` before it passes it to the callback of a transaction
that reads. `numBytes`, the number of bytes received as the usage notes have it, is always 0.
-/

namespace OlympusFirmware.Olympus

open OlympusFirmware.Lib

/-- The callback of a transaction that has read with `I2C_ACK`. -/
def I2cOutput.isRead : I2cOutput → Bool
  | .rxCallback _ _ _ .ack => true
  | _ => false

/-- A call that returns true. -/
def AddReturnsTrue (s : I2c) : Prop := (s.transactionList s.freeTransaction).ready = false

/-- `numBytes` is within the configured sizes. -/
def I2cRequest.InRange (cfg : I2cConfig) (r : I2cRequest) : Prop :=
  0 < r.numBytes ∧ r.numBytes ≤ match r with
    | .tx .. => cfg.txBufSize
    | .rx .. => cfg.rxBufSize

/-- The calls that return true are in range. -/
def CallInRange (cfg : I2cConfig) (s : I2c) : I2cEvent → Prop
  | .add r => AddReturnsTrue s → r.InRange cfg
  | .service | .ret | .bus _ => True

/-- A call of `serviceI2C` that finishes a transaction. -/
def Finishes (s : I2c) : Prop :=
  s.calling = none ∧ s.transfer.shouldServiceI2C = true ∧ s.transfer.bus.busy = false

/-- `numBytes` and `lastTransaction` are of type `uint8_t`, and the byte queue has not come to
the end of its array. -/
def Within (cfg : I2cConfig) (s : I2c) : I2cEvent → Prop
  | .add r => AddReturnsTrue s →
      r.numBytes < 256 ∧ s.i2cTxDataFifo.start + r.data.length ≤ cfg.txBufSize
  | .service => Finishes s → s.nextTransaction < 256
  | .ret | .bus _ => True

/-- A transaction that reads, with a callback, is finished with `I2C_ACK`. -/
def ReadCompletes (s : I2c) : I2cEvent → Prop
  | .service => Finishes s ∧ s.transfer.i2cStatus = .ack ∧
      (s.transactionList s.nextTransaction).type = .rx ∧
      (s.transactionList s.nextTransaction).callback ≠ none
  | .add _ | .ret | .bus _ => False

/-- Without an error the bus comes to where `serviceI2C` finishes the transaction. -/
def GoesOn (cfg : I2cConfig) (s : I2c) : Prop :=
  ∃ more : List BusEvent, (∀ e ∈ more, e.isError = false) ∧
    ((i2cFSM cfg).after s (more.map .bus)).transfer.shouldServiceI2C = true ∧
    ((i2cFSM cfg).after s (more.map .bus)).transfer.bus.busy = false

/-- The list, the queue of bytes and what waits. -/
structure Holds (cfg : I2cConfig) (waiting : List I2cRequest) (head : Nat) (s : I2c) : Prop where
  slots : Slots cfg waiting head s.transactionList s.freeTransaction
  fifo : Queued cfg waiting.tail s.i2cTxDataFifo
  fits : ∀ r ∈ waiting, r.Fits cfg

/-- What the driver does: nothing, as nothing waits; a transfer; or it is in a callback. -/
inductive Stage (cfg : I2cConfig) (waiting : List I2cRequest) (cur : List I2cOutput) (head : Nat)
    (s : I2c) : Prop
  | rest (empty : waiting = []) (silent : cur = []) (idle : s.i2cRunning = false)
      (outside : s.calling = none) (next : s.nextTransaction = head) (rested : Rested s.transfer)
  | transfer (r : I2cRequest) (rest : List I2cRequest) (first : waiting = r :: rest)
      (running : s.i2cRunning = true) (outside : s.calling = none)
      (next : s.nextTransaction = head) (runs : r.Runs cur s.transfer)
      (status : s.transfer.i2cStatus = endStatus cur) (quiet : callbacks cur = [])
  | callback (r : I2cRequest) (rest : List I2cRequest) (first : waiting = r :: rest)
      (running : s.i2cRunning = true) (inside : s.calling = some head)
      (next : s.nextTransaction = nextSlot cfg head) (rested : Rested s.transfer)
      (done : Served (fun _ => 0) r cur)

/-- What holds after every run. -/
structure QueueInv (cfg : I2cConfig) (log : List I2cOutput) (served waiting : List I2cRequest)
    (head : Nat) (s : I2c) : Prop where
  requests : acceptedRequests log = served ++ waiting
  positive : ∀ r ∈ acceptedRequests log, 0 < r.numBytes
  served : List.Forall₂ (Served fun _ => 0) served (transfers log).1
  holds : Holds cfg waiting head s
  stage : Stage cfg waiting (transfers log).2 head s

section Steps

variable {cfg : I2cConfig} {log : List I2cOutput} {served waiting rest : List I2cRequest}
  {head : Nat} {r : I2cRequest} {s : I2c}

/-- The data of a transaction that is added goes to the queue of bytes. -/
theorem queued_add {fifo : Buffer8} (queued : Queued cfg waiting fifo)
    (room : fifo.start + r.data.length ≤ cfg.txBufSize) :
    Queued cfg (waiting ++ [r]) (r.queueData fifo) := by
  obtain ⟨total, inv⟩ := queued
  have start := inv.start
  unfold Queued
  rw [List.flatMap_append, List.flatMap_singleton]
  cases r with
  | tx addr txData callback =>
      have fits : total + txData.length ≤ cfg.txBufSize := by
        have room' : fifo.start + txData.length ≤ cfg.txBufSize := room
        omega
      exact ⟨total + txData.length, inv.write txData fits⟩
  | rx addr n callback =>
      show ∃ total, Buffer8Inv 0 cfg.txBufSize total (_ ++ []) fifo
      rw [List.append_nil]
      exact ⟨total, inv⟩

/-- **A transaction is taken off the list**, and the next one starts. -/
theorem Holds.finish (holds : Holds cfg (r :: rest) head s)
    (next : s.nextTransaction = nextSlot cfg head) (rested : Rested s.transfer) :
    Holds cfg rest (nextSlot cfg head) (finishTransaction s head).1 ∧
      Stage cfg rest [] (nextSlot cfg head) (finishTransaction s head).1 := by
  have slots := holds.slots.finish
  have fits : ∀ r' ∈ rest, r'.Fits cfg :=
    fun r' member => holds.fits r' (List.mem_cons_of_mem r member)
  have fifo : Queued cfg rest s.i2cTxDataFifo := holds.fifo
  unfold finishTransaction
  dsimp only
  rw [next]
  cases rest with
  | nil =>
      have none : ¬ (s.transactionList.store head
          [{ s.transactionList head with ready := false }] (nextSlot cfg head)).ready = true :=
        fun ready => slots.ready_iff.mp ready rfl
      rw [if_neg none]
      exact ⟨⟨slots, fifo, fits⟩, .rest rfl rfl rfl rfl rfl rested⟩
  | cons r' rest =>
      rw [if_pos (slots.ready_iff.mpr (List.cons_ne_nil r' rest))]
      have starts : Starts cfg r' rest { s with
            transactionList :=
              s.transactionList.store head [{ s.transactionList head with ready := false }]
            nextTransaction := nextSlot cfg head
            i2cRunning := false
            calling := none } _ :=
        startI2CTransfer_starts rested (fits r' List.mem_cons_self) slots.first fifo
      refine ⟨⟨?_, starts.fifo, fits⟩, .transfer r' rest rfl starts.running starts.calling
        starts.nextTransaction starts.runs starts.status rfl⟩
      rw [starts.transactionList, starts.freeTransaction]
      exact slots

/-- While something runs, what is added waits. -/
theorem Holds.wait {cur : List I2cOutput} (holds : Holds cfg waiting head s)
    (stage : Stage cfg waiting cur head s) (running : s.i2cRunning = true)
    (notReady : (s.transactionList s.freeTransaction).ready ≠ true) (fits : r.Fits cfg)
    (room : s.i2cTxDataFifo.start + r.data.length ≤ cfg.txBufSize) :
    Holds cfg (waiting ++ [r]) head (setupTransaction cfg s r) ∧
      Stage cfg (waiting ++ [r]) cur head (setupTransaction cfg s r) := by
  have slots := holds.slots.add (holds.slots.room notReady) r
  have fifo := queued_add holds.fifo room
  have allFit : ∀ r' ∈ waiting ++ [r], r'.Fits cfg :=
    List.forall_mem_append.mpr ⟨holds.fits, List.forall_mem_singleton.mpr fits⟩
  cases stage with
  | rest empty silent idle outside next rested =>
      rw [idle] at running
      cases running
  | transfer w rest first running outside next runs status quiet =>
      subst first
      exact ⟨⟨slots, fifo, allFit⟩,
        .transfer w (rest ++ [r]) rfl running outside next runs status quiet⟩
  | callback w rest first running inside next rested done =>
      subst first
      exact ⟨⟨slots, fifo, allFit⟩,
        .callback w (rest ++ [r]) rfl running inside next rested done⟩

/-- When nothing runs it starts. -/
theorem Holds.start {cur : List I2cOutput} (holds : Holds cfg waiting head s)
    (stage : Stage cfg waiting cur head s) (stopped : s.i2cRunning = false)
    (notReady : (s.transactionList s.freeTransaction).ready ≠ true) (fits : r.Fits cfg)
    (room : s.i2cTxDataFifo.start + r.data.length ≤ cfg.txBufSize) :
    Holds cfg (waiting ++ [r]) head (startI2CTransfer (setupTransaction cfg s r)) ∧
      Stage cfg (waiting ++ [r]) cur head (startI2CTransfer (setupTransaction cfg s r)) := by
  have slots := holds.slots.add (holds.slots.room notReady) r
  have fifo := queued_add holds.fifo room
  cases stage with
  | rest empty silent idle outside next rested =>
      subst empty silent
      have first : (setupTransaction cfg s r).transactionList s.nextTransaction =
          r.transaction := by
        rw [next]
        exact slots.first
      have starts : Starts cfg r [] (setupTransaction cfg s r) _ :=
        startI2CTransfer_starts rested fits first fifo
      refine ⟨⟨?_, starts.fifo, List.forall_mem_singleton.mpr fits⟩, .transfer r [] rfl
        starts.running (starts.calling.trans outside) (starts.nextTransaction.trans next)
        starts.runs starts.status rfl⟩
      rw [starts.transactionList, starts.freeTransaction]
      exact slots
  | transfer w rest first running outside next runs status quiet =>
      rw [running] at stopped
      cases stopped
  | callback w rest first running inside next rested done =>
      rw [running] at stopped
      cases stopped

/-- The log of a request that is accepted. -/
theorem QueueInv.accepted {s' : I2c} (inv : QueueInv cfg log served waiting head s)
    (positive : 0 < r.numBytes) (holds : Holds cfg (waiting ++ [r]) head s')
    (stage : Stage cfg (waiting ++ [r]) (transfers log).2 head s') :
    QueueInv cfg (log ++ [.accepted r]) served (waiting ++ [r]) head s' := by
  have parts : transfers (log ++ [.accepted r]) = transfers log := by
    rw [transfers_append]
    rfl
  refine ⟨?_, ?_, ?_, holds, ?_⟩
  · rw [acceptedRequests_append, inv.requests, List.append_assoc]
    rfl
  · intro r' member
    rw [acceptedRequests_append] at member
    rcases List.mem_append.mp member with before | last
    · exact inv.positive r' before
    · rw [List.mem_singleton.mp last]
      exact positive
  · rw [parts]
    exact inv.served
  · rw [parts]
    exact stage

/-- And of one that is not. -/
theorem QueueInv.refused (inv : QueueInv cfg log served waiting head s) :
    QueueInv cfg (log ++ [.refused]) served waiting head s := by
  have parts : transfers (log ++ [.refused]) = transfers log := by
    rw [transfers_append]
    rfl
  have same : acceptedRequests (log ++ [.refused]) = acceptedRequests log := by
    rw [acceptedRequests_append]
    exact List.append_nil _
  refine ⟨?_, ?_, ?_, inv.holds, ?_⟩
  · rw [same]
    exact inv.requests
  · rw [same]
    exact inv.positive
  · rw [parts]
    exact inv.served
  · rw [parts]
    exact inv.stage

/-- **`i2cAddTxTransaction` and `i2cAddRxTransaction`**. -/
theorem QueueInv.add (inv : QueueInv cfg log served waiting head s)
    (accepts : AddReturnsTrue s) (fits : r.Fits cfg)
    (room : s.i2cTxDataFifo.start + r.data.length ≤ cfg.txBufSize) :
    QueueInv cfg (log ++ (i2cAddTransaction cfg s r).2) served (waiting ++ [r]) head
      (i2cAddTransaction cfg s r).1 := by
  have notReady : (s.transactionList s.freeTransaction).ready ≠ true := by
    rw [accepts]
    exact Bool.false_ne_true
  have same : (setupTransaction cfg s r).i2cRunning = s.i2cRunning := rfl
  unfold i2cAddTransaction
  rw [if_neg notReady]
  dsimp only
  rw [same]
  cases running : s.i2cRunning with
  | false =>
      rw [if_pos (by decide)]
      obtain ⟨holds, stage⟩ := inv.holds.start inv.stage running notReady fits room
      exact inv.accepted fits.positive holds stage
  | true =>
      rw [if_neg (by decide)]
      obtain ⟨holds, stage⟩ := inv.holds.wait inv.stage running notReady fits room
      exact inv.accepted fits.positive holds stage

/-- The end of `serviceI2C`. -/
theorem QueueInv.finish (requests : acceptedRequests log = served ++ r :: rest)
    (positive : ∀ r ∈ acceptedRequests log, 0 < r.numBytes)
    (before : List.Forall₂ (Served fun _ => 0) served (transfers log).1)
    (done : Served (fun _ => 0) r (transfers log).2) (holds : Holds cfg (r :: rest) head s)
    (next : s.nextTransaction = nextSlot cfg head) (rested : Rested s.transfer) :
    QueueInv cfg (log ++ (finishTransaction s head).2) (served ++ [r]) rest (nextSlot cfg head)
      (finishTransaction s head).1 := by
  obtain ⟨kept, stage⟩ := holds.finish next rested
  have parts : transfers (log ++ [.finished]) = ((transfers log).1 ++ [(transfers log).2], []) := by
    rw [transfers_append]
    rfl
  have same : acceptedRequests (log ++ [.finished]) = acceptedRequests log := by
    rw [acceptedRequests_append]
    exact List.append_nil _
  show QueueInv cfg (log ++ [.finished]) _ _ _ _
  refine ⟨?_, ?_, ?_, kept, ?_⟩
  · rw [same, requests, List.append_cons]
  · rw [same]
    exact positive
  · rw [parts]
    exact List.rel_append before (.cons done .nil)
  · rw [parts]
    exact stage

/-- What `serviceI2C` does when the bus is free, with a callback and without. -/
theorem serviceI2C_calls (service : s.transfer.shouldServiceI2C = true)
    (idle : s.transfer.bus.busy = false) (small : s.nextTransaction < 256)
    (first : s.transactionList s.nextTransaction = r.transaction) {callback : Nat}
    (called : r.transaction.callback = some callback) :
    serviceI2C cfg s =
      ({ s with
          transfer := endTransfer r.transaction s.transfer
          nextTransaction := nextSlot cfg s.nextTransaction
          calling := some s.nextTransaction },
        [callbackOutput cfg r.transaction (endTransfer r.transaction s.transfer)
          s.transfer.i2cStatus callback]) := by
  unfold serviceI2C
  rw [if_pos ⟨service, idle⟩]
  dsimp only
  rw [Nat.mod_eq_of_lt small, first, called]

theorem serviceI2C_finishes (service : s.transfer.shouldServiceI2C = true)
    (idle : s.transfer.bus.busy = false) (small : s.nextTransaction < 256)
    (first : s.transactionList s.nextTransaction = r.transaction)
    (called : r.transaction.callback = none) :
    serviceI2C cfg s = finishTransaction { s with
        transfer := endTransfer r.transaction s.transfer
        nextTransaction := nextSlot cfg s.nextTransaction } s.nextTransaction := by
  unfold serviceI2C
  rw [if_pos ⟨service, idle⟩]
  dsimp only
  rw [Nat.mod_eq_of_lt small, first, called]

/-- Which callback is called then. -/
theorem serviceI2C_isRead (ready : s.transfer.shouldServiceI2C = true ∧
    s.transfer.bus.busy = false) (small : s.nextTransaction < 256) :
    (∃ o ∈ (serviceI2C cfg s).2, o.isRead = true) ↔ s.transfer.i2cStatus = .ack ∧
      (s.transactionList s.nextTransaction).type = .rx ∧
      (s.transactionList s.nextTransaction).callback ≠ none := by
  unfold serviceI2C
  rw [if_pos ready]
  dsimp only
  rw [Nat.mod_eq_of_lt small]
  generalize s.transactionList s.nextTransaction = t
  cases called : t.callback with
  | none => simp [finishTransaction, I2cOutput.isRead]
  | some callback =>
      simp only [List.mem_singleton, exists_eq_left]
      unfold callbackOutput
      cases type : t.type with
      | tx => simp [I2cOutput.isRead]
      | rx =>
          cases s.transfer.i2cStatus with
          | ack => simp [I2cOutput.isRead]
          | nack => simp [I2cOutput.isRead]
          | err => simp [I2cOutput.isRead]

/-- The log of a call. -/
theorem QueueInv.calls {s' : I2c} {o : I2cOutput} (inv : QueueInv cfg log served waiting head s)
    (call : o.isCallback = true) (holds : Holds cfg waiting head s')
    (stage : Stage cfg waiting ((transfers log).2 ++ [o]) head s') :
    QueueInv cfg (log ++ [o]) served waiting head s' := by
  obtain ⟨parts, requests⟩ := transfers_callback log call
  refine ⟨?_, ?_, ?_, holds, ?_⟩
  · rw [requests]
    exact inv.requests
  · rw [requests]
    exact inv.positive
  · rw [parts]
    exact inv.served
  · rw [parts]
    exact stage

/-- **`serviceI2C`**. -/
theorem QueueInv.service (inv : QueueInv cfg log served waiting head s)
    (outside : s.calling = none)
    (within : Finishes s → s.nextTransaction < 256) :
    ∃ served' waiting' head', QueueInv cfg (log ++ (serviceI2C cfg s).2) served' waiting' head'
      (serviceI2C cfg s).1 := by
  by_cases ready : s.transfer.shouldServiceI2C ∧ s.transfer.bus.busy = false
  · obtain ⟨service, idle⟩ := ready
    have small := within ⟨outside, service, idle⟩
    cases inv.stage with
    | rest empty silent notRunning outside next rested =>
        rw [rested.service] at service
        cases service
    | callback r rest first running inside next rested done =>
        rw [rested.service] at service
        cases service
    | transfer r rest first running outside next runs status quiet =>
        subst first
        have holds := inv.holds
        have free := runs.free service idle
        have served' := runs.served free (holds.fits r List.mem_cons_self) status quiet
        have rested := endTransfer_rested r.transaction free
        have isFirst : s.transactionList s.nextTransaction = r.transaction := by
          rw [next]
          exact holds.slots.first
        cases called : r.transaction.callback with
        | none =>
            rw [called] at served'
            have done : Served (fun _ => 0) r (transfers log).2 := by
              rw [← List.append_nil (transfers log).2]
              exact served'
            rw [serviceI2C_finishes service idle small isFirst called, next]
            exact ⟨served ++ [r], rest, nextSlot cfg head, QueueInv.finish inv.requests
              inv.positive inv.served done ⟨holds.slots, holds.fifo, holds.fits⟩ rfl rested⟩
        | some callback =>
            rw [called] at served'
            rw [serviceI2C_calls service idle small isFirst called]
            have call := callbackOutput_isCallback cfg r.transaction
              (endTransfer r.transaction s.transfer) s.transfer.i2cStatus callback
            exact ⟨served, r :: rest, head, inv.calls call
              ⟨holds.slots, holds.fifo, holds.fits⟩
              (.callback r rest rfl running (congrArg some next) (congrArg (nextSlot cfg) next)
                rested served')⟩
  · unfold serviceI2C
    rw [if_neg ready, List.append_nil]
    exact ⟨served, waiting, head, inv⟩

/-- The callback returns. -/
theorem QueueInv.ret (inv : QueueInv cfg log served waiting head s) {last : Nat}
    (inside : s.calling = some last) :
    ∃ served' waiting' head', QueueInv cfg (log ++ (finishTransaction s last).2) served' waiting'
      head' (finishTransaction s last).1 := by
  cases inv.stage with
  | rest empty silent idle outside next rested =>
      rw [outside] at inside
      cases inside
  | transfer r rest first running outside next runs status quiet =>
      rw [outside] at inside
      cases inside
  | callback r rest first running isHead next rested done =>
      subst first
      rw [isHead] at inside
      obtain rfl := Option.some.inj inside
      exact ⟨served ++ [r], rest, nextSlot cfg head,
        QueueInv.finish inv.requests inv.positive inv.served done inv.holds next rested⟩

/-- **An event on the bus**. -/
theorem QueueInv.bus (inv : QueueInv cfg log served waiting head s) (e : BusEvent) :
    QueueInv cfg (log ++ (busStep (s.transactionList s.nextTransaction) s.transfer e).2) served
      waiting head
      { s with transfer := (busStep (s.transactionList s.nextTransaction) s.transfer e).1 } := by
  have holds := inv.holds
  cases inv.stage with
  | rest empty silent idle outside next rested =>
      rw [busStep_rested _ rested.phase e, List.append_nil]
      exact inv
  | callback r rest first running inside next rested done =>
      rw [busStep_rested _ rested.phase e, List.append_nil]
      exact inv
  | transfer r rest first running outside next runs status quiet =>
      subst first
      have isFirst : s.transactionList s.nextTransaction = r.transaction := by
        rw [next]
        exact holds.slots.first
      rw [isFirst]
      have onBus := busStep_onBus r.transaction s.transfer e
      have parts := @transfers_onBus log _ onBus
      refine ⟨?_, ?_, ?_, ⟨holds.slots, holds.fifo, holds.fits⟩, ?_⟩
      · rw [acceptedRequests_append, acceptedRequests_onBus onBus, List.append_nil]
        exact inv.requests
      · rw [acceptedRequests_append, acceptedRequests_onBus onBus, List.append_nil]
        exact inv.positive
      · rw [parts]
        exact inv.served
      · rw [parts]
        refine .transfer r rest rfl running outside next
          (runs.step (holds.fits r List.mem_cons_self) e)
          (busStep_status r.transaction status e) ?_
        rw [callbacks_append, quiet, callbacks_onBus onBus]
        rfl

/-- **One event**. -/
theorem QueueInv.step (inv : QueueInv cfg log served waiting head s) {x : I2cEvent}
    (inRange : CallInRange cfg s x) (within : Within cfg s x) :
    ∃ served' waiting' head', QueueInv cfg (log ++ (i2cStep cfg s x).2) served' waiting' head'
      (i2cStep cfg s x).1 := by
  cases x with
  | add r =>
      by_cases accepts : AddReturnsTrue s
      · obtain ⟨positive, sizes⟩ := inRange accepts
        obtain ⟨byte, room⟩ := within accepts
        have buffer : r.transaction.type = .rx → r.numBytes ≤ cfg.rxBufSize := by
          intro reads
          cases r with
          | tx addr txData callback => cases reads
          | rx addr n callback => exact sizes
        exact ⟨served, waiting ++ [r], head, inv.add accepts ⟨positive, byte, buffer⟩ room⟩
      · have ready : (s.transactionList s.freeTransaction).ready = true := by
          rw [← Bool.not_eq_false]
          exact accepts
        show ∃ served' waiting' head', QueueInv cfg (log ++ (i2cAddTransaction cfg s r).2) served'
          waiting' head' (i2cAddTransaction cfg s r).1
        unfold i2cAddTransaction
        rw [if_pos ready]
        exact ⟨served, waiting, head, inv.refused⟩
  | service =>
      show ∃ served' waiting' head', QueueInv cfg
        (log ++ (if s.calling = none then serviceI2C cfg s else (s, [])).2) served' waiting' head'
        (if s.calling = none then serviceI2C cfg s else (s, [])).1
      by_cases outside : s.calling = none
      · rw [if_pos outside]
        exact inv.service outside within
      · rw [if_neg outside, List.append_nil]
        exact ⟨served, waiting, head, inv⟩
  | ret =>
      dsimp only [i2cStep]
      cases inside : s.calling with
      | none =>
          dsimp only
          rw [List.append_nil]
          exact ⟨served, waiting, head, inv⟩
      | some last => exact inv.ret inside
  | bus e => exact ⟨served, waiting, head, inv.bus e⟩

/-- The transfer that runs goes on until `serviceI2C` can finish it. -/
theorem QueueInv.goesOn (inv : QueueInv cfg log served waiting head s) (some : waiting ≠ [])
    (outside : s.calling = none) : GoesOn cfg s := by
  generalize bound : s.transfer.remaining = n
  induction n using Nat.strong_induction_on generalizing log s with
  | _ n ih =>
      cases inv.stage with
      | rest empty silent idle outside next rested => exact absurd empty some
      | callback r rest first running inside next rested done =>
          rw [inside] at outside
          cases outside
      | transfer r rest first running outside next runs status quiet =>
          by_cases free : s.transfer.bus.phase = .free
          · refine ⟨[], by simp, runs.service free, ?_⟩
            show s.transfer.bus.busy = false
            unfold I2cBus.busy
            rw [free]
            rfl
          · have isFirst : s.transactionList s.nextTransaction = r.transaction := by
              rw [next]
              subst first
              exact inv.holds.slots.first
            obtain ⟨e, noError, nearer⟩ := runs.progress free
            rw [← isFirst] at nearer
            obtain ⟨more, noErrors, ends⟩ := ih _ (bound ▸ nearer) (inv.bus e) outside rfl
            refine ⟨e :: more, ?_, ends⟩
            intro e' member
            rcases List.mem_cons.mp member with rfl | later
            · exact noError
            · exact noErrors e' later

end Steps

/-! ## The result -/

section Result

variable (cfg : I2cConfig) (memory rxBuffer txBuffer : Mem UInt8) (last : UInt8)

/-- Whatever the driver is in, at the start and after each event: what has run is in order, and
what waits goes on. -/
def ServesInOrder (counts : Nat → Nat) (s : I2c) (events : List I2cEvent) : Prop :=
  ∀ pre post, events = pre ++ post → ∃ served waiting,
    InOrder counts ((i2cFSM cfg).outputs s pre) served waiting ∧
    (waiting ≠ [] → ((i2cFSM cfg).after s pre).calling = none →
      GoesOn cfg ((i2cFSM cfg).after s pre))

theorem queueInv_init :
    QueueInv cfg [] [] [] 0 (I2c.init cfg memory rxBuffer txBuffer last) := by
  refine ⟨rfl, by simp [acceptedRequests], .nil,
    ⟨⟨cfg.positive, ⟨_, rfl, ?_⟩, ?_⟩, ⟨0, buffer8Inv_init 0 _ memory⟩, ?_⟩,
    .rest rfl rfl rfl rfl rfl ⟨rfl, rfl, rfl, rfl, rfl, rfl⟩⟩
  · intro t member
    obtain ⟨i, -, rfl⟩ := List.mem_map.mp member
    rfl
  · show 0 = (0 + 0) % cfg.maxNumTransactions
    rw [Nat.zero_mod]
  · intro r member
    cases member

/-- **A run**. -/
theorem queueInv_run {events : List I2cEvent}
    (inRange : (i2cFSM cfg).EveryStep (CallInRange cfg)
      (I2c.init cfg memory rxBuffer txBuffer last) events)
    (within : (i2cFSM cfg).EveryStep (Within cfg)
      (I2c.init cfg memory rxBuffer txBuffer last) events) :
    ∃ served waiting head, QueueInv cfg
      ((i2cFSM cfg).outputs (I2c.init cfg memory rxBuffer txBuffer last) events) served waiting
      head ((i2cFSM cfg).after (I2c.init cfg memory rxBuffer txBuffer last) events) := by
  have steps := ((i2cFSM cfg).everyStep_and (CallInRange cfg) (Within cfg)
    (I2c.init cfg memory rxBuffer txBuffer last) events).mpr ⟨inRange, within⟩
  have start : ∃ served waiting head, QueueInv cfg [] served waiting head
      (I2c.init cfg memory rxBuffer txBuffer last) :=
    ⟨[], [], 0, queueInv_init cfg memory rxBuffer txBuffer last⟩
  have run := (i2cFSM cfg).invariant_outputs
    (I := fun log s => ∃ served waiting head, QueueInv cfg log served waiting head s)
    (C := fun s x => CallInRange cfg s x ∧ Within cfg s x)
    (by
      rintro log s x ⟨served, waiting, head, inv⟩ ⟨inRange, within⟩
      exact inv.step inRange within)
    start steps
  rw [List.nil_append] at run
  exact run

end Result

section Read

variable {cfg : I2cConfig} {log : List I2cOutput} {served waiting : List I2cRequest}
  {head : Nat} {s : I2c}

theorem QueueInv.inOrder (inv : QueueInv cfg log served waiting head s) :
    InOrder (fun _ => 0) log served waiting := by
  refine ⟨inv.requests, inv.served, ?_⟩
  cases inv.stage with
  | rest empty silent idle outside next rested =>
      rw [empty]
      exact silent
  | transfer r rest first running outside next runs status quiet =>
      rw [first]
      exact ⟨runs.sent, .inl quiet⟩
  | callback r rest first running inside next rested done =>
      rw [first]
      exact ⟨done.sent, .inr done⟩

/-- It is called when `ReadCompletes` says so. -/
theorem isRead_iff {x : I2cEvent} (within : Within cfg s x) :
    (∃ o ∈ (i2cFSM cfg).emit s x, o.isRead = true) ↔ ReadCompletes s x := by
  cases x with
  | add r =>
      refine iff_of_false ?_ id
      rintro ⟨o, member, read⟩
      have only : o = .refused ∨ o = .accepted r := by
        have emitted : o ∈ (i2cAddTransaction cfg s r).2 := member
        unfold i2cAddTransaction at emitted
        split at emitted
        · exact .inl (List.mem_singleton.mp emitted)
        · exact .inr (List.mem_singleton.mp emitted)
      rcases only with rfl | rfl
      · cases read
      · cases read
  | service =>
      show (∃ o ∈ (if s.calling = none then serviceI2C cfg s else (s, [])).2, o.isRead = true) ↔ _
      by_cases outside : s.calling = none
      · rw [if_pos outside]
        by_cases ready : s.transfer.shouldServiceI2C = true ∧ s.transfer.bus.busy = false
        · have finishes : Finishes s := ⟨outside, ready⟩
          rw [serviceI2C_isRead ready (within finishes)]
          exact ⟨fun ends => ⟨finishes, ends⟩, fun all => all.2⟩
        · unfold serviceI2C
          rw [if_neg ready]
          exact iff_of_false (by simp) (fun all => ready all.1.2)
      · rw [if_neg outside]
        exact iff_of_false (by simp) (fun all => outside all.1.1)
  | ret =>
      refine iff_of_false ?_ id
      rintro ⟨o, member, read⟩
      have emitted : o ∈ (i2cStep cfg s .ret).2 := member
      dsimp only [i2cStep] at emitted
      split at emitted
      · obtain rfl := List.mem_singleton.mp emitted
        cases read
      · cases emitted
  | bus e =>
      refine iff_of_false ?_ id
      rintro ⟨o, member, read⟩
      have onBus := busStep_onBus _ _ e o member
      cases o with
      | rxCallback callback rxData numBytes status => cases onBus
      | _ => cases read

/-- A call in the log of a run is in one of its parts. -/
theorem callback_mem {log : List I2cOutput} {o : I2cOutput} (call : o.isCallback = true)
    (member : o ∈ log) :
    (∃ part ∈ (transfers log).1, o ∈ part) ∨ o ∈ (transfers log).2 := by
  induction log using List.reverseRecOn with
  | nil => cases member
  | append_singleton log last ih =>
      rw [transfers_append, List.foldl_cons, List.foldl_nil]
      rcases List.mem_append.mp member with before | isLast
      · rcases ih before with ⟨part, within, inPart⟩ | current
        · refine .inl ⟨part, ?_, inPart⟩
          cases last with
          | finished => exact List.mem_append_left _ within
          | _ => exact within
        · cases last with
          | accepted r => exact .inr current
          | refused => exact .inr current
          | finished => exact .inl ⟨_, List.mem_append_right _ (List.mem_singleton_self _), current⟩
          | _ => exact .inr (List.mem_append_left _ current)
      · obtain rfl := List.mem_singleton.mp isLast
        right
        cases o with
        | txCallback callback status => exact List.mem_append_right _ (List.mem_singleton_self _)
        | rxCallback callback rxData numBytes status =>
            exact List.mem_append_right _ (List.mem_singleton_self _)
        | _ => cases call

/-- What is in the parts is in the log. -/
theorem mem_of_transfers {log : List I2cOutput} {o : I2cOutput}
    (member : (∃ part ∈ (transfers log).1, o ∈ part) ∨ o ∈ (transfers log).2) : o ∈ log := by
  induction log using List.reverseRecOn with
  | nil =>
      rcases member with ⟨part, within, -⟩ | current
      · cases within
      · cases current
  | append_singleton log last ih =>
      rw [transfers_append, List.foldl_cons, List.foldl_nil] at member
      have before (earlier : (∃ part ∈ (transfers log).1, o ∈ part) ∨ o ∈ (transfers log).2) :
          o ∈ log ++ [last] := List.mem_append_left _ (ih earlier)
      have grown (parts : (∃ part ∈ (transfers log).1, o ∈ part) ∨
          o ∈ (transfers log).2 ++ [last]) : o ∈ log ++ [last] := by
        rcases parts with done | current
        · exact before (.inl done)
        · rcases List.mem_append.mp current with earlier | isLast
          · exact before (.inr earlier)
          · exact List.mem_append_right _ isLast
      cases last with
      | accepted r => exact before member
      | refused => exact before member
      | finished =>
          rcases member with ⟨part, within, inPart⟩ | current
          · rcases List.mem_append.mp within with done | now
            · exact before (.inl ⟨part, done, inPart⟩)
            · rw [List.mem_singleton.mp now] at inPart
              exact before (.inr inPart)
          · cases current
      | _ => exact grown member

/-- The call of a transaction that has read. -/
theorem Served.read {counts : Nat → Nat} {r : I2cRequest} {part : List I2cOutput}
    (done : Served counts r part) {callback numBytes : Nat} {rxData : List UInt8}
    (member : .rxCallback callback rxData numBytes .ack ∈ part) :
    numBytes = counts r.numBytes := by
  have called := done.called
  have isCall : I2cOutput.rxCallback callback rxData numBytes .ack ∈ callbacks part :=
    List.mem_filter.mpr ⟨member, rfl⟩
  cases r with
  | tx addr txData own =>
      cases own with
      | none =>
          have none : callbacks part = [] := called
          rw [none] at isCall
          cases isCall
      | some own =>
          have one : callbacks part = [.txCallback own (endStatus part)] := called
          rw [one] at isCall
          cases List.mem_singleton.mp isCall
  | rx addr n own =>
      cases own with
      | none =>
          have none : callbacks part = [] := called
          rw [none] at isCall
          cases isCall
      | some own =>
          obtain ⟨ownData, ownBytes, one, acked⟩ := called
          rw [one] at isCall
          obtain ⟨-, -, rfl, ack⟩ := I2cOutput.rxCallback.inj (List.mem_singleton.mp isCall)
          exact (acked ack.symm).2.2

/-- Each part belongs to a request. -/
theorem exists_served {counts : Nat → Nat} {parts : List (List I2cOutput)}
    (all : List.Forall₂ (Served counts) served parts) {part : List I2cOutput}
    (member : part ∈ parts) : ∃ r ∈ served, Served counts r part := by
  induction all with
  | nil => cases member
  | cons done later ih =>
      rcases List.mem_cons.mp member with rfl | behind
      · exact ⟨_, List.mem_cons_self, done⟩
      · obtain ⟨r, isServed, its⟩ := ih behind
        exact ⟨r, List.mem_cons_of_mem _ isServed, its⟩

/-- Such a call belongs to an accepted request. -/
theorem InOrder.read {counts : Nat → Nat} (order : InOrder counts log served waiting)
    {callback numBytes : Nat} {rxData : List UInt8}
    (member : .rxCallback callback rxData numBytes .ack ∈ log) :
    ∃ r ∈ acceptedRequests log, numBytes = counts r.numBytes := by
  rw [order.requests]
  rcases callback_mem rfl member with ⟨part, within, inPart⟩ | current
  · obtain ⟨r, isServed, done⟩ := exists_served order.served within
    exact ⟨r, List.mem_append_left _ isServed, done.read inPart⟩
  · have running := order.current
    cases waiting with
    | nil =>
        have empty : (transfers log).2 = [] := running
        rw [empty] at current
        cases current
    | cons r rest =>
        obtain ⟨-, quiet | done⟩ := running
        · have call : I2cOutput.rxCallback callback rxData numBytes .ack ∈
              callbacks (transfers log).2 := List.mem_filter.mpr ⟨current, rfl⟩
          rw [quiet] at call
          cases call
        · exact ⟨r, List.mem_append_right _ List.mem_cons_self, done.read current⟩

/-- Without such a call nothing depends on `counts`. -/
theorem Served.of_noRead {counts counts' : Nat → Nat} {r : I2cRequest} {part : List I2cOutput}
    (done : Served counts r part) (noRead : ∀ o ∈ part, o.isRead = false) :
    Served counts' r part := by
  refine ⟨done.sent, done.whole, ?_⟩
  have called := done.called
  cases r with
  | tx addr txData own =>
      cases own with
      | none => exact called
      | some own => exact called
  | rx addr n own =>
      cases own with
      | none => exact called
      | some own =>
          obtain ⟨ownData, ownBytes, one, -⟩ := called
          refine ⟨ownData, ownBytes, one, ?_⟩
          intro ack
          have isCall : I2cOutput.rxCallback own ownData ownBytes (endStatus part) ∈
              callbacks part := by
            rw [one]
            exact List.mem_singleton_self _
          have notRead := noRead _ (List.mem_filter.mp isCall).1
          rw [ack] at notRead
          cases notRead

theorem InOrder.of_noRead {counts counts' : Nat → Nat} (order : InOrder counts log served waiting)
    (noRead : ∀ o ∈ log, o.isRead = false) : InOrder counts' log served waiting := by
  refine ⟨order.requests, ?_, ?_⟩
  · obtain ⟨length, pairs⟩ := List.forall₂_iff_zip.mp order.served
    refine List.forall₂_iff_zip.mpr ⟨length, ?_⟩
    intro r part pair
    refine (pairs pair).of_noRead ?_
    intro o member
    exact noRead o (mem_of_transfers (.inl ⟨part, (List.of_mem_zip pair).2, member⟩))
  · have running := order.current
    cases waiting with
    | nil => exact running
    | cons r rest =>
        obtain ⟨sent, quiet | done⟩ := running
        · exact ⟨sent, .inl quiet⟩
        · refine ⟨sent, .inr (done.of_noRead ?_)⟩
          intro o member
          exact noRead o (mem_of_transfers (.inr member))

end Read

section Result

variable (cfg : I2cConfig) (memory rxBuffer txBuffer : Mem UInt8) (last : UInt8)

/-- The driver serves in order, but passes 0 for `numBytes`. -/
theorem serves_zero {events : List I2cEvent}
    (inRange : (i2cFSM cfg).EveryStep (CallInRange cfg)
      (I2c.init cfg memory rxBuffer txBuffer last) events)
    (within : (i2cFSM cfg).EveryStep (Within cfg)
      (I2c.init cfg memory rxBuffer txBuffer last) events) :
    ServesInOrder cfg (fun _ => 0) (I2c.init cfg memory rxBuffer txBuffer last) events := by
  rintro pre post rfl
  obtain ⟨served, waiting, head, inv⟩ := queueInv_run cfg memory rxBuffer txBuffer last
    (((i2cFSM cfg).everyStep_append _ _ _ _).mp inRange).1
    (((i2cFSM cfg).everyStep_append _ _ _ _).mp within).1
  exact ⟨served, waiting, inv.inOrder, inv.goesOn⟩

/-- **The transactions of the driver**: while sizes fit, everything is as asked exactly as long
as no transaction with a callback has read with `I2C_ACK`. -/
theorem i2c_serves_iff (events : List I2cEvent)
    (inRange : (i2cFSM cfg).EveryStep (CallInRange cfg)
      (I2c.init cfg memory rxBuffer txBuffer last) events)
    (within : (i2cFSM cfg).EveryStep (Within cfg)
      (I2c.init cfg memory rxBuffer txBuffer last) events) :
    ServesInOrder cfg id (I2c.init cfg memory rxBuffer txBuffer last) events ↔
      (i2cFSM cfg).EveryStep (fun s x => ¬ ReadCompletes s x)
        (I2c.init cfg memory rxBuffer txBuffer last) events := by
  constructor
  · intro serves
    rw [Fsm.everyStep_iff]
    rintro pre x post rfl completes
    obtain ⟨inRangePre, inRangePost⟩ := ((i2cFSM cfg).everyStep_append _ _ _ _).mp inRange
    obtain ⟨withinPre, withinPost⟩ := ((i2cFSM cfg).everyStep_append _ _ _ _).mp within
    -- the step calls back with what it read
    obtain ⟨o, emitted, read⟩ := (isRead_iff withinPost.1).mpr completes
    obtain ⟨callback, rxData, numBytes, rfl⟩ : ∃ callback rxData numBytes,
        o = .rxCallback callback rxData numBytes .ack := by
      unfold I2cOutput.isRead at read
      split at read
      · exact ⟨_, _, _, rfl⟩
      · cases read
    have member : .rxCallback callback rxData numBytes .ack ∈
        (i2cFSM cfg).outputs (I2c.init cfg memory rxBuffer txBuffer last) (pre ++ [x]) := by
      rw [Fsm.outputs_append]
      refine List.mem_append_right _ ?_
      rw [Fsm.outputs_cons, Fsm.outputs_nil, List.append_nil]
      exact emitted
    obtain ⟨served, waiting, asked, -⟩ := serves (pre ++ [x]) post (List.append_cons pre x post)
    obtain ⟨r, accepted, count⟩ := asked.read member
    obtain ⟨served', waiting', head, inv⟩ := queueInv_run cfg memory rxBuffer txBuffer last
      (((i2cFSM cfg).everyStep_append _ _ pre [x]).mpr ⟨inRangePre, inRangePost.1, trivial⟩)
      (((i2cFSM cfg).everyStep_append _ _ pre [x]).mpr ⟨withinPre, withinPost.1, trivial⟩)
    obtain ⟨r', -, zero⟩ := inv.inOrder.read member
    have positive := inv.positive r accepted
    have same : numBytes = r.numBytes := count
    omega
  · rintro noRead pre post rfl
    obtain ⟨served, waiting, order, goesOn⟩ :=
      serves_zero cfg memory rxBuffer txBuffer last inRange within pre post rfl
    refine ⟨served, waiting, order.of_noRead ?_, goesOn⟩
    rw [Fsm.forall_outputs_iff]
    have steps := (((i2cFSM cfg).everyStep_append _ _ _ _).mp
      (((i2cFSM cfg).everyStep_and _ _ _ _).mpr ⟨within, noRead⟩)).1
    refine (i2cFSM cfg).everyStep_of_invariant (I := fun _ => True) ?_ trivial steps
    rintro s x - ⟨within, notRead⟩
    refine ⟨trivial, ?_⟩
    intro o emitted
    rw [← Bool.not_eq_true]
    intro read
    exact notRead ((isRead_iff within).mp ⟨o, emitted, read⟩)

end Result

/-- Two writes wait; the callback of the first adds a third. -/
def threeWrites : List I2cEvent :=
  [.add (.tx 0x20 [1, 2] (some 7)), .add (.tx 0x21 [3] (some 8)),
    .bus .sb, .bus .addr, .bus .btf, .bus .btf, .bus .stop,
    .service, .add (.tx 0x22 [4] none), .ret,
    .bus .sb, .bus .addr, .bus .btf, .bus .stop, .service, .ret,
    .bus .sb, .bus .addr, .bus .btf, .bus .stop, .service]

/-- All three are served. -/
theorem i2c_serves_at :
    ServesInOrder ⟨4, 8, 8, by decide⟩ id
        (I2c.init ⟨4, 8, 8, by decide⟩ (fun _ => 0) (fun _ => 0) (fun _ => 0) 0) threeWrites ∧
      ((i2cFSM ⟨4, 8, 8, by decide⟩).outputs
        (I2c.init ⟨4, 8, 8, by decide⟩ (fun _ => 0) (fun _ => 0) (fun _ => 0) 0)
        threeWrites).filterMap (fun
          | .txCallback callback status => some (callback, status)
          | _ => none) = [(7, .ack), (8, .ack)] := by
  refine ⟨(i2c_serves_iff ⟨4, 8, 8, by decide⟩ (fun _ => 0) (fun _ => 0) (fun _ => 0) 0 _
    ?_ ?_).mpr ?_, by decide +kernel⟩
  · exact ⟨fun _ => ⟨by decide, by decide⟩, fun _ => ⟨by decide, by decide⟩, trivial, trivial,
      trivial, trivial, trivial, trivial, fun _ => ⟨by decide, by decide⟩, trivial, trivial,
      trivial, trivial, trivial, trivial, trivial, trivial, trivial, trivial, trivial, trivial,
      trivial⟩
  · exact ⟨fun _ => ⟨by decide, by decide +kernel⟩, fun _ => ⟨by decide, by decide +kernel⟩,
      trivial, trivial, trivial, trivial, trivial, fun _ => by decide +kernel,
      fun _ => ⟨by decide, by decide +kernel⟩, trivial, trivial, trivial, trivial, trivial,
      fun _ => by decide +kernel, trivial, trivial, trivial, trivial, trivial,
      fun _ => by decide +kernel, trivial⟩
  · refine ⟨id, id, id, id, id, id, id, ?_, id, id, id, id, id, id, ?_, id, id, id, id, id, ?_,
      trivial⟩
    · rintro ⟨-, -, reads, -⟩
      exact absurd reads (by decide +kernel)
    · rintro ⟨-, -, reads, -⟩
      exact absurd reads (by decide +kernel)
    · rintro ⟨-, -, reads, -⟩
      exact absurd reads (by decide +kernel)

/-- One byte is read: the callback gets the byte, and 0 for `numBytes`. -/
theorem i2c_count_lost :
    (i2cFSM ⟨4, 8, 8, by decide⟩).EveryStep (CallInRange ⟨4, 8, 8, by decide⟩)
      (I2c.init ⟨4, 8, 8, by decide⟩ (fun _ => 0) (fun _ => 0) (fun _ => 0) 0)
      [.add (.rx 0x20 1 (some 7)), .bus .sb, .bus .addr, .bus (.byte 0x5A), .bus .stop,
        .service] ∧
    ¬ ServesInOrder ⟨4, 8, 8, by decide⟩ id
      (I2c.init ⟨4, 8, 8, by decide⟩ (fun _ => 0) (fun _ => 0) (fun _ => 0) 0)
      [.add (.rx 0x20 1 (some 7)), .bus .sb, .bus .addr, .bus (.byte 0x5A), .bus .stop,
        .service] := by
  refine ⟨⟨fun _ => ⟨by decide, by decide⟩, trivial, trivial, trivial, trivial, trivial, trivial⟩,
    ?_⟩
  intro serves
  obtain ⟨served, waiting, order, -⟩ := serves _ [] (List.append_nil _).symm
  have log : (i2cFSM ⟨4, 8, 8, by decide⟩).outputs
      (I2c.init ⟨4, 8, 8, by decide⟩ (fun _ => 0) (fun _ => 0) (fun _ => 0) 0)
      [.add (.rx 0x20 1 (some 7)), .bus .sb, .bus .addr, .bus (.byte 0x5A), .bus .stop,
        .service] =
      [.accepted (.rx 0x20 1 (some 7)), .started, .sent 0x41, .received 0x5A, .stopped,
        .rxCallback 7 [0x5A, 0, 0, 0, 0, 0, 0, 0] 0 .ack] := by decide
  rw [log] at order
  obtain ⟨r, accepted, count⟩ := order.read (List.mem_of_getLast? rfl)
  obtain rfl := List.mem_singleton.mp accepted
  cases count

end OlympusFirmware.Olympus

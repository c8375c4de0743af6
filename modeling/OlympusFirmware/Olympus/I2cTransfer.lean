import Mathlib.Data.UInt
import OlympusFirmware.Olympus.I2c

/-!
# One event of an I2C transfer

What an event of the peripheral does to the transfer that runs (`busStep_effect`), what the log
of the transfer says about it, and how far the transfer is from its end.
-/

namespace OlympusFirmware.Olympus

open OlympusFirmware.Lib

/-! ## The log -/

/-- The bytes sent. -/
def sentBytes (log : List I2cOutput) : List UInt8 :=
  log.filterMap fun
    | .sent byte => some byte
    | _ => none

/-- The bytes received. -/
def receivedBytes (log : List I2cOutput) : List UInt8 :=
  log.filterMap fun
    | .received byte => some byte
    | _ => none

@[simp] theorem sentBytes_append (log more : List I2cOutput) :
    sentBytes (log ++ more) = sentBytes log ++ sentBytes more := List.filterMap_append

theorem sentBytes_silent {log more : List I2cOutput} (none : sentBytes more = []) :
    sentBytes (log ++ more) = sentBytes log := by
  rw [sentBytes_append, none, List.append_nil]

@[simp] theorem receivedBytes_append (log more : List I2cOutput) :
    receivedBytes (log ++ more) = receivedBytes log ++ receivedBytes more := List.filterMap_append

theorem receivedBytes_silent {log more : List I2cOutput} (none : receivedBytes more = []) :
    receivedBytes (log ++ more) = receivedBytes log := by
  rw [receivedBytes_append, none, List.append_nil]

/-- The errors. -/
def failures (log : List I2cOutput) : List I2cStatus :=
  log.filterMap fun
    | .failed status => some status
    | _ => none

@[simp] theorem failures_append (log more : List I2cOutput) :
    failures (log ++ more) = failures log ++ failures more := List.filterMap_append

/-- The status of a transfer is its last error. -/
def endStatus (log : List I2cOutput) : I2cStatus := (failures log).getLast?.getD .ack

/-- What the peripheral does. -/
def I2cOutput.onBus : I2cOutput → Bool
  | .started | .sent _ | .received _ | .failed _ | .stopped => true
  | .accepted _ | .refused | .txCallback .. | .rxCallback .. | .finished => false

/-! ## What an event can do -/

open I2cTransfer in
/-- What an event does: nothing, if the phase excludes it, or what the handler does then. -/
inductive BusEffect (t : I2cTransaction) (x : I2cTransfer) :
    BusEvent → I2cTransfer × List I2cOutput → Prop
  | none (e : BusEvent) : BusEffect t x e (x, [])
  | sb (phase : x.bus.phase = .start) : BusEffect t x .sb
      (startBitSent t
        { x with bus := { x.bus with phase := .started, nacked := false, nackNext := false } },
        [.started])
  | addr (byte : UInt8) (phase : x.bus.phase = .address byte) : BusEffect t x .addr
      (addressSent t (x.enter (.behindAddress byte)), [.sent byte])
  | btf (byte : UInt8) (phase : x.bus.phase = .write byte) : BusEffect t x .btf
      (byteTransferFinished t (x.enter .written), [.sent byte])
  | btfWritten (phase : x.bus.phase = .written) : BusEffect t x .btf
      (byteTransferFinished t x, [])
  | btfRead (phase : x.bus.phase = .read) (full : x.bus.received.length = 2) :
      BusEffect t x .btf (byteTransferFinished t x, [])
  | af (byte : UInt8) (phase : x.bus.phase = .address byte ∨ x.bus.phase = .write byte) :
      BusEffect t x .af
        (erIrqHandler true false false (x.enter .aborted), [.sent byte, .failed .nack])
  | arlo (busy : x.bus.busy = true) : BusEffect t x .arlo
      (erIrqHandler false true false (x.enter .aborted), [.failed .err])
  | berr (busy : x.bus.busy = true) : BusEffect t x .berr
      (erIrqHandler false false true (x.enter .aborted), [.failed .err])
  | byte (byte : UInt8) (phase : x.bus.phase = .read) (room : x.bus.received.length < 2)
      (more : x.bus.nacked = false) : BusEffect t x (.byte byte)
      ({ x with bus := x.bus.receive byte }, [.received byte])
  | stop (bit : x.bus.stop = true) (phase : x.bus.phase = .written ∨ x.bus.phase = .aborted ∨
      x.bus.phase = .read ∧ x.bus.nacked = true) : BusEffect t x .stop
      ({ x with bus := { x.bus with phase := .free, stop := false } }, [.stopped])

theorem evIrqHandler_sb (t : I2cTransaction) (x : I2cTransfer) :
    x.evIrqHandler t true false false = x.startBitSent t := rfl

theorem evIrqHandler_addr (t : I2cTransaction) (x : I2cTransfer) :
    x.evIrqHandler t false true false = x.addressSent t := rfl

theorem evIrqHandler_btf (t : I2cTransaction) (x : I2cTransfer) :
    x.evIrqHandler t false false true = x.byteTransferFinished t := rfl

theorem busStep_effect (t : I2cTransaction) (x : I2cTransfer) (e : BusEvent) :
    BusEffect t x e (busStep t x e) := by
  cases e with
  | sb =>
      dsimp only [busStep]
      split
      · rename_i phase
        rw [evIrqHandler_sb]
        exact .sb phase
      · exact .none _
  | addr =>
      dsimp only [busStep]
      split
      · rename_i byte phase
        rw [evIrqHandler_addr]
        exact .addr byte phase
      · exact .none _
  | btf =>
      dsimp only [busStep]
      cases phase : x.bus.phase with
      | write byte =>
          dsimp only
          rw [evIrqHandler_btf]
          exact .btf byte phase
      | written =>
          dsimp only
          rw [evIrqHandler_btf]
          exact .btfWritten phase
      | read =>
          dsimp only
          by_cases full : x.bus.received.length = 2
          · rw [if_pos full, evIrqHandler_btf]
            exact .btfRead phase full
          · rw [if_neg full]
            exact .none _
      | free => exact .none _
      | start => exact .none _
      | started => exact .none _
      | address byte => exact .none _
      | aborted => exact .none _
  | af =>
      dsimp only [busStep]
      split
      · rename_i byte phase
        exact .af byte (.inl phase)
      · rename_i byte phase
        exact .af byte (.inr phase)
      · exact .none _
  | arlo =>
      dsimp only [busStep]
      split
      · rename_i busy
        exact .arlo busy
      · exact .none _
  | berr =>
      dsimp only [busStep]
      split
      · rename_i busy
        exact .berr busy
      · exact .none _
  | byte byte =>
      dsimp only [busStep]
      split
      · rename_i enabled
        exact .byte byte enabled.1 enabled.2.1 enabled.2.2
      · exact .none _
  | stop =>
      dsimp only [busStep]
      split
      · rename_i enabled
        exact .stop enabled.1 enabled.2
      · exact .none _

theorem busStep_onBus (t : I2cTransaction) (x : I2cTransfer) (e : BusEvent) :
    ∀ o ∈ (busStep t x e).2, o.onBus = true := by
  have effect := busStep_effect t x e
  generalize busStep t x e = result at effect
  cases effect with
  | none => simp
  | sb phase => simp [I2cOutput.onBus]
  | addr byte phase => simp [I2cOutput.onBus]
  | btf byte phase => simp [I2cOutput.onBus]
  | btfWritten phase => simp
  | btfRead phase full => simp
  | af byte phase => simp [I2cOutput.onBus]
  | arlo busy => simp [I2cOutput.onBus]
  | berr busy => simp [I2cOutput.onBus]
  | byte byte phase room more => simp [I2cOutput.onBus]
  | stop bit phase => simp [I2cOutput.onBus]

/-- The event handlers leave the status. -/
theorem addressSent_status (t : I2cTransaction) (x : I2cTransfer) :
    (x.addressSent t).i2cStatus = x.i2cStatus := by
  unfold I2cTransfer.addressSent
  repeat' split
  all_goals rfl

theorem byteTransferFinished_status (t : I2cTransaction) (x : I2cTransfer) :
    (x.byteTransferFinished t).i2cStatus = x.i2cStatus := by
  unfold I2cTransfer.byteTransferFinished I2cTransfer.readI2CByte
  repeat' split
  all_goals rfl

theorem startBitSent_status (t : I2cTransaction) (x : I2cTransfer) :
    (x.startBitSent t).i2cStatus = x.i2cStatus := by
  unfold I2cTransfer.startBitSent
  split
  · rfl
  · rfl

/-- An error sets it. -/
theorem endStatus_failed (log : List I2cOutput) (status : I2cStatus) :
    endStatus (log ++ [.failed status]) = status := by
  unfold endStatus
  rw [failures_append]
  show ((failures log ++ [status]).getLast?).getD .ack = status
  rw [List.getLast?_concat]
  rfl

theorem endStatus_append {log more : List I2cOutput} (none : failures more = []) :
    endStatus (log ++ more) = endStatus log := by
  unfold endStatus
  rw [failures_append, none, List.append_nil]

/-- `i2cStatus` is the status of the transfer. -/
theorem busStep_status (t : I2cTransaction) {x : I2cTransfer} {cur : List I2cOutput}
    (status : x.i2cStatus = endStatus cur) (e : BusEvent) :
    (busStep t x e).1.i2cStatus = endStatus (cur ++ (busStep t x e).2) := by
  have effect := busStep_effect t x e
  generalize busStep t x e = result at effect
  cases effect with
  | none =>
      rw [endStatus_append rfl]
      exact status
  | sb phase =>
      rw [endStatus_append rfl, ← status]
      exact startBitSent_status t _
  | addr byte phase =>
      rw [endStatus_append rfl, ← status]
      exact addressSent_status t _
  | btf byte phase =>
      rw [endStatus_append rfl, ← status]
      exact byteTransferFinished_status t _
  | btfWritten phase =>
      rw [endStatus_append rfl, ← status]
      exact byteTransferFinished_status t _
  | btfRead phase full =>
      rw [endStatus_append rfl, ← status]
      exact byteTransferFinished_status t _
  | af byte phase =>
      rw [List.append_cons, endStatus_failed]
      rfl
  | arlo busy =>
      rw [endStatus_failed]
      rfl
  | berr busy =>
      rw [endStatus_failed]
      rfl
  | byte byte phase room more =>
      rw [endStatus_append rfl]
      exact status
  | stop bit phase =>
      rw [endStatus_append rfl]
      exact status

/-! ## The phases of a transfer -/

/-- A transfer before its first byte. -/
structure Fresh (n : Nat) (x : I2cTransfer) : Prop where
  left : x.i2cBytesLeft.toNat = n
  status : x.i2cStatus = .ack
  service : x.shouldServiceI2C = false
  stop : x.bus.stop = false

/-- The transfer has ended with an error. -/
structure Aborted (wire : List UInt8) (cur : List I2cOutput) (x : I2cTransfer) : Prop where
  sent : sentBytes cur <+: wire
  status : x.i2cStatus ≠ .ack
  service : x.shouldServiceI2C = true
  stop : x.bus.stop = true

/-- The count of what is left goes down by one. -/
theorem bytesLeft_pred {left : UInt8} {n : Nat} (count : left.toNat = n + 1) :
    (left - 1).toNat = n := by
  have one : (1 : UInt8) ≤ left := by
    rw [UInt8.le_iff_toNat_le, count]
    exact Nat.le_add_left 1 n
  rw [UInt8.toNat_sub_of_le _ _ one, count]
  rfl

/-! ## Progress -/

def BusEvent.isError : BusEvent → Bool
  | .af | .arlo | .berr => true
  | .sb | .addr | .btf | .byte _ | .stop => false

/-- What a transfer has before it: the events of its normal course, at most. -/
def I2cTransfer.remaining (x : I2cTransfer) : Nat :=
  match x.bus.phase with
  | .free => 0
  | .written | .aborted => 1
  | .write _ => 2 * x.i2cBytesLeft.toNat + 2
  | .read => 2 * x.i2cBytesLeft.toNat + 3 - x.bus.received.length
  | .address _ => 2 * x.i2cBytesLeft.toNat + 4
  | .start | .started => 2 * x.i2cBytesLeft.toNat + 5

/-- An event that is not an error brings the transfer nearer to its end. -/
def CanAdvance (t : I2cTransaction) (x : I2cTransfer) : Prop :=
  ∃ e : BusEvent, e.isError = false ∧ (busStep t x e).1.remaining < x.remaining

section Progress

variable {t : I2cTransaction} {x : I2cTransfer}

theorem remaining_address {byte : UInt8} (phase : x.bus.phase = .address byte) :
    x.remaining = 2 * x.i2cBytesLeft.toNat + 4 := by
  unfold I2cTransfer.remaining
  rw [phase]

/-- START is sent. -/
theorem progress_start (phase : x.bus.phase = .start) : CanAdvance t x := by
  have before : x.remaining = 2 * x.i2cBytesLeft.toNat + 5 := by
    unfold I2cTransfer.remaining
    rw [phase]
  refine ⟨.sb, rfl, ?_⟩
  rw [before]
  dsimp only [busStep]
  rw [if_pos phase, evIrqHandler_sb]
  dsimp only [I2cTransfer.startBitSent]
  cases t.type with
  | tx => exact Nat.lt_succ_self _
  | rx => exact Nat.lt_succ_self _

/-- STOP is sent. -/
theorem progress_stop (bit : x.bus.stop = true) (phase : x.bus.phase = .written ∨
    x.bus.phase = .aborted ∨ x.bus.phase = .read ∧ x.bus.nacked = true) (some : 0 < x.remaining) :
    CanAdvance t x := by
  refine ⟨.stop, rfl, ?_⟩
  dsimp only [busStep]
  rw [if_pos ⟨bit, phase⟩]
  exact some

theorem progress_over (bit : x.bus.stop = true)
    (phase : x.bus.phase = .written ∨ x.bus.phase = .aborted) : CanAdvance t x := by
  have one : x.remaining = 1 := by
    unfold I2cTransfer.remaining
    rcases phase with phase | phase
    · rw [phase]
    · rw [phase]
  refine progress_stop bit ?_ (by rw [one]; exact Nat.one_pos)
  rcases phase with written | aborted
  · exact .inl written
  · exact .inr (.inl aborted)

end Progress

end OlympusFirmware.Olympus

import OlympusFirmware.Olympus.I2cTransfer

/-!
# An I2C transfer that sends

`TxRuns` says for each phase of the bus what has been sent and what the driver's variables
hold. When the bus is free again a transfer that was acknowledged throughout has sent its
address and its data; before that there is always an event that brings it nearer to the end.
-/

namespace OlympusFirmware.Olympus

open OlympusFirmware.Lib

/-- Its data is in the buffer. -/
structure TxFresh (data : List UInt8) (x : I2cTransfer) : Prop extends Fresh data.length x where
  idx : x.i2cTxNextTransferIdx = 0
  buffer : x.i2cTxNextTransferBuffer.load 0 data.length = data

/-- The byte at `k` is being sent. -/
structure TxWriting (addr : UInt8) (data : List UInt8) (byte : UInt8) (cur : List I2cOutput)
    (x : I2cTransfer) (k : Nat) : Prop where
  current : data[k]? = some byte
  sent : sentBytes cur = (addr <<< 1 ||| 0) :: data.take k
  left : x.i2cBytesLeft.toNat + (k + 1) = data.length
  idx : x.i2cTxNextTransferIdx = k + 1
  buffer : x.i2cTxNextTransferBuffer.load 0 data.length = data
  status : x.i2cStatus = .ack
  service : x.shouldServiceI2C = false

/-- All is sent. -/
structure TxWritten (addr : UInt8) (data : List UInt8) (cur : List I2cOutput) (x : I2cTransfer) :
    Prop where
  sent : sentBytes cur = (addr <<< 1 ||| 0) :: data
  left : x.i2cBytesLeft = 0
  status : x.i2cStatus = .ack
  service : x.shouldServiceI2C = true
  stop : x.bus.stop = true

/-- The bus is free again. -/
structure TxOver (addr : UInt8) (data : List UInt8) (cur : List I2cOutput) (x : I2cTransfer) :
    Prop where
  sent : sentBytes cur <+: (addr <<< 1 ||| 0) :: data
  whole : x.i2cStatus = .ack → sentBytes cur = (addr <<< 1 ||| 0) :: data
  service : x.shouldServiceI2C = true

/-- What holds of a transfer that sends in a phase of the bus, after the outputs `cur`. -/
def TxIn (addr : UInt8) (data : List UInt8) (cur : List I2cOutput) (x : I2cTransfer) :
    BusPhase → Prop
  | .start => cur = [] ∧ TxFresh data x
  | .address byte => byte = addr <<< 1 ||| 0 ∧ sentBytes cur = [] ∧ TxFresh data x
  | .write byte => ∃ k, TxWriting addr data byte cur x k
  | .written => TxWritten addr data cur x
  | .aborted => Aborted ((addr <<< 1 ||| 0) :: data) cur x
  | .free => TxOver addr data cur x
  | .started => False
  | .read => False

def TxRuns (addr : UInt8) (data : List UInt8) (cur : List I2cOutput) (x : I2cTransfer) : Prop :=
  TxIn addr data cur x x.bus.phase

theorem behindAddress_write (addr : UInt8) :
    BusPhase.behindAddress (addr <<< 1 ||| 0) = .written := by
  have even : (addr <<< 1 ||| 0) &&& 1 = 0 := by
    rw [← UInt8.toNat_inj]
    simp [Nat.and_one_is_mod, Nat.shiftLeft_eq]
  exact if_pos even

section Tx

variable {addr : UInt8} {data : List UInt8} {cur : List I2cOutput} {x : I2cTransfer}

theorem TxRuns.inPhase {p : BusPhase} (runs : TxRuns addr data cur x) (phase : x.bus.phase = p) :
    TxIn addr data cur x p := phase ▸ runs

theorem TxRuns.of {p : BusPhase} (phase : x.bus.phase = p) (holds : TxIn addr data cur x p) :
    TxRuns addr data cur x := by
  unfold TxRuns
  rw [phase]
  exact holds

/-- The data up to the byte that is being sent. -/
theorem TxWriting.upTo {byte : UInt8} {k : Nat} (writing : TxWriting addr data byte cur x k) :
    data.take (k + 1) = data.take k ++ [byte] := by
  rw [List.take_add_one, writing.current]
  rfl

theorem sendByte_phase (written : x.bus.phase = .written) : x.sendByte.bus.phase =
    .write (x.i2cTxNextTransferBuffer x.i2cTxNextTransferIdx) := by
  simp [I2cTransfer.sendByte, I2cBus.writeDr, written]

/-- The byte at `k` goes to the data register, if there is one; otherwise STOP is set. -/
theorem TxRuns.next {k : Nat} (written : x.bus.phase = .written)
    (sent : sentBytes cur = (addr <<< 1 ||| 0) :: data.take k)
    (left : x.i2cBytesLeft.toNat + k = data.length) (idx : x.i2cTxNextTransferIdx = k)
    (buffer : x.i2cTxNextTransferBuffer.load 0 data.length = data) (status : x.i2cStatus = .ack)
    (service : x.shouldServiceI2C = false) :
    TxRuns addr data cur (if 0 < x.i2cBytesLeft then x.sendByte else x.setStop) := by
  have positive : 0 < x.i2cBytesLeft ↔ 0 < x.i2cBytesLeft.toNat := UInt8.lt_iff_toNat_lt
  by_cases more : 0 < x.i2cBytesLeft
  · rw [if_pos more]
    obtain ⟨l, count⟩ : ∃ l, x.i2cBytesLeft.toNat = l + 1 :=
      ⟨x.i2cBytesLeft.toNat - 1, by have := positive.mp more; omega⟩
    have inside : k < data.length := by omega
    refine TxRuns.of (sendByte_phase written) ⟨k, ?_, sent, ?_, ?_, buffer, status, service⟩
    · -- the buffer holds the data
      have cell := congrArg (·[k]?) buffer
      simp only [Mem.load, List.getElem?_map, List.getElem?_range inside, Option.map_some,
        Nat.zero_add] at cell
      rw [idx, ← cell]
    · show (x.i2cBytesLeft - 1).toNat + (k + 1) = _
      rw [bytesLeft_pred count]
      omega
    · show x.i2cTxNextTransferIdx + 1 = k + 1
      rw [idx]
  · rw [if_neg more]
    have none : x.i2cBytesLeft.toNat = 0 := by
      have := mt positive.mpr more
      omega
    have all : k = data.length := by omega
    have stopped : TxWritten addr data cur x.setStop := by
      refine ⟨?_, UInt8.toNat_inj.mp none, status, rfl, rfl⟩
      rw [sent, all, List.take_length]
    exact TxRuns.of written stopped

/-- What has been sent, in every phase. -/
theorem TxRuns.sent (runs : TxRuns addr data cur x) :
    sentBytes cur <+: (addr <<< 1 ||| 0) :: data := by
  cases phase : x.bus.phase with
  | free => exact (runs.inPhase phase).sent
  | start =>
      obtain ⟨rfl, -⟩ := runs.inPhase phase
      exact List.nil_prefix
  | started => exact (runs.inPhase phase).elim
  | address byte =>
      obtain ⟨-, silent, -⟩ := runs.inPhase phase
      rw [silent]
      exact List.nil_prefix
  | write byte =>
      obtain ⟨k, writing⟩ := runs.inPhase phase
      rw [writing.sent]
      exact List.cons_prefix_cons.mpr ⟨rfl, List.take_prefix k data⟩
  | written => rw [(runs.inPhase phase).sent]
  | read => exact (runs.inPhase phase).elim
  | aborted => exact (runs.inPhase phase).sent

/-- A bus error, or arbitration lost. -/
theorem TxRuns.fails (runs : TxRuns addr data cur x) {y : I2cTransfer}
    (aborted : y.bus.phase = .aborted) (status : y.i2cStatus = .err)
    (service : y.shouldServiceI2C = true) (stop : y.bus.stop = true) :
    TxRuns addr data (cur ++ [.failed .err]) y := by
  refine TxRuns.of aborted ⟨?_, ?_, service, stop⟩
  · rw [sentBytes_silent rfl]
    exact runs.sent
  · rw [status]
    exact I2cStatus.noConfusion

/-- **One event** of a transfer that sends. -/
theorem TxRuns.step {t : I2cTransaction} (type : t.type = .tx) (isAddr : t.addr = addr)
    (runs : TxRuns addr data cur x) (e : BusEvent) :
    TxRuns addr data (cur ++ (busStep t x e).2) (busStep t x e).1 := by
  have effect := busStep_effect t x e
  generalize busStep t x e = result at effect
  cases effect with
  | none =>
      rw [List.append_nil]
      exact runs
  | sb phase =>
      obtain ⟨rfl, fresh⟩ := runs.inPhase phase
      dsimp only [I2cTransfer.startBitSent]
      rw [type, isAddr]
      exact ⟨rfl, rfl, ⟨fresh.left, fresh.status, fresh.service, fresh.stop⟩, fresh.idx,
        fresh.buffer⟩
  | addr byte phase =>
      obtain ⟨rfl, silent, fresh⟩ := runs.inPhase phase
      dsimp only [I2cTransfer.addressSent]
      rw [type, behindAddress_write addr]
      refine TxRuns.next (k := 0) rfl ?_ fresh.left fresh.idx fresh.buffer fresh.status
        fresh.service
      rw [sentBytes_append, silent]
      rfl
  | btf byte phase =>
      obtain ⟨k, writing⟩ := runs.inPhase phase
      dsimp only [I2cTransfer.byteTransferFinished]
      rw [type]
      refine TxRuns.next (k := k + 1) rfl ?_ writing.left writing.idx writing.buffer
        writing.status writing.service
      rw [sentBytes_append, writing.sent, writing.upTo]
      rfl
  | btfWritten phase =>
      have written : TxWritten addr data cur x := runs.inPhase phase
      dsimp only [I2cTransfer.byteTransferFinished]
      rw [type, List.append_nil]
      dsimp only
      rw [written.left, if_neg (by decide)]
      have again : TxWritten addr data cur x.setStop :=
        ⟨written.sent, written.left, written.status, rfl, rfl⟩
      exact TxRuns.of phase again
  | btfRead phase full => exact (runs.inPhase phase).elim
  | af byte phase =>
      refine TxRuns.of rfl ⟨?_, I2cStatus.noConfusion, rfl, rfl⟩
      rcases phase with phase | phase
      · obtain ⟨rfl, silent, fresh⟩ := runs.inPhase phase
        rw [sentBytes_append, silent]
        exact List.cons_prefix_cons.mpr ⟨rfl, List.nil_prefix⟩
      · obtain ⟨k, writing⟩ := runs.inPhase phase
        rw [sentBytes_append, writing.sent]
        refine List.cons_prefix_cons.mpr ⟨rfl, ?_⟩
        show data.take k ++ [byte] <+: data
        rw [← writing.upTo]
        exact List.take_prefix (k + 1) data
  | arlo busy => exact runs.fails rfl rfl rfl rfl
  | berr busy => exact runs.fails rfl rfl rfl rfl
  | byte byte phase room more => exact (runs.inPhase phase).elim
  | stop bit phase =>
      have same : sentBytes (cur ++ [.stopped]) = sentBytes cur := sentBytes_silent rfl
      have begun : sentBytes (cur ++ [.stopped]) <+: (addr <<< 1 ||| 0) :: data := by
        rw [same]
        exact runs.sent
      show TxOver addr data (cur ++ [.stopped]) _
      rcases phase with phase | phase | ⟨phase, -⟩
      · have written : TxWritten addr data cur x := runs.inPhase phase
        exact ⟨begun, fun _ => same.trans written.sent, written.service⟩
      · have aborted : Aborted _ cur x := runs.inPhase phase
        exact ⟨begun, fun ack => absurd ack aborted.status, aborted.service⟩
      · exact (runs.inPhase phase).elim

/-! ## Progress -/

variable {t : I2cTransaction}

/-- After a byte there is another one, or STOP. -/
theorem remaining_next (written : x.bus.phase = .written) :
    (if 0 < x.i2cBytesLeft then x.sendByte else x.setStop).remaining <
      2 * x.i2cBytesLeft.toNat + 2 := by
  by_cases more : 0 < x.i2cBytesLeft
  · rw [if_pos more]
    have positive : 0 < x.i2cBytesLeft.toNat := UInt8.lt_iff_toNat_lt.mp more
    have pred : (x.i2cBytesLeft - 1).toNat = x.i2cBytesLeft.toNat - 1 :=
      bytesLeft_pred (by omega)
    unfold I2cTransfer.remaining
    rw [sendByte_phase written]
    show 2 * (x.i2cBytesLeft - 1).toNat + 2 < _
    omega
  · rw [if_neg more]
    unfold I2cTransfer.remaining
    rw [show x.setStop.bus.phase = .written from written]
    exact Nat.le_add_left 2 _

/-- A transfer that sends goes on until the bus is free. -/
theorem TxRuns.progress (type : t.type = .tx)
    (runs : TxRuns addr data cur x) (notFree : x.bus.phase ≠ .free) : CanAdvance t x := by
  have next := remaining_next (x := x.enter .written) rfl
  cases phase : x.bus.phase with
  | free => exact absurd phase notFree
  | start => exact progress_start phase
  | started => exact (runs.inPhase phase).elim
  | address byte =>
      obtain ⟨rfl, -, -⟩ := runs.inPhase phase
      refine ⟨.addr, rfl, ?_⟩
      rw [remaining_address phase]
      dsimp only [busStep]
      rw [phase]
      dsimp only
      rw [evIrqHandler_addr]
      dsimp only [I2cTransfer.addressSent]
      rw [type, behindAddress_write addr]
      exact Nat.lt_of_lt_of_le next (Nat.add_le_add_left (by decide) _)
  | write byte =>
      have before : x.remaining = 2 * x.i2cBytesLeft.toNat + 2 := by
        unfold I2cTransfer.remaining
        rw [phase]
      refine ⟨.btf, rfl, ?_⟩
      rw [before]
      dsimp only [busStep]
      rw [phase]
      dsimp only
      rw [evIrqHandler_btf]
      dsimp only [I2cTransfer.byteTransferFinished]
      rw [type]
      exact next
  | written =>
      have written : TxWritten addr data cur x := runs.inPhase phase
      exact progress_over written.stop (.inl phase)
  | read => exact (runs.inPhase phase).elim
  | aborted =>
      have aborted : Aborted _ cur x := runs.inPhase phase
      exact progress_over aborted.stop (.inr phase)

end Tx

end OlympusFirmware.Olympus

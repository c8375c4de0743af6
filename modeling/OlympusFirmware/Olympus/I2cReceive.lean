import OlympusFirmware.Olympus.I2cTransfer

/-!
# An I2C transfer that receives

`RxRuns` says for each phase of the bus what has been received and what the driver's variables
hold: one byte, two bytes and the last three are received in ways of their own. When the bus is
free again a transfer that was acknowledged throughout has received as many bytes as were asked
for. They are in the buffer, but for the one byte of a transfer of one, which `serviceI2C`
fetches.
-/

namespace OlympusFirmware.Olympus

open OlympusFirmware.Lib

/-- A transfer that receives, before its first byte. -/
structure RxFresh (n : Nat) (x : I2cTransfer) : Prop extends Fresh n x where
  idx : x.i2cRxDataBufferIdx = 0
  ack : x.bus.ack = true
  pos : x.bus.pos = false

/-- The address is being sent. -/
structure RxAddress (addr : UInt8) (n : Nat) (byte : UInt8) (cur : List I2cOutput)
    (x : I2cTransfer) : Prop extends RxFresh n x where
  is : byte = addr <<< 1 ||| 1
  sent : sentBytes cur = []
  none : receivedBytes cur = []
  empty : x.bus.received = []
  nacked : x.bus.nacked = false
  nackNext : x.bus.nackNext = false

/-- How far a reception is: one byte, which `serviceI2C` fetches; two bytes, before they are
read; three or more left; two left; all read. -/
inductive RxMode (n : Nat) (x : I2cTransfer) : Prop
  | one (count : n = 1) (idx : x.i2cRxDataBufferIdx = 0) (ack : x.bus.ack = false)
      (pos : x.bus.pos = false) (service : x.shouldServiceI2C = true) (stop : x.bus.stop = true)
  | two (count : n = 2) (left : x.i2cBytesLeft = 2) (idx : x.i2cRxDataBufferIdx = 0)
      (ack : x.bus.ack = false) (pos : x.bus.pos = true)
      (next : x.bus.nackNext = true ↔ x.bus.received ≠ []) (stop : x.bus.stop = false)
  | many (left : 3 ≤ x.i2cBytesLeft.toNat)
      (count : x.i2cRxDataBufferIdx + x.i2cBytesLeft.toNat = n) (ack : x.bus.ack = true)
      (pos : x.bus.pos = false) (stop : x.bus.stop = false)
  | last (left : x.i2cBytesLeft = 2) (count : x.i2cRxDataBufferIdx + 2 = n)
      (ack : x.bus.ack = false) (pos : x.bus.pos = false) (some : 1 ≤ x.bus.received.length)
      (stop : x.bus.stop = false)
  | done (count : 2 ≤ n) (idx : x.i2cRxDataBufferIdx = n) (service : x.shouldServiceI2C = true)
      (stop : x.bus.stop = true)

/-- Bytes are being received: what has been, and where it is. -/
structure RxBytes (addr : UInt8) (n : Nat) (cur : List I2cOutput) (x : I2cTransfer) : Prop where
  sent : sentBytes cur = [addr <<< 1 ||| 1]
  status : x.i2cStatus = .ack
  taken : x.i2cRxDataBuffer.load 0 x.i2cRxDataBufferIdx ++ x.bus.received = receivedBytes cur
  bound : (receivedBytes cur).length ≤ n
  registers : x.bus.received.length ≤ 2
  nacked : x.bus.nacked = true ↔ (receivedBytes cur).length = n

structure RxReading (addr : UInt8) (n : Nat) (cur : List I2cOutput) (x : I2cTransfer) : Prop
    extends RxBytes addr n cur x where
  mode : RxMode n x

/-- What an acknowledged transfer has received, before `serviceI2C`. -/
structure RxWhole (addr : UInt8) (n : Nat) (cur : List I2cOutput) (x : I2cTransfer) : Prop where
  sent : sentBytes cur = [addr <<< 1 ||| 1]
  count : (receivedBytes cur).length = n
  bytes : n = 1 ∧ x.i2cRxDataBufferIdx = 0 ∧ x.bus.received = receivedBytes cur ∨
    2 ≤ n ∧ x.i2cRxDataBuffer.load 0 n = receivedBytes cur

/-- The bus is free again. -/
structure RxOver (addr : UInt8) (n : Nat) (cur : List I2cOutput) (x : I2cTransfer) : Prop where
  sent : sentBytes cur <+: [addr <<< 1 ||| 1]
  whole : x.i2cStatus = .ack → RxWhole addr n cur x
  service : x.shouldServiceI2C = true

/-- What holds of a transfer that receives in a phase of the bus, after the outputs `cur`. -/
def RxIn (addr : UInt8) (n : Nat) (cur : List I2cOutput) (x : I2cTransfer) : BusPhase → Prop
  | .start => cur = [] ∧ RxFresh n x
  | .address byte => RxAddress addr n byte cur x
  | .read => RxReading addr n cur x
  | .aborted => Aborted [addr <<< 1 ||| 1] cur x
  | .free => RxOver addr n cur x
  | .started => False
  | .write _ => False
  | .written => False

def RxRuns (addr : UInt8) (n : Nat) (cur : List I2cOutput) (x : I2cTransfer) : Prop :=
  RxIn addr n cur x x.bus.phase

theorem behindAddress_read (addr : UInt8) :
    BusPhase.behindAddress (addr <<< 1 ||| 1) = .read := by
  have odd : (addr <<< 1 ||| 1) &&& 1 ≠ 0 := by
    rw [ne_eq, ← UInt8.toNat_inj]
    simp [Nat.and_one_is_mod, Nat.shiftLeft_eq, Nat.or_mod_two_eq_one]
  exact if_neg odd

/-! ## Reading the data register -/

/-- What reading `count` bytes leaves of a transfer. -/
structure Took (count : Nat) (x y : I2cTransfer) : Prop where
  received : y.bus.received = x.bus.received.drop count
  taken : y.i2cRxDataBuffer.load 0 y.i2cRxDataBufferIdx ++ y.bus.received =
    x.i2cRxDataBuffer.load 0 x.i2cRxDataBufferIdx ++ x.bus.received
  idx : y.i2cRxDataBufferIdx = x.i2cRxDataBufferIdx + count
  left : y.i2cBytesLeft.toNat + count = x.i2cBytesLeft.toNat
  status : y.i2cStatus = x.i2cStatus
  phase : y.bus.phase = x.bus.phase
  pos : y.bus.pos = x.bus.pos
  nacked : y.bus.nacked = x.bus.nacked

section Rx

variable {addr : UInt8} {n : Nat} {cur : List I2cOutput} {x y z : I2cTransfer}

theorem Took.trans {first second : Nat} (one : Took first x y) (two : Took second y z) :
    Took (first + second) x z := by
  refine ⟨?_, two.taken.trans one.taken, ?_, ?_, two.status.trans one.status,
    two.phase.trans one.phase, two.pos.trans one.pos, two.nacked.trans one.nacked⟩
  · rw [two.received, one.received, List.drop_drop]
  · rw [two.idx, one.idx, Nat.add_assoc]
  · have left := one.left
    have left' := two.left
    omega

theorem readDr_eq (b : I2cBus) :
    b.readDr.2 = { b with received := b.received.tail, last := b.readDr.1 } := by
  cases b with
  | mk phase ack pos stop received last nacked nackNext =>
      cases received with
      | nil => rfl
      | cons byte rest => rfl

/-- Only the received bytes change on the bus. -/
theorem takeByte_bus (x : I2cTransfer) : x.takeByte.bus =
    { x.bus with received := x.bus.received.tail, last := x.bus.readDr.1 } := readDr_eq x.bus

@[simp] theorem takeByte_received (x : I2cTransfer) :
    x.takeByte.bus.received = x.bus.received.tail := by rw [takeByte_bus]

@[simp] theorem takeByte_phase (x : I2cTransfer) : x.takeByte.bus.phase = x.bus.phase := by
  rw [takeByte_bus]

@[simp] theorem takeByte_ack (x : I2cTransfer) : x.takeByte.bus.ack = x.bus.ack := by
  rw [takeByte_bus]

@[simp] theorem takeByte_pos (x : I2cTransfer) : x.takeByte.bus.pos = x.bus.pos := by
  rw [takeByte_bus]

@[simp] theorem takeByte_stop (x : I2cTransfer) : x.takeByte.bus.stop = x.bus.stop := by
  rw [takeByte_bus]

@[simp] theorem takeByte_nacked (x : I2cTransfer) : x.takeByte.bus.nacked = x.bus.nacked := by
  rw [takeByte_bus]

/-- A byte goes from the data register to the buffer. -/
theorem takeByte_took {byte : UInt8} {rest : List UInt8}
    (received : x.bus.received = byte :: rest) (some : 0 < x.i2cBytesLeft.toNat) :
    Took 1 x { x.takeByte with i2cBytesLeft := x.i2cBytesLeft - 1 } := by
  have behind := x.i2cRxDataBuffer.load_store_behind 0 x.i2cRxDataBufferIdx [byte]
  rw [Nat.zero_add, List.length_singleton] at behind
  refine ⟨?_, ?_, rfl, ?_, rfl, takeByte_phase x, takeByte_pos x, takeByte_nacked x⟩
  · dsimp only
    rw [takeByte_received]
    exact (List.drop_one).symm
  · dsimp only
    rw [takeByte_received, received]
    simp only [I2cTransfer.takeByte, I2cBus.readDr, received]
    rw [behind, List.append_assoc]
    rfl
  · show (x.i2cBytesLeft - 1).toNat + 1 = _
    have pred : (x.i2cBytesLeft - 1).toNat = x.i2cBytesLeft.toNat - 1 :=
      bytesLeft_pred (by omega)
    omega

/-- Two bytes are left: STOP is set, and both are read. -/
theorem readI2CByte_two {first second : UInt8} (received : x.bus.received = [first, second])
    (left : x.i2cBytesLeft = 2) : Took 2 x x.readI2CByte ∧
      x.readI2CByte.shouldServiceI2C = true ∧ x.readI2CByte.bus.stop = true := by
  have some : 0 < x.setStop.i2cBytesLeft.toNat := by
    show 0 < x.i2cBytesLeft.toNat
    rw [left]
    decide
  have one := takeByte_took (x := x.setStop) received some
  have rest : ({ x.setStop.takeByte with i2cBytesLeft := x.i2cBytesLeft - 1 }).bus.received =
      [second] := by
    rw [one.received]
    show x.bus.received.drop 1 = [second]
    rw [received]
    rfl
  have more : 0 < (x.i2cBytesLeft - 1).toNat := by
    rw [left]
    decide
  have two := takeByte_took rest more
  have both := one.trans two
  have read : x.readI2CByte =
      { { x.setStop.takeByte with i2cBytesLeft := x.i2cBytesLeft - 1 }.takeByte with
        i2cBytesLeft := x.i2cBytesLeft - 1 - 1 } := by
    unfold I2cTransfer.readI2CByte
    rw [left, if_neg (by decide), if_pos rfl]
  rw [read]
  refine ⟨⟨both.received, both.taken, both.idx, both.left, both.status, both.phase, both.pos,
    both.nacked⟩, rfl, ?_⟩
  show x.setStop.takeByte.takeByte.bus.stop = true
  rw [takeByte_stop, takeByte_stop]
  rfl

/-- More are left: one is read, and ACK goes down when three are. -/
theorem readI2CByte_more {first second : UInt8} (received : x.bus.received = [first, second])
    (more : 3 ≤ x.i2cBytesLeft.toNat) : Took 1 x x.readI2CByte ∧
      x.readI2CByte.bus.stop = x.bus.stop ∧
      x.readI2CByte.bus.ack = if x.i2cBytesLeft = 3 then false else x.bus.ack := by
  have notTwo : x.i2cBytesLeft ≠ 2 := by
    intro two
    rw [two] at more
    exact absurd more (by decide)
  unfold I2cTransfer.readI2CByte
  by_cases three : x.i2cBytesLeft = 3
  · rw [if_pos three, if_pos three]
    have one := takeByte_took (x := { x with bus := { x.bus with ack := false } }) received
      (by show 0 < x.i2cBytesLeft.toNat; omega)
    exact ⟨⟨one.received, one.taken, one.idx, one.left, one.status, one.phase, one.pos,
      one.nacked⟩, takeByte_stop _, takeByte_ack _⟩
  · rw [if_neg three, if_neg notTwo, if_neg three]
    exact ⟨takeByte_took received (by omega), takeByte_stop x, takeByte_ack x⟩

theorem readI2CByte_phase (x : I2cTransfer) : x.readI2CByte.bus.phase = x.bus.phase := by
  unfold I2cTransfer.readI2CByte
  show I2cBus.phase (I2cTransfer.bus (I2cTransfer.takeByte _)) = _
  rw [takeByte_phase]
  split
  · rfl
  · split
    · exact takeByte_phase x.setStop
    · rfl

/-! ## While bytes are received -/

/-- How many bytes have been received. -/
theorem RxBytes.length (bytes : RxBytes addr n cur x) :
    x.i2cRxDataBufferIdx + x.bus.received.length = (receivedBytes cur).length := by
  rw [← bytes.taken, List.length_append, Mem.length_load]

theorem RxBytes.took {count : Nat} (bytes : RxBytes addr n cur x) (took : Took count x y) :
    RxBytes addr n cur y := by
  refine ⟨bytes.sent, took.status.trans bytes.status, took.taken.trans bytes.taken, bytes.bound,
    ?_, ?_⟩
  · rw [took.received, List.length_drop]
    exact (Nat.sub_le _ count).trans bytes.registers
  · rw [took.nacked]
    exact bytes.nacked

/-- The next byte is not acknowledged exactly when it is the last. -/
theorem RxMode.nacked (mode : RxMode n x) (byte : UInt8) (room : x.bus.received.length < 2)
    (more : x.i2cRxDataBufferIdx + x.bus.received.length < n) :
    (x.bus.receive byte).nacked = true ↔
      x.i2cRxDataBufferIdx + x.bus.received.length + 1 = n := by
  show (if x.bus.pos then x.bus.nackNext else !x.bus.ack) = true ↔ _
  cases mode with
  | one count idx ack pos service stop =>
      rw [pos, ack]
      simp
      omega
  | two count left idx ack pos next stop =>
      rw [pos, if_pos rfl, next, ← List.length_pos_iff]
      omega
  | many left count ack pos stop =>
      rw [pos, ack]
      simp
      omega
  | last left count ack pos some stop =>
      rw [pos, ack]
      simp
      omega
  | done count idx service stop => omega

theorem RxMode.receive (mode : RxMode n x) (byte : UInt8)
    (more : x.i2cRxDataBufferIdx + x.bus.received.length < n) :
    RxMode n { x with bus := x.bus.receive byte } := by
  cases mode with
  | one count idx ack pos service stop => exact .one count idx ack pos service stop
  | two count left idx ack pos next stop =>
      refine .two count left idx ack pos ?_ stop
      simp [I2cBus.receive, ack]
  | many left count ack pos stop => exact .many left count ack pos stop
  | last left count ack pos some stop =>
      refine .last left count ack pos ?_ stop
      simp [I2cBus.receive]
  | done count idx service stop => omega

/-- A byte arrives. -/
theorem RxReading.receive (reading : RxReading addr n cur x) (byte : UInt8)
    (room : x.bus.received.length < 2) (notNacked : x.bus.nacked = false) :
    RxReading addr n (cur ++ [.received byte]) { x with bus := x.bus.receive byte } := by
  have length := reading.length
  have bound := reading.bound
  have notAll : (receivedBytes cur).length ≠ n := by
    intro all
    rw [reading.nacked.mpr all] at notNacked
    cases notNacked
  have more : x.i2cRxDataBufferIdx + x.bus.received.length < n := by omega
  have bytes : receivedBytes (cur ++ [.received byte]) = receivedBytes cur ++ [byte] := by
    rw [receivedBytes_append]
    rfl
  have grown : (receivedBytes (cur ++ [.received byte])).length =
      (receivedBytes cur).length + 1 := by
    rw [bytes, List.length_append]
    rfl
  refine ⟨⟨?_, reading.status, ?_, by omega, ?_, ?_⟩, reading.mode.receive byte more⟩
  · rw [sentBytes_silent rfl]
    exact reading.sent
  · rw [bytes, ← reading.taken, List.append_assoc]
    rfl
  · show (x.bus.received ++ [byte]).length ≤ 2
    rw [List.length_append, List.length_singleton]
    omega
  · rw [grown, ← length]
    exact reading.mode.nacked byte room more

/-- **`readI2CByte`**, when both registers are full. -/
theorem RxReading.transferFinished (reading : RxReading addr n cur x)
    (full : x.bus.received.length = 2) : RxReading addr n cur x.readI2CByte := by
  have length := reading.length
  have bound := reading.bound
  obtain ⟨first, second, received⟩ := List.length_eq_two.mp full
  have lastTwo (two : 2 ≤ n) (left : x.i2cBytesLeft = 2) (count : x.i2cRxDataBufferIdx + 2 = n) :
      RxReading addr n cur x.readI2CByte := by
    obtain ⟨took, service, stop⟩ := readI2CByte_two received left
    exact ⟨reading.toRxBytes.took took, .done two (took.idx.trans count) service stop⟩
  cases reading.mode with
  | one count idx ack pos service stop => omega
  | two count left idx ack pos next stop => exact lastTwo (by omega) left (by omega)
  | many left count ack pos stop =>
      obtain ⟨took, stopSame, ackNow⟩ := readI2CByte_more received left
      have leftNow := took.left
      have idxNow := took.idx
      refine ⟨reading.toRxBytes.took took, ?_⟩
      by_cases three : x.i2cBytesLeft = 3
      · rw [if_pos three] at ackNow
        have wasThree : x.i2cBytesLeft.toNat = 3 := congrArg UInt8.toNat three
        refine .last (UInt8.toNat_inj.mp ?_) (by omega) ackNow (took.pos.trans pos) ?_
          (stopSame.trans stop)
        · show _ = 2
          omega
        · rw [took.received, received]
          exact Nat.le_refl 1
      · rw [if_neg three] at ackNow
        have notThree : x.i2cBytesLeft.toNat ≠ 3 := fun is => three (UInt8.toNat_inj.mp is)
        exact .many (by omega) (by omega) (ackNow.trans ack) (took.pos.trans pos)
          (stopSame.trans stop)
  | last left count ack pos some stop => exact lastTwo (by omega) left count
  | done count idx service stop => omega

/-- The address has been sent: the bits say how the bytes will be acknowledged. -/
theorem RxAddress.next {byte : UInt8} {t : I2cTransaction} (type : t.type = .rx)
    (address : RxAddress addr n byte cur x) (positive : 0 < n) :
    RxReading addr n (cur ++ [.sent byte]) ((x.enter .read).addressSent t) := by
  have left := address.left
  have sent : sentBytes (cur ++ [.sent byte]) = [addr <<< 1 ||| 1] := by
    rw [sentBytes_append, address.sent, address.is]
    rfl
  have none : receivedBytes (cur ++ [.sent byte]) = [] := by
    rw [receivedBytes_append, address.none]
    rfl
  have taken : x.i2cRxDataBuffer.load 0 x.i2cRxDataBufferIdx ++ x.bus.received =
      receivedBytes (cur ++ [.sent byte]) := by
    rw [none, address.idx, address.empty]
    rfl
  have bound : (receivedBytes (cur ++ [.sent byte])).length ≤ n := by
    rw [none]
    exact Nat.zero_le n
  have nacked : x.bus.nacked = true ↔ (receivedBytes (cur ++ [.sent byte])).length = n := by
    rw [none, address.nacked, List.length_nil]
    simp
    omega
  have registers : x.bus.received.length ≤ 2 := by
    rw [address.empty]
    exact Nat.zero_le 2
  unfold I2cTransfer.addressSent
  rw [type]
  show RxReading addr n _ (if x.i2cBytesLeft = 1 then _ else _)
  by_cases one : x.i2cBytesLeft = 1
  · rw [if_pos one]
    rw [one] at left
    exact ⟨⟨sent, address.status, taken, bound, registers, nacked⟩,
      .one left.symm address.idx rfl address.pos rfl rfl⟩
  · rw [if_neg one]
    by_cases two : x.i2cBytesLeft = 2
    · have next : x.bus.nackNext = true ↔ x.bus.received ≠ [] := by
        rw [address.nackNext, address.empty]
        simp
      show RxReading addr n _ (if x.i2cBytesLeft = 2 then _ else _)
      rw [if_pos two]
      rw [two] at left
      exact ⟨⟨sent, address.status, taken, bound, registers, nacked⟩,
        .two left.symm two address.idx rfl rfl next address.stop⟩
    · have notOne : x.i2cBytesLeft.toNat ≠ 1 := fun is => one (UInt8.toNat_inj.mp is)
      have notTwo : x.i2cBytesLeft.toNat ≠ 2 := fun is => two (UInt8.toNat_inj.mp is)
      have idx := address.idx
      show RxReading addr n _ (if x.i2cBytesLeft = 2 then _ else _)
      rw [if_neg two]
      refine ⟨⟨sent, address.status, taken, bound, registers, nacked⟩,
        .many ?_ ?_ address.ack address.pos address.stop⟩
      · show 3 ≤ x.i2cBytesLeft.toNat
        omega
      · show x.i2cRxDataBufferIdx + x.i2cBytesLeft.toNat = n
        omega

/-- After the last byte, when STOP is sent, all is in the buffer or in the data register. -/
theorem RxReading.whole (reading : RxReading addr n cur x) (nacked : x.bus.nacked = true)
    (bit : x.bus.stop = true) : RxWhole addr n cur x ∧ x.shouldServiceI2C = true := by
  have all := reading.nacked.mp nacked
  have taken := reading.taken
  cases reading.mode with
  | one count idx ack pos service stop =>
      rw [idx] at taken
      exact ⟨⟨reading.sent, all, .inl ⟨count, idx, taken⟩⟩, service⟩
  | two count left idx ack pos next stop =>
      rw [stop] at bit
      cases bit
  | many left count ack pos stop =>
      rw [stop] at bit
      cases bit
  | last left count ack pos some stop =>
      rw [stop] at bit
      cases bit
  | done count idx service stop =>
      have length := reading.length
      have read : x.bus.received = [] := List.length_eq_zero_iff.mp (by omega)
      rw [read, List.append_nil, idx] at taken
      exact ⟨⟨reading.sent, all, .inr ⟨count, taken⟩⟩, service⟩

/-! ## Runs -/

theorem RxRuns.inPhase {p : BusPhase} (runs : RxRuns addr n cur x) (phase : x.bus.phase = p) :
    RxIn addr n cur x p := phase ▸ runs

theorem RxRuns.of {p : BusPhase} (phase : x.bus.phase = p) (holds : RxIn addr n cur x p) :
    RxRuns addr n cur x := by
  unfold RxRuns
  rw [phase]
  exact holds

/-- What has been sent, in every phase. -/
theorem RxRuns.sent (runs : RxRuns addr n cur x) : sentBytes cur <+: [addr <<< 1 ||| 1] := by
  cases phase : x.bus.phase with
  | free => exact (runs.inPhase phase).sent
  | start =>
      obtain ⟨rfl, -⟩ := runs.inPhase phase
      exact List.nil_prefix
  | started => exact (runs.inPhase phase).elim
  | address byte =>
      have address : RxAddress addr n byte cur x := runs.inPhase phase
      rw [address.sent]
      exact List.nil_prefix
  | write byte => exact (runs.inPhase phase).elim
  | written => exact (runs.inPhase phase).elim
  | read =>
      have reading : RxReading addr n cur x := runs.inPhase phase
      rw [reading.sent]
  | aborted => exact (runs.inPhase phase).sent

/-- A bus error, or arbitration lost. -/
theorem RxRuns.fails (runs : RxRuns addr n cur x) (aborted : y.bus.phase = .aborted)
    (status : y.i2cStatus = .err) (service : y.shouldServiceI2C = true)
    (stop : y.bus.stop = true) : RxRuns addr n (cur ++ [.failed .err]) y := by
  refine RxRuns.of aborted ⟨?_, ?_, service, stop⟩
  · rw [sentBytes_silent rfl]
    exact runs.sent
  · rw [status]
    exact I2cStatus.noConfusion

theorem addressSent_phase {t : I2cTransaction} (type : t.type = .rx) :
    (x.addressSent t).bus.phase = x.bus.phase := by
  unfold I2cTransfer.addressSent
  rw [type]
  dsimp only
  split
  · rfl
  · split
    · rfl
    · rfl

/-- **One event** of a transfer that receives. -/
theorem RxRuns.step {t : I2cTransaction} (type : t.type = .rx) (isAddr : t.addr = addr)
    (positive : 0 < n) (runs : RxRuns addr n cur x) (e : BusEvent) :
    RxRuns addr n (cur ++ (busStep t x e).2) (busStep t x e).1 := by
  have effect := busStep_effect t x e
  generalize busStep t x e = result at effect
  cases effect with
  | none =>
      rw [List.append_nil]
      exact runs
  | sb phase =>
      obtain ⟨rfl, fresh⟩ := runs.inPhase phase
      dsimp only [I2cTransfer.startBitSent]
      rw [type, isAddr]
      exact ⟨⟨⟨fresh.left, fresh.status, fresh.service, fresh.stop⟩, fresh.idx, fresh.ack,
        fresh.pos⟩, rfl, rfl, rfl, rfl, rfl, rfl⟩
  | addr byte phase =>
      have address : RxAddress addr n byte cur x := runs.inPhase phase
      have reads : BusPhase.behindAddress byte = .read := by
        rw [address.is]
        exact behindAddress_read addr
      rw [reads]
      exact RxRuns.of (addressSent_phase type) (address.next type positive)
  | btf byte phase => exact (runs.inPhase phase).elim
  | btfWritten phase => exact (runs.inPhase phase).elim
  | btfRead phase full =>
      have reading : RxReading addr n cur x := runs.inPhase phase
      dsimp only [I2cTransfer.byteTransferFinished]
      rw [type, List.append_nil]
      exact RxRuns.of ((readI2CByte_phase x).trans phase) (reading.transferFinished full)
  | af byte phase =>
      refine RxRuns.of rfl ⟨?_, I2cStatus.noConfusion, rfl, rfl⟩
      rcases phase with phase | phase
      · have address : RxAddress addr n byte cur x := runs.inPhase phase
        rw [sentBytes_append, address.sent, address.is]
        exact List.prefix_refl _
      · exact (runs.inPhase phase).elim
  | arlo busy => exact runs.fails rfl rfl rfl rfl
  | berr busy => exact runs.fails rfl rfl rfl rfl
  | byte byte phase room more =>
      have reading : RxReading addr n cur x := runs.inPhase phase
      exact RxRuns.of phase (reading.receive byte room more)
  | stop bit phase =>
      have same : sentBytes (cur ++ [.stopped]) = sentBytes cur := sentBytes_silent rfl
      have sameReceived : receivedBytes (cur ++ [.stopped]) = receivedBytes cur :=
        receivedBytes_silent rfl
      have begun : sentBytes (cur ++ [.stopped]) <+: [addr <<< 1 ||| 1] := by
        rw [same]
        exact runs.sent
      show RxOver addr n (cur ++ [.stopped]) _
      rcases phase with phase | phase | ⟨phase, nacked⟩
      · exact (runs.inPhase phase).elim
      · have aborted : Aborted _ cur x := runs.inPhase phase
        exact ⟨begun, fun ack => absurd ack aborted.status, aborted.service⟩
      · have reading : RxReading addr n cur x := runs.inPhase phase
        obtain ⟨whole, service⟩ := reading.whole nacked bit
        refine ⟨begun, fun _ => ⟨same.trans whole.sent, ?_, ?_⟩, service⟩
        · rw [sameReceived]
          exact whole.count
        · rw [sameReceived]
          exact whole.bytes

/-! ## Progress -/

variable {t : I2cTransaction}

theorem remaining_read (phase : x.bus.phase = .read) :
    x.remaining = 2 * x.i2cBytesLeft.toNat + 3 - x.bus.received.length := by
  unfold I2cTransfer.remaining
  rw [phase]

/-- BTF brings the reception nearer to its end. -/
theorem RxReading.remaining_readI2CByte (reading : RxReading addr n cur x)
    (phase : x.bus.phase = .read) (full : x.bus.received.length = 2) :
    x.readI2CByte.remaining < x.remaining := by
  have length := reading.length
  have bound := reading.bound
  obtain ⟨first, second, received⟩ := List.length_eq_two.mp full
  have nearer {count : Nat} (took : Took count x x.readI2CByte) (some : 0 < count) :
      x.readI2CByte.remaining < x.remaining := by
    have left := took.left
    rw [remaining_read (took.phase.trans phase), remaining_read phase, took.received,
      List.length_drop, full]
    omega
  cases reading.mode with
  | one count idx ack pos service stop => omega
  | two count left idx ack pos next stop =>
      exact nearer (readI2CByte_two received left).1 Nat.two_pos
  | many left count ack pos stop => exact nearer (readI2CByte_more received left).1 Nat.one_pos
  | last left count ack pos some stop =>
      exact nearer (readI2CByte_two received left).1 Nat.two_pos
  | done count idx service stop => omega

/-- Reading goes on: with STOP after the last byte, with the next byte, or with BTF. -/
theorem RxReading.progress (type : t.type = .rx) (reading : RxReading addr n cur x)
    (phase : x.bus.phase = .read) : CanAdvance t x := by
  have length := reading.length
  have before := remaining_read phase
  by_cases full : x.bus.received.length = 2
  · refine ⟨.btf, rfl, ?_⟩
    dsimp only [busStep]
    rw [phase]
    dsimp only
    rw [if_pos full, evIrqHandler_btf]
    dsimp only [I2cTransfer.byteTransferFinished]
    rw [type]
    exact reading.remaining_readI2CByte phase full
  · have room : x.bus.received.length < 2 := Nat.lt_of_le_of_ne reading.registers full
    by_cases all : (receivedBytes cur).length = n
    · have stop : x.bus.stop = true := by
        cases reading.mode with
        | one count idx ack pos service stop => exact stop
        | two count left idx ack pos next stop => omega
        | many left count ack pos stop => omega
        | last left count ack pos some stop => omega
        | done count idx service stop => exact stop
      refine progress_stop stop (.inr (.inr ⟨phase, reading.nacked.mpr all⟩)) ?_
      omega
    · have notNacked : x.bus.nacked = false := by
        rw [← Bool.not_eq_true, reading.nacked]
        exact all
      have after := remaining_read (x := { x with bus := x.bus.receive 0 }) phase
      refine ⟨.byte 0, rfl, ?_⟩
      dsimp only [busStep]
      rw [if_pos ⟨phase, room, notNacked⟩, before, after]
      show 2 * x.i2cBytesLeft.toNat + 3 - (x.bus.received ++ [0]).length < _
      rw [List.length_append, List.length_singleton]
      omega

theorem remaining_addressSent (type : t.type = .rx) (phase : x.bus.phase = .read) :
    (x.addressSent t).remaining < 2 * x.i2cBytesLeft.toNat + 4 := by
  rw [remaining_read ((addressSent_phase type).trans phase)]
  have left : (x.addressSent t).i2cBytesLeft.toNat ≤ x.i2cBytesLeft.toNat := by
    unfold I2cTransfer.addressSent
    rw [type]
    dsimp only
    split
    · rename_i one
      show (x.i2cBytesLeft - 1).toNat ≤ _
      rw [one]
      decide
    · split
      · exact Nat.le_refl _
      · exact Nat.le_refl _
  omega

/-- A transfer that receives goes on until the bus is free. -/
theorem RxRuns.progress (type : t.type = .rx) (runs : RxRuns addr n cur x)
    (notFree : x.bus.phase ≠ .free) : CanAdvance t x := by
  cases phase : x.bus.phase with
  | free => exact absurd phase notFree
  | start => exact progress_start phase
  | started => exact (runs.inPhase phase).elim
  | address byte =>
      have address : RxAddress addr n byte cur x := runs.inPhase phase
      have reads : BusPhase.behindAddress byte = .read := by
        rw [address.is]
        exact behindAddress_read addr
      refine ⟨.addr, rfl, ?_⟩
      rw [remaining_address phase]
      dsimp only [busStep]
      rw [phase]
      dsimp only
      rw [evIrqHandler_addr, reads]
      exact remaining_addressSent type rfl
  | write byte => exact (runs.inPhase phase).elim
  | written => exact (runs.inPhase phase).elim
  | read => exact RxReading.progress type (runs.inPhase phase) phase
  | aborted =>
      have aborted : Aborted _ cur x := runs.inPhase phase
      exact progress_over aborted.stop (.inr phase)

end Rx

end OlympusFirmware.Olympus

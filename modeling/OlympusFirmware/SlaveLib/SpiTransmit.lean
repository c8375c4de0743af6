import OlympusFirmware.Lib.Fsm
import OlympusFirmware.Lib.Ring
import OlympusFirmware.SlaveLib.CommsLib

/-!
# The slave's transmit ring (`slave_lib/peripherals/spi.c`)

`writeResponse` stores a status and its data behind what is pending, in up to two pieces
around the end of the ring, and `SPI1_IRQHandler` sends from the front. Start and length
are bytes, and the ring has 256 cells: the test for room allows a response that fills
the ring, but the length of a full ring is stored as zero.

The interrupt is masked while the ring is written, so a call is one step up to
`runResponse`, which only waits for the interrupts that send the ring.
-/

namespace OlympusFirmware.SlaveLib

open OlympusFirmware.Lib

/-- `TX_BUFFER_SIZE`. -/
def txBufferSize : Nat := 256

/-- `WR_BUFF_FULL`. -/
def wrBuffFull : UInt8 := 0x07

/-- The transmit side of the driver, and the interrupt's enable bit. -/
structure SpiTx where
  txBuffer : Mem UInt8
  txBufferStart : UInt8
  txBufferLen : UInt8
  txeie : Bool

/-- The ring's pending contents. -/
def SpiTx.pending (s : SpiTx) : List UInt8 :=
  Ring.contents txBufferSize s.txBuffer s.txBufferStart.toNat s.txBufferLen.toNat

/-- `writeIdx`. -/
def SpiTx.writeIdx (s : SpiTx) : Nat :=
  (s.txBufferStart.toNat + s.txBufferLen.toNat) % txBufferSize

/-- `firstLen`: how much of a response fits before the end of the ring. -/
def SpiTx.firstLen (s : SpiTx) (respLen : Nat) : Nat :=
  if s.writeIdx + respLen ≤ txBufferSize then respLen else txBufferSize - s.writeIdx

/-- The ring after a response of `respLen` bytes is copied to it. -/
def SpiTx.storeResponse (s : SpiTx) (status : UInt8) (data : List UInt8) (respLen : Nat) :
    Mem UInt8 :=
  let firstLen := s.firstLen respLen
  let txBuffer := s.txBuffer.store s.writeIdx [status]
  let txBuffer := txBuffer.store (s.writeIdx + 1) (data.take (firstLen - 1))
  if firstLen ≠ respLen then
    txBuffer.store 0 ((data.drop (firstLen - 1)).take (respLen - firstLen))
  else
    txBuffer

/-- `writeResponse`, up to `runResponse`. The test adds in 32 bits, `txBufferLen` in
eight. -/
def writeResponse (status : UInt8) (data : List UInt8) (s : SpiTx) : UInt8 × SpiTx :=
  if txBufferSize < s.txBufferLen.toNat + 1 + data.length then
    (wrBuffFull, s)
  else
    let respLen := 1 + data.length
    (wrOk, { s with
      txBuffer := s.storeResponse status data respLen
      txBufferLen := s.txBufferLen + UInt8.ofNat respLen
      txeie := true })

/-- `SPI1_IRQHandler` with `TXE` set. -/
def transmitStep (s : SpiTx) : SpiTx × List UInt8 :=
  if s.txBufferLen ≠ 0 then
    ({ s with txBufferStart := s.txBufferStart + 1, txBufferLen := s.txBufferLen - 1 },
      [s.txBuffer s.txBufferStart.toNat])
  else
    ({ s with txeie := false }, [])

/-- The transmit interrupts as a machine that sends bytes. -/
def transmitFSM : Fsm SpiTx Unit UInt8 where
  step s _ := transmitStep s

/-- What is asked of a call: it is refused and changes nothing, or the response is pending
behind what was, and the interrupts that follow send exactly that. -/
def Responds (status : UInt8) (data : List UInt8) (s : SpiTx) : Prop :=
  (writeResponse status data s).1 = wrBuffFull ∧ (writeResponse status data s).2 = s ∨
    (writeResponse status data s).1 = wrOk ∧
      (writeResponse status data s).2.pending = s.pending ++ status :: data ∧
      ∀ interrupts : List Unit, transmitFSM.outputs (writeResponse status data s).2 interrupts =
        (s.pending ++ status :: data).take interrupts.length

/-! ## Sending -/

/-- An interrupt sends the first pending byte, if there is one. -/
theorem transmitStep_pending (s : SpiTx) :
    s.pending = (transmitStep s).2 ++ (transmitStep s).1.pending ∧
      ((transmitStep s).2.length = 1 ∨ s.pending = []) := by
  by_cases more : s.txBufferLen ≠ 0
  · rw [transmitStep, if_pos more]
    have positive : s.txBufferLen.toNat = (s.txBufferLen - 1).toNat + 1 := by
      have nonzero : s.txBufferLen.toNat ≠ 0 := fun zero => more (UInt8.toNat_inj.mp zero)
      rw [UInt8.toNat_sub_of_le _ _ (by simp [UInt8.le_iff_toNat_le]; omega)]
      simp
      omega
    have next : (s.txBufferStart + 1).toNat = (s.txBufferStart.toNat + 1) % txBufferSize := by
      simp [txBufferSize]
    have first : s.txBufferStart.toNat % txBufferSize = s.txBufferStart.toNat :=
      Nat.mod_eq_of_lt s.txBufferStart.toNat_lt
    refine ⟨?_, .inl rfl⟩
    rw [SpiTx.pending, SpiTx.pending, positive, Ring.contents_succ, next, Ring.contents_mod, first]
    rfl
  · have empty : s.pending = [] := by
      rw [SpiTx.pending, not_not.mp more]
      rfl
    rw [transmitStep, if_neg more]
    exact ⟨rfl, .inr empty⟩

/-- **A run** of transmit interrupts sends the pending bytes, in order. -/
theorem transmit_outputs (interrupts : List Unit) (s : SpiTx) :
    transmitFSM.outputs s interrupts = s.pending.take interrupts.length := by
  induction interrupts generalizing s with
  | nil => rfl
  | cons interrupt rest ih =>
      obtain ⟨sent, one⟩ := transmitStep_pending s
      rw [Fsm.outputs_cons, ih, List.length_cons]
      show (transmitStep s).2 ++ (transmitStep s).1.pending.take rest.length = _
      rcases one with byte | empty
      · have whole : (transmitStep s).2.take (rest.length + 1) = (transmitStep s).2 :=
          List.take_of_length_le (by omega)
        rw [sent, List.take_append, byte, Nat.add_sub_cancel, whole]
      · rw [empty, eq_comm, List.append_eq_nil_iff] at sent
        rw [empty, sent.1, sent.2]
        simp

/-! ## Storing -/

section Store

variable (status : UInt8) (data : List UInt8) (s : SpiTx)

/-- A response that ends before the ring does. -/
theorem storeResponse_straight (fits : s.writeIdx + (1 + data.length) ≤ txBufferSize) :
    s.storeResponse status data (1 + data.length) =
      s.txBuffer.store s.writeIdx (status :: data) := by
  have first : s.firstLen (1 + data.length) = 1 + data.length := if_pos fits
  simp only [SpiTx.storeResponse, first, ne_eq, not_true_eq_false, if_false]
  rw [Nat.add_sub_cancel_left, List.take_length]
  exact Mem.store_append s.txBuffer s.writeIdx [status] data

/-- A response in two pieces. -/
theorem storeResponse_wrapped (wraps : ¬ s.writeIdx + (1 + data.length) ≤ txBufferSize) :
    s.storeResponse status data (1 + data.length) =
      (s.txBuffer.store s.writeIdx
        (status :: data.take (txBufferSize - s.writeIdx - 1))).store 0
          (data.drop (txBufferSize - s.writeIdx - 1)) := by
  have first : s.firstLen (1 + data.length) = txBufferSize - s.writeIdx := if_neg wraps
  have other : txBufferSize - s.writeIdx ≠ 1 + data.length := by omega
  have inside : s.writeIdx < txBufferSize := Nat.mod_lt _ (by decide)
  simp only [SpiTx.storeResponse, first, ne_eq, other, not_false_eq_true, if_true]
  have rest : (data.drop (txBufferSize - s.writeIdx - 1)).take
      (1 + data.length - (txBufferSize - s.writeIdx)) =
        data.drop (txBufferSize - s.writeIdx - 1) := by
    apply List.take_of_length_le
    rw [List.length_drop]
    omega
  have first := Mem.store_append s.txBuffer s.writeIdx [status]
    (data.take (txBufferSize - s.writeIdx - 1))
  rw [List.length_singleton] at first
  rw [rest, first]
  rfl

/-- **The copy** puts the response behind what is pending. -/
theorem contents_storeResponse
    (room : s.txBufferLen.toNat + (1 + data.length) ≤ txBufferSize) :
    Ring.contents txBufferSize (s.storeResponse status data (1 + data.length))
        s.txBufferStart.toNat (s.txBufferLen.toNat + (1 + data.length)) =
      s.pending ++ status :: data := by
  by_cases fits : s.writeIdx + (1 + data.length) ≤ txBufferSize
  · rw [storeResponse_straight status data s fits, Nat.add_comm 1]
    rw [Nat.add_comm 1] at fits room
    exact @Ring.contents_store _ txBufferSize s.txBuffer _ _ (status :: data) fits room
  · have inside : s.writeIdx < txBufferSize := Nat.mod_lt _ (by decide)
    let first := status :: data.take (txBufferSize - s.writeIdx - 1)
    let rest := data.drop (txBufferSize - s.writeIdx - 1)
    have firstLength : first.length = txBufferSize - s.writeIdx := by
      simp only [first, List.length_cons, List.length_take]
      omega
    have lengths : first.length + rest.length = 1 + data.length := by
      simp only [rest, firstLength, List.length_drop]
      omega
    -- the second piece starts where the first one ends: at the start of the ring
    have start : (s.txBufferStart.toNat + (s.txBufferLen.toNat + first.length)) % txBufferSize =
        0 := by
      have index : s.writeIdx = (s.txBufferStart.toNat + s.txBufferLen.toNat) % 256 := rfl
      rw [firstLength]
      unfold txBufferSize at *
      omega
    have one : Ring.contents txBufferSize (s.txBuffer.store s.writeIdx first)
        s.txBufferStart.toNat (s.txBufferLen.toNat + first.length) = s.pending ++ first :=
      Ring.contents_store (by rw [firstLength]; exact (Nat.add_sub_cancel' inside.le).le)
        (by omega)
    have two := @Ring.contents_store _ txBufferSize (s.txBuffer.store s.writeIdx first)
      s.txBufferStart.toNat (s.txBufferLen.toNat + first.length) rest
      (by rw [start]; omega) (by omega)
    rw [start, one, Nat.add_assoc, lengths] at two
    rw [storeResponse_wrapped status data s fits, two, List.append_assoc]
    simp [first, rest]

/-- What an accepted response leaves pending: the length is kept in eight bits. -/
theorem writeResponse_pending
    (room : s.txBufferLen.toNat + 1 + data.length ≤ txBufferSize) :
    (writeResponse status data s).1 = wrOk ∧
      (writeResponse status data s).2.pending =
        if s.txBufferLen.toNat + 1 + data.length = txBufferSize then []
        else s.pending ++ status :: data := by
  have small := s.txBufferLen.toNat_lt
  have length : (s.txBufferLen + UInt8.ofNat (1 + data.length)).toNat =
      (s.txBufferLen.toNat + (1 + data.length)) % 256 := by
    simp
  rw [writeResponse, if_neg (by omega)]
  refine ⟨rfl, ?_⟩
  simp only [SpiTx.pending, length]
  by_cases full : s.txBufferLen.toNat + 1 + data.length = txBufferSize
  · have wrapped : (s.txBufferLen.toNat + (1 + data.length)) % 256 = 0 := by
      rw [← Nat.add_assoc, full]
      rfl
    rw [if_pos full, wrapped]
    rfl
  · have kept : (s.txBufferLen.toNat + (1 + data.length)) % 256 =
        s.txBufferLen.toNat + (1 + data.length) := by
      apply Nat.mod_eq_of_lt
      unfold txBufferSize at room full
      omega
    rw [if_neg full, kept]
    exact contents_storeResponse status data s (by omega)

/-- **Responses are queued** for every start, length and content of the ring, unless one
fills it to the last cell: then everything pending is lost. -/
theorem writeResponse_responds_iff :
    Responds status data s ↔ s.txBufferLen.toNat + 1 + data.length ≠ txBufferSize := by
  unfold Responds
  by_cases room : s.txBufferLen.toNat + 1 + data.length ≤ txBufferSize
  · obtain ⟨accepted, pending⟩ := writeResponse_pending status data s room
    have notFull : (writeResponse status data s).1 ≠ wrBuffFull := by
      rw [accepted]
      decide
    constructor
    · rintro (⟨refused, -⟩ | ⟨-, behind, -⟩) full
      · exact notFull refused
      · rw [pending, if_pos full] at behind
        simp at behind
    · intro partly
      rw [if_neg partly] at pending
      refine .inr ⟨accepted, pending, fun interrupts => ?_⟩
      rw [transmit_outputs, pending]
  · have refused : writeResponse status data s = (wrBuffFull, s) := by
      rw [writeResponse, if_pos (by omega)]
    constructor
    · intro _ full
      exact room full.le
    · intro _
      rw [refused]
      exact .inl ⟨rfl, rfl⟩

end Store

/-- A response of 256 bytes to an empty ring is accepted, and nothing is pending. -/
theorem response_of_256_bytes_is_lost :
    ¬ ∀ (status : UInt8) (data : List UInt8) (s : SpiTx), data.length ≤ 255 →
      Responds status data s := by
  intro all
  have responds := all wrOk (List.replicate 255 0) ⟨fun _ => 0, 0, 0, true⟩
    List.length_replicate.le
  rcases responds with ⟨refused, -⟩ | ⟨-, -, sent⟩
  · exact absurd refused (by decide +kernel)
  · exact absurd (sent [()]) (by decide +kernel)

end OlympusFirmware.SlaveLib

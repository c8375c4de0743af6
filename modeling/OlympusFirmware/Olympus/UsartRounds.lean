import Mathlib.Algebra.GroupWithZero.Nat
import OlympusFirmware.Olympus.Transmit

/-!
# The rounds of a write

`usartWrite` finds an overrun when writing comes round to the buffer of the DMA, and then
sets `size` to zero before it subtracts the bytes of the round from it. These are not
zero, so the loop goes on with nearly 65536 bytes: it fills the buffer of the DMA, passes
the full buffers behind it, and ends when it comes round a second time, where the round
has copied nothing.

So a write is made of parts: full buffers are passed (`rounds_pass`), the waiting ones are
filled (`stored`, `overruns`), and behind an overrun the buffer of the DMA is
(`rounds_past_dma`).
-/

namespace OlympusFirmware.Olympus

open OlympusFirmware.Lib

/-- The room in the buffers that can be written to. -/
def Usart.freeSpace (u : Usart) : Nat :=
  (u.waiting.map fun j => commsTxBufferSize - u.length j).sum

/-! ## Rounds of the loop -/

/-- So many rounds of the loop. -/
inductive Rounds (data : Mem UInt8) : Nat → Writing → Writing → Prop
  | none (w : Writing) : Rounds data 0 w w
  | more {n : Nat} {w w' : Writing} : w.size ≠ 0 → Rounds data n (writeRound data w).1 w' →
      Rounds data (n + 1) w w'

namespace Rounds

variable {data : Mem UInt8}

theorem trans {n m : Nat} {w w' w'' : Writing} (first : Rounds data n w w')
    (second : Rounds data m w' w'') : Rounds data (n + m) w w'' := by
  induction first with
  | none w => simpa using second
  | more left _ ih =>
      rw [Nat.add_right_comm]
      exact .more left (ih second)

theorem single {w : Writing} (left : w.size ≠ 0) : Rounds data 1 w (writeRound data w).1 :=
  .more left (.none _)

/-- Rounds after which nothing is left are the whole loop. -/
theorem loop {n : Nat} {w w' : Writing} (run : Rounds data n w w') (done : w'.size = 0) :
    ∀ {rounds : Nat}, n ≤ rounds → (writeLoop data rounds w).1 = w' := by
  induction run with
  | none w =>
      intro rounds _
      cases rounds with
      | zero => rfl
      | succ rounds => rw [writeLoop, if_pos done]
  | more left _ ih =>
      intro rounds enough
      cases rounds with
      | zero => omega
      | succ rounds =>
          rw [writeLoop, if_neg left]
          exact ih done (Nat.le_of_succ_le_succ enough)

end Rounds

theorem append_nil (u : Usart) : u.append [] = u := by
  have same : (u.txBuffers u.nextTxBuffer).store (u.txBufferLengths u.nextTxBuffer) [] =
      u.txBuffers u.nextTxBuffer := by
    funext i
    exact Mem.store_outside (by simp; omega)
  unfold Usart.append
  dsimp only
  rw [same, Function.update_eq_self, List.length_nil, Nat.add_zero, Function.update_eq_self]

/-- The transmitter with the buffer to write to `k` places behind the one of the DMA. -/
def Usart.pointed (u : Usart) (k : Fin 4) : Usart := { u with nextTxBuffer := u.dmaTxBuffer + k }

theorem pointed_of_next {u : Usart} {k : Fin 4} (next : u.nextTxBuffer = u.dmaTxBuffer + k) :
    u.pointed k = u := by
  unfold Usart.pointed
  rw [← next]

theorem place_wraps : ∀ d k : Fin 4, d + k + 1 = d ↔ k = 3 := by decide

theorem place_left : ∀ k : Fin 4, k ≠ 3 → 3 - (k + 1).val = 3 - k.val - 1 := by decide

/-- **A round that fills its buffer**, which may have been full already. -/
theorem writeRound_fills {data : Mem UInt8} {u : Usart} {k : Fin 4} {pos size n : Nat}
    (filled : u.length k + n = commsTxBufferSize) (enough : n ≤ size) (word : size < 65536) :
    (writeRound data ⟨u.pointed k, pos, size⟩).1 =
      ⟨((u.pointed k).append (data.load pos n)).pointed (k + 1), pos + n,
        if k = 3 then (65536 - n) % 65536 else size - n⟩ := by
  have here : (u.pointed k).txBufferLengths (u.pointed k).nextTxBuffer = u.length k := rfl
  have count : bytesToWrite ⟨u.pointed k, pos, size⟩ = n := by
    simp only [bytesToWrite, here]
    split <;> omega
  have wraps : (u.pointed k).nextTxBuffer + 1 = (u.pointed k).dmaTxBuffer ↔ k = 3 :=
    place_wraps _ _
  have next : (u.pointed k).nextTxBuffer + 1 = u.dmaTxBuffer + (k + 1) := add_assoc _ _ _
  rw [writeRound_eq data _ pos size n count, here, if_pos filled]
  by_cases last : k = 3
  · rw [if_pos (wraps.mpr last), if_pos last, next, Nat.zero_add]
    rfl
  · have left : (size + 65536 - n) % 65536 = size - n := by omega
    rw [if_neg (fun eq => last (wraps.mp eq)), if_neg last, next, left]
    rfl

/-! ## The parts of a write -/

section Parts

variable {data : Mem UInt8} {u : Usart} {pos size : Nat}

/-- Full buffers are passed. -/
theorem rounds_pass (left : size ≠ 0) (word : size < 65536) (steps : Nat) :
    ∀ {k e : Fin 4}, e.val = k.val + steps →
      (∀ j, k ≤ j → j < e → u.length j = commsTxBufferSize) →
      Rounds data steps ⟨u.pointed k, pos, size⟩ ⟨u.pointed e, pos, size⟩ := by
  induction steps with
  | zero =>
      intro k e apart _
      have same : e = k := Fin.ext apart
      rw [same]
      exact .none _
  | succ steps ih =>
      intro k e apart full
      have notLast : k ≠ 3 := by
        rintro rfl
        have bound := e.isLt
        simp at apart
        omega
      have round := @writeRound_fills data u k pos size 0 (full k (Fin.le_refl k) (by omega))
        (Nat.zero_le _) word
      rw [if_neg notLast, Mem.load_zero, append_nil] at round
      apply Rounds.more left
      rw [round]
      have later : ∀ k : Fin 4, k ≠ 3 → (k + 1).val = k.val + 1 := by decide
      exact ih (by rw [later k notLast]; omega)
        (fun j low high => full j (by have := later k notLast; omega) high)

/-- With every buffer full the loop ends where writing comes round. -/
theorem rounds_full (full : ∀ j, u.length j = commsTxBufferSize) (left : size ≠ 0)
    (word : size < 65536) (k : Fin 4) :
    Rounds data (3 - k.val + 1) ⟨u.pointed k, pos, size⟩ ⟨u.pointed 0, pos, 0⟩ := by
  have pass := @rounds_pass data u pos size left word (3 - k.val) k 3
    (by have := k.isLt; show 3 = _; omega) (fun j _ _ => full j)
  have round := @writeRound_fills data u 3 pos size 0 (full 3) (Nat.zero_le _) word
  rw [if_pos rfl, Mem.load_zero, append_nil] at round
  have last := @Rounds.single data ⟨u.pointed 3, pos, size⟩ left
  rw [round] at last
  exact pass.trans last

/-- The buffer being sent is not waiting. -/
theorem waiting_behind {j : Fin 4} (waits : j ∈ u.waiting) (active : u.txDmaActive = true) :
    0 < j := by
  have positive : ∀ j : Fin 4, j ∈ [1, 2, 3] → 0 < j := by decide
  rw [Usart.waiting, if_pos active] at waits
  exact positive j waits

/-- In the ring there is room in the buffer being written and in those behind it. -/
theorem Ring.freeSpace_eq {k : Fin 4} (ring : Ring u k) :
    u.freeSpace = commsTxBufferSize - u.length k + commsTxBufferSize * (3 - k.val) := by
  have before : ((u.waiting.filter (· < k)).map fun j => commsTxBufferSize - u.length j).sum =
      0 := by
    rw [List.sum_eq_zero_iff_forall_eq_nat]
    intro room member
    obtain ⟨j, inside, rfl⟩ := List.mem_map.mp member
    obtain ⟨waits, low⟩ := List.mem_filter.mp inside
    rw [ring.full j (by simpa using low) (waiting_behind waits), Nat.sub_self]
  have after : ((u.waiting.filter (k < ·)).map fun j => commsTxBufferSize - u.length j) =
      (u.waiting.filter (k < ·)).map fun _ => commsTxBufferSize := by
    apply List.map_congr_left
    intro j inside
    have high : k < j := by simpa using (List.mem_filter.mp inside).2
    rw [ring.empty j high, Nat.sub_zero]
  have count : (u.waiting.filter (k < ·)).length = 3 - k.val := by
    have behind : ∀ k : Fin 4, ([1, 2, 3].filter (k < ·)).length = 3 - k.val ∧
        ([0, 1, 2, 3].filter (k < ·)).length = 3 - k.val := by decide
    unfold Usart.waiting
    split
    · exact (behind k).1
    · exact (behind k).2
  rw [Usart.freeSpace, ring.waiting_eq, List.map_append, List.map_cons, List.sum_append,
    List.sum_cons, before, after, List.map_const', List.sum_replicate_nat, count, Nat.zero_add,
    Nat.mul_comm]

/-- Bytes are queued, and the buffer being sent keeps its length too. -/
structure Fills (u v : Usart) (bytes : List UInt8) : Prop extends Appends u v bytes where
  length : u.txDmaActive = true → v.length 0 = u.length 0

theorem Fills.refl (u : Usart) : Fills u u [] :=
  ⟨⟨(List.append_nil _).symm, rfl, rfl, rfl, rfl, fun _ => rfl⟩, fun _ => rfl⟩

theorem Fills.trans {v w : Usart} {bytes more : List UInt8} (first : Fills u v bytes)
    (second : Fills v w more) : Fills u w (bytes ++ more) := by
  refine ⟨first.toAppends.trans second.toAppends, fun active => ?_⟩
  rw [second.length (first.active.trans active), first.length active]

theorem fills_append {k : Fin 4} (ring : Ring u k) (bytes : List UInt8) :
    Fills u (u.append bytes) bytes := by
  refine ⟨appends_append ring bytes, fun active => ?_⟩
  have other : (0 : Fin 4) ≠ k := (ring.front active).1.ne
  rw [length_append ring.next, Function.update_of_ne other]

theorem Fills.of_pointed {v : Usart} {k : Fin 4} {bytes : List UInt8}
    (fills : Fills (u.pointed k) v bytes) : Fills u v bytes :=
  ⟨⟨fills.queued, fills.dma, fills.active, fills.service, fills.transfer, fills.sending⟩,
    fills.length⟩

/-- A round for which the buffer has room. -/
theorem writeRound_room {k : Fin 4} (room : u.length k + size < commsTxBufferSize) :
    (writeRound data ⟨u.pointed k, pos, size⟩).1 =
      ⟨(u.pointed k).append (data.load pos size), pos + size, 0⟩ := by
  have here : (u.pointed k).txBufferLengths (u.pointed k).nextTxBuffer = u.length k := rfl
  have count : bytesToWrite ⟨u.pointed k, pos, size⟩ = size := by
    simp only [bytesToWrite, here]
    split <;> omega
  have left : (size + 65536 - size) % 65536 = 0 := by
    rw [Nat.add_sub_cancel_left]
  rw [writeRound_eq data _ pos size size count, here, if_neg (by omega), left]

/-- **A round that fills a buffer of the ring** other than the last: the next one is
empty. -/
theorem round_fills {k : Fin 4} {n : Nat} (ring : Ring (u.pointed k) k) (notLast : k ≠ 3)
    (filled : u.length k + n = commsTxBufferSize) (enough : n ≤ size) (word : size < 65536) :
    ∃ v, Rounds data 1 ⟨u.pointed k, pos, size⟩ ⟨v.pointed (k + 1), pos + n, size - n⟩ ∧
      Ring (v.pointed (k + 1)) (k + 1) ∧ v.freeSpace + n = u.freeSpace ∧
      Fills u v (data.load pos n) := by
  have places : ∀ k : Fin 4, k ≠ 3 → k < 3 ∧ k < k + 1 ∧ (k + 1).val = k.val + 1 := by decide
  obtain ⟨low, later, value⟩ := places k notLast
  have small : u.length k < commsTxBufferSize := ring.room
  have round := @writeRound_fills data u k pos size n filled enough word
  rw [if_neg notLast] at round
  have rounds := @Rounds.single data ⟨u.pointed k, pos, size⟩ (by show size ≠ 0; omega)
  rw [round] at rounds
  have advanced := @ring_advance _ k ring (data.load pos n) low
    (by rw [Mem.length_load]; exact filled)
  have next : (u.pointed k).nextTxBuffer + 1 = u.dmaTxBuffer + (k + 1) := add_assoc _ _ _
  rw [next] at advanced
  refine ⟨_, rounds, advanced, ?_, (fills_append ring _).of_pointed⟩
  have empty : ((u.pointed k).append (data.load pos n)).length (k + 1) = 0 := by
    rw [length_append ring.next, Function.update_of_ne later.ne']
    exact ring.empty _ later
  have before : u.freeSpace = commsTxBufferSize - u.length k + commsTxBufferSize * (3 - k.val) :=
    ring.freeSpace_eq
  have after : ((u.pointed k).append (data.load pos n)).freeSpace =
      commsTxBufferSize - ((u.pointed k).append (data.load pos n)).length (k + 1) +
        commsTxBufferSize * (3 - (k + 1).val) := advanced.freeSpace_eq
  have left : 3 - k.val = 3 - (k.val + 1) + 1 := by omega
  rw [before, after, empty, value, left, Nat.mul_add, Nat.mul_one]
  omega

/-- What the rounds of a write for which there is room come to. -/
def Stored (data : Mem UInt8) (u : Usart) (k : Fin 4) (pos size rounds : Nat) : Prop :=
  ∃ (n : Nat) (v : Usart) (e : Fin 4), n ≤ rounds ∧
    Rounds data n ⟨u.pointed k, pos, size⟩ ⟨v.pointed e, pos + size, 0⟩ ∧
    Ring (v.pointed e) e ∧ Fills u v (data.load pos size)

/-- The buffer being written has room for all of it. -/
theorem stored_here {k : Fin 4} (ring : Ring (u.pointed k) k)
    (room : u.length k + size < commsTxBufferSize) : Stored data u k pos size 1 := by
  by_cases zero : size = 0
  · subst zero
    exact ⟨0, u, k, Nat.zero_le _, .none _, ring, Fills.refl u⟩
  · refine ⟨1, (u.pointed k).append (data.load pos size), k, Nat.le_refl _, ?_, ?_,
      (fills_append ring _).of_pointed⟩
    · have round := @Rounds.single data ⟨u.pointed k, pos, size⟩ zero
      rw [writeRound_room room] at round
      exact round
    · apply ring_append ring
      rw [Mem.length_load]
      exact room

/-- **There is room**: everything is queued. By induction on the buffers left. -/
theorem stored (steps : Nat) : ∀ {u : Usart} {k : Fin 4} {pos size : Nat},
    3 - k.val = steps → Ring (u.pointed k) k → size < u.freeSpace → size < 65536 →
    Stored data u k pos size (steps + 1) := by
  induction steps with
  | zero =>
      intro u k pos size last ring room word
      have free : u.freeSpace = commsTxBufferSize - u.length k + commsTxBufferSize * (3 - k.val) :=
        ring.freeSpace_eq
      rw [last] at free
      exact stored_here ring (by omega)
  | succ steps ih =>
      intro u k pos size last ring room word
      by_cases here : u.length k + size < commsTxBufferSize
      · obtain ⟨n, v, e, few, rest⟩ := @stored_here data u pos size k ring here
        exact ⟨n, v, e, by omega, rest⟩
      · have small : u.length k < commsTxBufferSize := ring.room
        generalize chosen : commsTxBufferSize - u.length k = n
        have filled : u.length k + n = commsTxBufferSize := by omega
        have notLast : k ≠ 3 := by
          rintro rfl
          cases last
        obtain ⟨w, round, ring', free, fills⟩ :=
          @round_fills data u pos size k n ring notLast filled (by omega) word
        obtain ⟨rounds, v, e, few, rest, ringEnd, more⟩ :=
          @ih w (k + 1) (pos + n) (size - n) (by rw [place_left k notLast]; omega) ring' (by omega)
            (by omega)
        have total : pos + n + (size - n) = pos + size := by omega
        rw [total] at rest
        refine ⟨1 + rounds, v, e, by omega, round.trans rest, ringEnd, ?_⟩
        have whole := fills.trans more
        rwa [← Mem.load_add, Nat.add_sub_cancel' (by omega)] at whole

/-- What the rounds up to an overrun come to: every waiting buffer is full, writing is at
the buffer of the DMA, and the bytes of the last round have been subtracted from zero. -/
structure Overrun (data : Mem UInt8) (u : Usart) (k : Fin 4) (pos size rounds : Nat) (v : Usart)
    (last : Nat) : Prop where
  some : 0 < last
  few : last ≤ commsTxBufferSize
  rounds : Rounds data rounds ⟨u.pointed k, pos, size⟩
    ⟨v.pointed 0, pos + u.freeSpace, 65536 - last⟩
  full : ∀ j ∈ v.waiting, v.length j = commsTxBufferSize
  fills : Fills u v (data.load pos u.freeSpace)

/-- The overrun. -/
theorem overrun_here (ring : Ring (u.pointed 3) 3) (many : u.freeSpace ≤ size)
    (word : size < 65536) : ∃ v last, Overrun data u 3 pos size 1 v last := by
  have free : u.freeSpace = commsTxBufferSize - u.length 3 := ring.freeSpace_eq
  have small : u.length 3 < commsTxBufferSize := ring.room
  have filled : u.length 3 + u.freeSpace = commsTxBufferSize := by omega
  have round := @writeRound_fills data u 3 pos size u.freeSpace filled many word
  have wrapped : (65536 - u.freeSpace) % 65536 = 65536 - u.freeSpace := by omega
  rw [if_pos rfl, wrapped] at round
  refine ⟨(u.pointed 3).append (data.load pos u.freeSpace), u.freeSpace, by omega, by omega, ?_,
    ?_, (fills_append ring _).of_pointed⟩
  · have rounds := @Rounds.single data ⟨u.pointed 3, pos, size⟩ (by show size ≠ 0; omega)
    rw [round] at rounds
    exact rounds
  · intro j waits
    rw [length_append ring.next]
    by_cases here : j = 3
    · subst here
      rw [Function.update_self, Mem.length_load]
      exact filled
    · have low : ∀ j : Fin 4, j ≠ 3 → j < 3 := by decide
      rw [Function.update_of_ne here]
      exact ring.full j (low j here) (waiting_behind waits)

/-- **There is no room left.** By induction on the buffers left. -/
theorem overruns (steps : Nat) : ∀ {u : Usart} {k : Fin 4} {pos size : Nat},
    3 - k.val = steps → Ring (u.pointed k) k → u.freeSpace ≤ size → size < 65536 →
    ∃ v last, Overrun data u k pos size (steps + 1) v last := by
  induction steps with
  | zero =>
      intro u k pos size last ring many word
      have here : ∀ k : Fin 4, 3 - k.val = 0 → k = 3 := by decide
      obtain rfl := here k last
      exact overrun_here ring many word
  | succ steps ih =>
      intro u k pos size last ring many word
      have free : u.freeSpace = commsTxBufferSize - u.length k + commsTxBufferSize * (3 - k.val) :=
        ring.freeSpace_eq
      have small : u.length k < commsTxBufferSize := ring.room
      generalize chosen : commsTxBufferSize - u.length k = n at free
      have filled : u.length k + n = commsTxBufferSize := by omega
      have notLast : k ≠ 3 := by
        rintro rfl
        cases last
      obtain ⟨w, round, ring', rest, fills⟩ :=
        @round_fills data u pos size k n ring notLast filled (by omega) word
      obtain ⟨v, final, some, few, rounds, full, more⟩ :=
        @ih w (k + 1) (pos + n) (size - n) (by rw [place_left k notLast]; omega) ring' (by omega)
          (by omega)
      have total : pos + n + w.freeSpace = pos + u.freeSpace := by omega
      rw [total] at rounds
      refine ⟨v, final, some, few, ?_, full, ?_⟩
      · rw [Nat.add_comm]
        exact round.trans rounds
      · have whole := fills.trans more
        rwa [← Mem.load_add, Nat.add_comm n, rest] at whole

theorem waiting_of_pos {j : Fin 4} (behind : 0 < j) : j ∈ u.waiting := by
  have places : ∀ j : Fin 4, 0 < j → j ∈ [1, 2, 3] ∧ j ∈ [0, 1, 2, 3] := by decide
  unfold Usart.waiting
  split
  · exact (places j behind).1
  · exact (places j behind).2

theorem waiting_zero (inactive : u.txDmaActive = false) : 0 ∈ u.waiting := by
  rw [Usart.waiting, inactive]
  decide

/-- **Behind the overrun**: the buffer of the DMA is filled, and the loop ends where writing
comes round again. -/
theorem rounds_past_dma {n : Nat} (full : ∀ j ∈ u.waiting, u.length j = commsTxBufferSize)
    (filled : u.length 0 + n = commsTxBufferSize) (enough : n < size) (word : size < 65536) :
    (∀ j, ((u.pointed 0).append (data.load pos n)).length j = commsTxBufferSize) ∧
      Rounds data 4 ⟨u.pointed 0, pos, size⟩
        ⟨((u.pointed 0).append (data.load pos n)).pointed 0, pos + n, 0⟩ := by
  have lengths := @length_append (u.pointed 0) 0 rfl (data.load pos n)
  have all : ∀ j, ((u.pointed 0).append (data.load pos n)).length j = commsTxBufferSize := by
    intro j
    rw [lengths]
    by_cases here : j = 0
    · subst here
      rw [Function.update_self, Mem.length_load]
      exact filled
    · rw [Function.update_of_ne here]
      exact full j (waiting_of_pos (Fin.pos_iff_ne_zero.mpr here))
  have round := @writeRound_fills data u 0 pos size n filled (Nat.le_of_lt enough) word
  rw [if_neg (by decide)] at round
  refine ⟨all, .more (by show size ≠ 0; omega) ?_⟩
  rw [round]
  exact rounds_full all (by omega) (by omega) 1

end Parts

end OlympusFirmware.Olympus
